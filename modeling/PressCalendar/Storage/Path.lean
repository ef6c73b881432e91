/-
Paths in text: names with slashes between them.

A path that begins with a slash starts at the root, any other one at the current
directory.  `steps` are the names on the way as they are followed, where a full
stop stays where it is and two go back.  `parents` are the paths above, for which
a single full stop does not count.
-/
import PressCalendar.Text.Separated

namespace PressCalendar
namespace Path

def isAbsolute (path : String) : Bool := path.toList.head? = some '/'

/-- Whether a path asks for a directory by the slash at its end. -/
def wantsDirectory (path : String) : Bool := path.toList.getLast? = some '/'

/-- Names longer than 255 bytes, and paths longer than 4095, are never followed. -/
def isNameTooLong (name : String) : Bool := 255 < name.utf8ByteSize

def isTooLong (path : String) : Bool := 4095 < path.utf8ByteSize

def join (directory name : String) : String :=
  if isAbsolute name || directory.isEmpty then name
  else if wantsDirectory directory then directory ++ name
  else directory ++ "/" ++ name

def steps (path : String) : List String :=
  ((Text.pieces '/' path.toList).filter (!·.isEmpty)).map String.ofList

def ofNames (absolute : Bool) (names : List String) : String :=
  (if absolute then "/" else "") ++ Text.join "/" names

/-- The beginnings of a list that are not empty, the shortest first. -/
def beginnings {α : Type} : List α → List (List α)
  | [] => []
  | x :: xs => [x] :: (beginnings xs).map (x :: ·)

/-- The paths above a path, the nearest first, up to the root or to where the path
starts. -/
def parents (path : String) : List String :=
  let names := (steps path).filter (· != ".")
  (beginnings names.dropLast).reverse.map (ofNames (isAbsolute path)) ++
    if isAbsolute path && !names.isEmpty then ["/"] else []

end Path
end PressCalendar
