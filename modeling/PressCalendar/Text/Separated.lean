/-
Lists written in one line, with a separator between the items.
-/
import PressCalendar.Text.Blank

namespace PressCalendar
namespace Text

/-- The texts between the separators; one text more than there are separators. -/
def pieces (sep : Char) : List Char → List (List Char)
  | [] => [[]]
  | c :: cs =>
    if c = sep then [] :: pieces sep cs
    else match pieces sep cs with
      | [] => [[c]]
      | p :: ps => (c :: p) :: ps

/-- The trimmed pieces that hold anything but blanks. -/
def items (sep : Char) (s : String) : List String :=
  (((pieces sep s.toList).map trim).filter (!·.isEmpty)).map String.ofList

def join (sep : String) (ts : List String) : String := sep.intercalate ts

def trimmed (s : String) : String := String.ofList (trim s.toList)

/-- A text without the blanks at its right end. -/
def trimmedEnd (s : String) : String := String.ofList (trimEnd s.toList)

def occursIn (part : List Char) : List Char → Bool
  | [] => part.isEmpty
  | c :: cs => part.isPrefixOf (c :: cs) || occursIn part cs

end Text
end PressCalendar
