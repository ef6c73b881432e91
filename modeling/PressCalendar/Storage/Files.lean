/-
Files and directories, as far as a workspace needs them.

`Files m` says what can be asked of them in `m`.  A request that can fail answers
the fault, so that the asker decides what it means.
-/
import PressCalendar.Storage.Path

namespace PressCalendar

inductive FileFault where
  | notFound
  | notDirectory
  | isDirectory
  | alreadyExists
  | nameTooLong
  /-- The bytes of the file are not text in UTF-8. -/
  | notText
  | other (detail : String)
deriving DecidableEq, Repr

def FileFault.text : FileFault → String
  | notFound => "No such file or directory (os error 2)"
  | notDirectory => "Not a directory (os error 20)"
  | isDirectory => "Is a directory (os error 21)"
  | alreadyExists => "File exists (os error 17)"
  | nameTooLong => "File name too long (os error 36)"
  | notText => "stream did not contain valid UTF-8"
  | other detail => detail

class Files (m : Type → Type) where
  directory : m (Except FileFault String)
  isDirectory (path : String) : m Bool
  isPresent (path : String) : m Bool
  read (path : String) : m (Except FileFault String)
  /-- Make a file of a text, in place of the one that may be there. -/
  write (path text : String) : m (Except FileFault Unit)
  createDirectory (path : String) : m (Except FileFault Unit)
  remove (path : String) : m (Except FileFault Unit)
  /-- Move a file, in place of the one that may be at the other path. -/
  move (source target : String) : m (Except FileFault Unit)

namespace Files

variable {m : Type → Type} [Monad m] [Files m]

/-- A directory that is there already is as good as a new one. -/
def settle (path : String) (answer : Except FileFault Unit) : m (Except FileFault Unit) := do
  match answer with
  | .ok () => return .ok ()
  | .error fault => return if ← isDirectory path then .ok () else .error fault

/-- Create the first of some directories, each of which is in the next one.  The
others are created only if they are missing. -/
def createEach : List String → m (Except FileFault Unit)
  | [] => return .ok ()
  | path :: above => do
    match ← createDirectory path with
    | .error .notFound =>
      match ← createEach above with
      | .error fault => return .error fault
      | .ok () => settle path (← createDirectory path)
    | answer => settle path answer

def createAll (path : String) : m (Except FileFault Unit) :=
  createEach (path :: Path.parents path)

end Files

end PressCalendar
