/-
Words that are no command, and why they are not.
-/

namespace PressCalendar
namespace Command

inductive Misuse where
  | unexpected (word : String)
  | unknownCommand (word : String)
  | valueMissing (flag : String)
  | valueUnwanted (flag : String)
  | repeated (flag : String)
  | flagMissing (flag : String)
  | wordMissing
  | badValue (word reason : String)
deriving DecidableEq, Repr

namespace Misuse

def text : Misuse → String
  | unexpected word => s!"unexpected argument '{word}' found"
  | unknownCommand word => s!"unrecognized subcommand '{word}'"
  | valueMissing flag => s!"a value is required for '--{flag}' but none was supplied"
  | valueUnwanted flag => s!"unexpected value for '--{flag}' found; no more were expected"
  | repeated flag => s!"the argument '--{flag}' cannot be used multiple times"
  | flagMissing flag => s!"the following required arguments were not provided: --{flag}"
  | wordMissing => "required arguments were not provided"
  | badValue word reason => s!"invalid value '{word}': {reason}"

end Misuse

/-- Words that end in something other than a command. -/
inductive NoCommand where
  /-- The user asked how commands are given. -/
  | help
  | version
  | nothing
  | misuse (cause : Misuse)
deriving DecidableEq, Repr

def refuse {α : Type} (cause : Misuse) : Except NoCommand α := .error (.misuse cause)

end Command
end PressCalendar
