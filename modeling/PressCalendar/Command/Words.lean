/-
Words of a line, sorted into flags and plain words.

A flag stands as a word of its own with two hyphens and its name, or as a letter
behind a single hyphen, where letters may be put together.  The value of a flag
follows in the same word or is the next word, if that does not begin with a hyphen
itself.  Behind a word of two hyphens all words are plain.

A `Form` says which flags there are and what the plain words stand for.
`Form.sort` reads the words one after the other, with a `Sorting` of those read so
far.  Every word is checked when it is read, so the first fault or the first
request for help decides.
-/
import PressCalendar.Command.Kind

namespace PressCalendar
namespace Command

structure Flag where
  name : String
  letter : Option Char
  /-- What the value of the flag stands for, if it has one. -/
  kind? : Option Kind
deriving DecidableEq, Repr

structure Form where
  flags : List Flag
  /-- The least number of plain words. -/
  least : Nat
  /-- What the plain words stand for, as many as there may be. -/
  plain : List Kind
deriving DecidableEq, Repr

structure Arguments where
  /-- The given flags with their values.  A flag without value has the empty one. -/
  flags : List (String × String)
  plain : List String
deriving DecidableEq, Repr

namespace Arguments

def value? (a : Arguments) (name : String) : Option String := a.flags.lookup name

def has (a : Arguments) (name : String) : Bool := (a.value? name).isSome

end Arguments

structure Sorting where
  arguments : Arguments
  /-- The flag of which the next word is the value. -/
  open? : Option Flag
  /-- Whether all further words are plain. -/
  closed : Bool
deriving DecidableEq, Repr

namespace Sorting

def empty : Sorting := ⟨⟨[], []⟩, none, false⟩

def give (s : Sorting) (flag : Flag) (value : String) : Except NoCommand Sorting := do
  if s.arguments.has flag.name then refuse (.repeated flag.name)
  if let some kind := flag.kind? then kind.check value
  return { s with
    arguments := { s.arguments with flags := (flag.name, value) :: s.arguments.flags }
    open? := none }

/-- A plain word, if the form has room for it. -/
def add (s : Sorting) (form : Form) (word : String) : Except NoCommand Sorting :=
  match form.plain[s.arguments.plain.length]? with
  | some kind => do
    kind.check word
    return { s with arguments := { s.arguments with plain := s.arguments.plain ++ [word] } }
  | none => refuse (.unexpected word)

def long (s : Sorting) (form : Form) (name : String) (value? : Option String) :
    Except NoCommand Sorting :=
  match form.flags.find? (·.name == name), value? with
  | some flag, some value =>
    if flag.kind?.isSome then s.give flag value else refuse (.valueUnwanted name)
  | some flag, none =>
    if flag.kind?.isSome then .ok { s with open? := some flag } else s.give flag ""
  | none, none => if name = "help" then .error .help else refuse (.unexpected s!"--{name}")
  | none, some _ => refuse (.unexpected s!"--{name}")

/-- Flags by their letters.  What follows the letter of a flag with a value is the
value. -/
def letters (s : Sorting) (form : Form) : List Char → Except NoCommand Sorting
  | [] => .ok s
  | c :: cs =>
    match form.flags.find? (·.letter == some c) with
    | some flag =>
      if flag.kind?.isSome then
        match cs with
        | [] => .ok { s with open? := some flag }
        | '=' :: value => s.give flag (String.ofList value)
        | value => s.give flag (String.ofList value)
      else do (← s.give flag "").letters form cs
    | none =>
      if c = 'h' then .error .help else refuse (.unexpected (String.ofList ['-', c]))

/-- The name of a flag and what stands behind the first equals sign. -/
def nameAndValue (cs : List Char) : String × Option String :=
  let name := cs.takeWhile (· != '=')
  (String.ofList name,
    if name.length < cs.length then some (String.ofList (cs.drop (name.length + 1))) else none)

def next (form : Form) (s : Sorting) (word : String) : Except NoCommand Sorting :=
  if s.closed then s.add form word
  else match s.open?, word.toList with
    | some flag, '-' :: _ :: _ => refuse (.valueMissing flag.name)
    | some flag, _ => s.give flag word
    | none, ['-', '-'] => .ok { s with closed := true }
    | none, '-' :: '-' :: cs =>
      let (name, value?) := nameAndValue cs
      s.long form name value?
    | none, '-' :: c :: cs => s.letters form (c :: cs)
    | none, _ => s.add form word

end Sorting

def Form.sort (form : Form) (words : List String) : Except NoCommand Arguments := do
  let s ← words.foldlM (Sorting.next form) Sorting.empty
  match s.open? with
  | some flag => refuse (.valueMissing flag.name)
  | none =>
    if s.arguments.plain.length < form.least then refuse .wordMissing
    else return s.arguments

end Command
end PressCalendar
