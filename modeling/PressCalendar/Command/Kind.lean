/-
What words of a line may stand for.

Dates and settings stay as they were typed, since reading them takes the day of the
session.  Everything else is read from the word alone.
-/
import PressCalendar.Command.Misuse
import PressCalendar.Text.Digit
import PressCalendar.Weekday.Typed

namespace PressCalendar
namespace Command

/-- A number with an optional plus sign, of at most 64 bits. -/
def number? (word : String) : Option Nat :=
  let digits := match word.toList with
    | '+' :: cs => cs
    | cs => cs
  (Text.number? digits).filter (· < 0x10000000000000000)

/-- A year with an optional sign, of at most 31 bits. -/
def year? (word : String) : Option Int :=
  let value? : Option Int := match word.toList with
    | '-' :: cs => (Text.number? cs).map fun n => -(n : Int)
    | '+' :: cs => (Text.number? cs).map fun n => (n : Int)
    | cs => (Text.number? cs).map fun n => (n : Int)
  value?.filter fun n => -0x80000000 ≤ n && n < 0x80000000

def readNumber (word : String) : Except NoCommand Nat :=
  match number? word with
  | some n => .ok n
  | none => refuse (.badValue word "not a number")

def readYear (word : String) : Except NoCommand Int :=
  match year? word with
  | some n => .ok n
  | none => refuse (.badValue word "not a year")

def readDays (word : String) : Except NoCommand (List Weekday) :=
  match Weekday.readList word with
  | .ok days => .ok days
  | .error reason => refuse (.badValue word reason)

/-- A path, which must not be empty. -/
def readPath (word : String) : Except NoCommand String :=
  if word.isEmpty then refuse (.badValue word "a path is required") else .ok word

inductive Kind where
  | text
  | path
  | number
  | year
  | days
deriving DecidableEq, Repr

def Kind.check (kind : Kind) (word : String) : Except NoCommand Unit :=
  match kind with
  | text => .ok ()
  | path => discard (readPath word)
  | number => discard (readNumber word)
  | year => discard (readYear word)
  | days => discard (readDays word)

end Command
end PressCalendar
