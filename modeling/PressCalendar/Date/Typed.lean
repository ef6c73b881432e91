/-
Dates as people type them: a day, a month and a year, in this order, with
anything but digits around and between them.

A year below 100 is short for one of the last hundred years.  Where day and
month do not fit, they are tried the other way round.  The reading says which of
these guesses it took.
-/
import PressCalendar.Error

namespace PressCalendar

open Text

inductive DateHint where
  | yearCompleted (given : String) (completed : Int)
  | dayMonthSwapped
deriving DecidableEq, Repr

structure TypedDate where
  date : Date
  hints : List DateHint
deriving DecidableEq, Repr

namespace TypedDate

/-- The longest stretches of decimal digits of any script. -/
def digitRuns (cs : List Char) : List (List Char) :=
  (cs.splitBy fun a b => isDecimal a == isDecimal b).filter (·.all isDecimal)

/-- A number of at most 32 bits, in ASCII digits. -/
def word? (cs : List Char) : Option Nat :=
  (number? cs).filter (· < 0x100000000)

/-- The year in the century of the current year, or in the one before if that
lies in the future. -/
def completeYear (currentYear : Int) (short : Nat) : Int :=
  let year := short + currentYear.tdiv 100 * 100
  if currentYear < year then year - 100 else year

def readYear (currentYear : Int) (run : List Char) (number : Nat) : Int × List DateHint :=
  if number < 100 then
    let year := completeYear currentYear number
    (year, [.yearCompleted (String.ofList run) year])
  else (number, [])

/-- The date of three numbers, as day and month or else as month and day. -/
def arrange? (year : Int) (day month : Nat) (hints : List DateHint) : Option TypedDate :=
  match Date.of? year month day with
  | some date => some ⟨date, hints⟩
  | none => (Date.of? year day month).map fun date => ⟨date, hints ++ [.dayMonthSwapped]⟩

def ofText? (today : Date) (cs : List Char) : Option TypedDate :=
  match digitRuns cs with
  | [dayRun, monthRun, yearRun] => do
    let day ← word? dayRun
    let month ← word? monthRun
    let number ← (number? yearRun).filter (· < 0x80000000)
    let (year, hints) := readYear today.year yearRun number
    arrange? year day month hints
  | _ => none

/-- Read a typed date; `today` settles short years. -/
def read (today : Date) (input : String) : Except Error TypedDate :=
  match ofText? today (trim input.toList) with
  | some typed => .ok typed
  | none => .error (.unreadableDate input)

end TypedDate

end PressCalendar
