/-
The two written forms of a date, and a reader for the first of them.

The exchange form is year, month, day (`1850-01-31`), the display form is day,
month, year (`31.01.1850`).  In both a year from 0 to 9999 has at least four
digits and no sign, any other year has a sign.  The reader accepts more than the
writer produces: fewer digits, and blanks in front of the numbers and dashes and
at the end.
-/
import PressCalendar.Date.Basic
import PressCalendar.Text.Blank
import PressCalendar.Text.Digit

namespace PressCalendar

open Text

/-- Four digits or more, with a sign for the years that do not fit into four. -/
def yearText (year : Int) : List Char :=
  if 0 ≤ year ∧ year ≤ 9999 then padZero 4 year.toNat
  else (if year < 0 then '-' else '+') :: padZero 4 year.natAbs

namespace Date

def isoText (d : Date) : List Char :=
  yearText d.year ++ '-' :: padZero 2 d.month ++ '-' :: padZero 2 d.day

def displayText (d : Date) : List Char :=
  padZero 2 d.day ++ '.' :: padZero 2 d.month ++ '.' :: yearText d.year

def iso (d : Date) : String := String.ofList d.isoText

def display (d : Date) : String := String.ofList d.displayText

/-! ## Reading the exchange form -/

/-- A number of at least one digit, and of no more digits than a limit where
there is one. -/
def takeNumber? (limit : Option Nat) (cs : List Char) : Option (Nat × List Char) :=
  let digits := cs.takeWhile Char.isDigit
  let taken := match limit with
    | some n => digits.take n
    | none => digits
  (number? taken).map fun n => (n, cs.drop taken.length)

/-- A year: four digits at most, or a sign and any number of digits. -/
def takeYear? (cs : List Char) : Option (Int × List Char) :=
  match trimStart cs with
  | '-' :: rest => (takeNumber? none rest).map fun (n, rest) => (-(n : Int), rest)
  | '+' :: rest => (takeNumber? none rest).map fun (n, rest) => ((n : Int), rest)
  | rest => (takeNumber? (some 4) rest).map fun (n, rest) => ((n : Int), rest)

/-- A dash and then a number of one or two digits, blanks in front of both. -/
def takeField? (mark : Char) (cs : List Char) : Option (Nat × List Char) :=
  match trimStart cs with
  | c :: rest => if c = mark then takeNumber? (some 2) (trimStart rest) else none
  | [] => none

def takeIso? (cs : List Char) : Option (Date × List Char) := do
  let (year, rest) ← takeYear? cs
  let (month, rest) ← takeField? '-' rest
  let (day, rest) ← takeField? '-' rest
  let date ← of? year month day
  return (date, rest)

def ofIsoText? (cs : List Char) : Option Date :=
  match takeIso? cs with
  | some (date, rest) => if (trimStart rest).isEmpty then some date else none
  | none => none

def ofIso? (s : String) : Option Date := ofIsoText? s.toList

end Date

end PressCalendar
