/-
Moments: points in time, to the nanosecond.

A moment is kept by the clock of the zeroth meridian.  In text it may stand by
another clock with the difference behind it (`2025-01-17T12:30:00+02:00`), and is
turned back by that difference when it is read.  A minute may have a second 60,
which was inserted to keep clocks and the sun together.
-/
import PressCalendar.Date.Text

namespace PressCalendar

open Text

structure Moment where
  date : Date
  minute : Fin 1440
  second : Fin 61
  nano : Fin 1000000000
deriving DecidableEq

namespace Moment

/-! ## Writing -/

/-- A part of a second: nothing, or as many digits as it takes, by threes. -/
def fractionText (nano : Nat) : List Char :=
  if nano = 0 then []
  else if nano % 1000000 = 0 then '.' :: padZero 3 (nano / 1000000)
  else if nano % 1000 = 0 then '.' :: padZero 6 (nano / 1000)
  else '.' :: padZero 9 nano

/-- Date and time of day, with a given name of the clock at the end. -/
def text (zone : String) (m : Moment) : String :=
  String.ofList (m.date.isoText ++ 'T' :: padZero 2 (m.minute / 60) ++ ':' ::
    padZero 2 (m.minute % 60) ++ ':' :: padZero 2 m.second ++ fractionText m.nano ++ zone.toList)

def stored (m : Moment) : String := m.text "Z"

def shown (m : Moment) : String := m.text "+00:00"

/-! ## Reading -/

/-- The letter or space between a date and a time of day. -/
def skipMark? : List Char → Option (List Char)
  | 't' :: rest => some rest
  | 'T' :: rest => some rest
  | ' ' :: rest => some rest
  | _ => none

/-- The part of a second at the head of a text, zero if there is none.  Digits
beyond the ninth do not count. -/
def takeFraction? : List Char → Option (Nat × List Char)
  | '.' :: rest =>
    let digits := rest.takeWhile Char.isDigit
    (number? ((digits ++ List.replicate 9 '0').take 9)).bind fun nano =>
      if digits.isEmpty then none else some (nano, rest.dropWhile Char.isDigit)
  | rest => some (0, rest)

def takePair? : List Char → Option (Nat × List Char)
  | a :: b :: rest => (number? [a, b]).map fun n => (n, rest)
  | _ => none

/-- Hours and minutes as minutes; any colons and blanks may stand between. -/
def takeShift? (cs : List Char) : Option (Int × List Char) := do
  let (hours, rest) ← takePair? cs
  let (minutes, rest) ← takePair? (rest.dropWhile fun c => c = ':' || isBlank c)
  if 60 ≤ minutes || 24 ≤ hours then none
  else some (((hours * 60 + minutes : Nat) : Int), rest)

def takeZone? (cs : List Char) : Option (Int × List Char) :=
  if (cs.take 3).map Char.toUpper = ['U', 'T', 'C'] then some (0, cs.drop 3)
  else match cs with
    | 'Z' :: rest => some (0, rest)
    | 'z' :: rest => some (0, rest)
    | '+' :: rest => takeShift? rest
    | '-' :: rest => (takeShift? rest).map fun (shift, rest) => (-shift, rest)
    | '\u2212' :: rest => (takeShift? rest).map fun (shift, rest) => (-shift, rest)
    | _ => none

/-- The date and minute of a clock that is not ahead, where the difference is
less than a day. -/
def setBack? (date : Date) (minute : Nat) (shift : Int) : Option (Date × Nat) :=
  let turned := minute - shift
  if turned < 0 then date.previous?.map fun date => (date, (turned + 1440).toNat)
  else if turned < 1440 then some (date, turned.toNat)
  else date.next?.map fun date => (date, (turned - 1440).toNat)

def of? (date : Date) (minute second nano : Nat) : Option Moment :=
  if h : minute < 1440 ∧ second < 61 ∧ nano < 1000000000 then
    some ⟨date, ⟨minute, h.1⟩, ⟨second, h.2.1⟩, ⟨nano, h.2.2⟩⟩
  else none

def ofText? (s : String) : Option Moment := do
  let (date, rest) ← Date.takeIso? s.toList
  let rest ← skipMark? rest
  let (hour, rest) ← Date.takeNumber? (some 2) (trimStart rest)
  let (minute, rest) ← Date.takeField? ':' rest
  let (second, rest) ← Date.takeField? ':' rest
  let (nano, rest) ← takeFraction? rest
  let (shift, rest) ← takeZone? (trimStart rest)
  if 24 ≤ hour || 60 ≤ minute || !(trimStart rest).isEmpty then none
  else do
    let (date, minute) ← setBack? date (hour * 60 + minute) shift
    of? date minute second nano

end Moment

end PressCalendar
