/-
Granularities: the time resolutions at which appearances are grouped.

A granularity that groups by date assigns each date its period.  `group` puts
neighbouring appearances together as long as their period does not change; a
granularity without periods leaves every appearance on its own.
-/
import PressCalendar.Appearance

namespace PressCalendar

inductive Granularity where
  | issues | days | weeks | months | quarters | years | asImported
deriving DecidableEq, Repr

/-- A year, or a numbered part of one. -/
structure Period where
  year : Int
  part : Nat
deriving DecidableEq, Repr

namespace Granularity

def all : List Granularity := [issues, days, weeks, months, quarters, years, asImported]

def name : Granularity → String
  | issues => "issues"
  | days => "days"
  | weeks => "weeks"
  | months => "months"
  | quarters => "quarters"
  | years => "years"
  | asImported => "as-imported"

/-- Lower case as far as the result can be an ASCII letter: beside the capitals
only the Kelvin sign becomes one. -/
def lowerLetter (c : Char) : Char := if c = '\u212A' then 'k' else c.toLower

/-- The spelling under which a typed name is looked up: blanks at the ends, case
and the choice between dash and underscore do not count. -/
def normalise (s : String) : List Char :=
  (Text.trim s.toList).map fun c => if c = '_' then '-' else lowerLetter c

def ofText? (s : String) : Option Granularity :=
  all.find? fun g => g.name.toList == normalise s

def refusal (s : String) : String :=
  s!"Invalid granularity: '{s}'. Valid granularities are: " ++
  "issues, days, weeks, months, quarters, years, as-imported"

/-- The period of a date.  Appearances of one period belong to one process. -/
def period? : Granularity → Date → Option Period
  | days, d => some ⟨d.year, d.ordinal⟩
  | weeks, d => some ⟨d.week.year, d.week.week⟩
  | months, d => some ⟨d.year, d.month⟩
  | quarters, d => some ⟨d.year, (d.month - 1) / 3⟩
  | years, d => some ⟨d.year, 0⟩
  | issues, _ => none
  | asImported, _ => none

def together (g : Granularity) (a b : Appearance) : Bool :=
  (g.period? a.date).isSome && g.period? a.date == g.period? b.date

def group (g : Granularity) (appearances : List Appearance) : List Process :=
  appearances.splitBy g.together

end Granularity

end PressCalendar
