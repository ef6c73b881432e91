/-
Calendar sheets: a year laid out as 31 rows for the days and 12 columns for the
months.

The sheet is filled by a walk over the days of the year that keeps hold of the
block it is in, so the course is searched only where a block ends.  A cell whose
date does not exist, like the 30th of February, is blank.
-/
import PressCalendar.Editor.Basic

namespace PressCalendar

/-- An issue that may have appeared on the date of a cell. -/
structure IssueOption where
  block : Nat
  index : Nat
  heading : String
  colour : String
  date : Date
  selected : Bool
deriving DecidableEq

/-- One day on a sheet. -/
structure Cell where
  date : Option Date
  /-- Whether any block covers the date. -/
  onBlock : Bool
  /-- Whether the block being edited covers the date. -/
  onShowing : Bool
  options : List IssueOption
deriving DecidableEq

namespace Cell

/-- The cell of a date that does not exist.  It is not greyed out. -/
def blank : Cell := ⟨none, true, false, []⟩

def dayLabel? (cell : Cell) : Option String := cell.date.map fun date => s!"{date.day}."

/-- The style of a cell: its kind of day, and whether it lies on a block. -/
def style? (cell : Cell) : Option String :=
  cell.date.map fun date =>
    let kind := match date.weekday with
      | .sat => "saturday"
      | .sun => "sunday"
      | _ => "weekday"
    if cell.onBlock then kind else kind ++ "NoBlock"

/-- The issues that appeared, by index. -/
def selected (cell : Cell) : List Nat :=
  (cell.options.filter (·.selected)).map IssueOption.index

end Cell

structure YearSheet where
  year : Int
  rows : List (List Cell)
deriving DecidableEq

namespace YearSheet

def cell? (sheet : YearSheet) : Nat → Nat → Option Cell
  | day + 1, month + 1 => sheet.rows[day]?.bind (·[month]?)
  | _, _ => none

end YearSheet

namespace Editor

def optionsOn (e : Editor) (block : Block) (date : Date) : List IssueOption :=
  block.issues.mapIdx fun index issue =>
    ⟨block.id, index, issue.heading, e.preferences.colour index, date, issue.appearsOn date⟩

/-- The cell of a date, given the block that covers it. -/
def cellOn (e : Editor) (block? : Option Block) (date : Date) : Cell :=
  match block? with
  | none => ⟨some date, false, false, []⟩
  | some block => ⟨some date, true, e.showing == some block.id, e.optionsOn block date⟩

/-- The block on a date, if it may be the one of the date before. -/
def blockFrom (c : Course) (before : Option Block) (date : Date) : Option Block :=
  if before.any (·.covers date) then before else c.blockOn? date

/-- The cells of consecutive dates, with the block of the date before them. -/
def walk (e : Editor) (before : Option Block) : List Date → List Cell
  | [] => []
  | date :: dates =>
    let block? := blockFrom e.course before date
    e.cellOn block? date :: walk e block? dates

def daysOf (year : Int) : List Date :=
  match Date.of? year 1 1, Date.of? year 12 31 with
  | some first, some last => Date.closedRange first last
  | _, _ => []

def isCellOf (month day : Nat) (cell : Cell) : Bool :=
  cell.date.any fun date => date.month == month && date.day == day

def sheet (e : Editor) (year : Int) : YearSheet :=
  let cells := e.walk none (daysOf year)
  { year
    rows := (List.range 31).map fun day => (List.range 12).map fun month =>
      (cells.find? (isCellOf (month + 1) (day + 1))).getD Cell.blank }

end Editor

end PressCalendar
