/-
The editor: a course, the block of it that is being edited, and the year on the
calendar sheet.

The displayed year follows the showing block: whenever another block comes up or
its dates change, the year moves into the block's range by the shortest way.
Processes describe a course as it was when it was split, so an editor drops them
as soon as the course changes.
-/
import PressCalendar.CourseDocument.Reader
import PressCalendar.CourseDocument.Writer
import PressCalendar.Notice
import PressCalendar.Preferences

namespace PressCalendar

structure Editor where
  course : Course
  /-- The number of the block being edited. -/
  showing : Option Nat
  year : Int
  /-- The day of the session, which settles short years and what is future. -/
  today : Date
  preferences : Preferences
deriving DecidableEq

namespace Editor

def blank (preferences : Preferences) (today : Date) : Editor :=
  ⟨.empty, none, today.year, today, preferences⟩

def showingBlock? (e : Editor) : Option Block := e.showing.bind e.course.block?

def showingId (e : Editor) : Except Error Nat :=
  match e.showing with
  | none => .error .noBlockSelected
  | some id => .ok id

def showingBlock (e : Editor) : Except Error Block :=
  match e.showing with
  | none => .error .noBlockSelected
  | some id =>
    match e.course.block? id with
    | some block => .ok block
    | none => .error (.unknownBlock id)

def showingLabel (e : Editor) : String := (e.showingBlock?.map Block.label).getD ""

/-- The year of a range that is nearest to a given one. -/
def nearestYear (first last : Date) (year : Int) : Int := max first.year (min year last.year)

/-- Move the displayed year into the range of the block being edited. -/
def navigate (e : Editor) : Editor :=
  match e.showingBlock?.bind Block.span? with
  | some (first, last) => { e with year := nearestYear first last e.year }
  | none => e

/-- Drop the processes of a course that has changed. -/
def touch (e : Editor) : Editor := { e with course := e.course.clearProcesses.forgetImported }

def load (e : Editor) (c : Course) : Editor :=
  navigate { e with course := c, showing := c.blocks.head?.map Block.id }

def ofCourse (c : Course) (preferences : Preferences) (today : Date) : Editor :=
  (blank preferences today).load c

/-! ## What there is to see -/

def implausibilities (e : Editor) : List Notice :=
  match e.showingBlock? with
  | none => []
  | some block =>
    match block.first, block.last with
    | some first, some last =>
      let isLong := (first.addYears? Notice.longBlockYears).any (· < last)
      (if isLong then [.longBlock] else []) ++
        (if first < e.preferences.earliest then [.firstEarly] else []) ++
        (if e.today < first then [.firstFuture] else []) ++
        (if last < e.preferences.earliest then [.lastEarly] else []) ++
        (if e.today < last then [.lastFuture] else [])
    | _, _ => []

/-- An issue of the block being edited, as it is listed. -/
structure IssueView where
  index : Nat
  heading : String
  colour : String
  days : List Weekday
deriving DecidableEq

def issueViews (e : Editor) : List IssueView :=
  match e.showingBlock? with
  | none => []
  | some block => block.issues.mapIdx fun index issue =>
    ⟨index, issue.heading, e.preferences.colour index, issue.pattern.toList⟩

def blockChoices (e : Editor) : List (Nat × String) :=
  e.course.blocks.map fun block => (block.id, block.label)

/-- Whether there is anything to split and to download. -/
def checkReady (e : Editor) : Except Error Unit :=
  if e.course.countAppearances = 0 then .error .emptyCourse else .ok ()

end Editor

end PressCalendar
