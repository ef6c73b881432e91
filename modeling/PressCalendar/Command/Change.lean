/-
Changes: the commands that edit the stored course.

A user counts blocks and issues from 1.  `edit` turns a change into the request to
an editor, whose numbers of issues begin with 0, and turns the number in a failure
back, so that it is the one the user gave.  Issue 0 is refused before any course is
looked at.
-/
import PressCalendar.Editor.Edit

namespace PressCalendar

inductive Change where
  | addBlock (first last : String)
  /-- Either date may be left as it is, but not both. -/
  | setBlock (block : Nat) (first last : Option String)
  | copyBlock (block : Nat)
  | removeBlock (block : Nat)
  | addIssue (block : Nat) (heading : String) (days : List Weekday)
  | removeIssue (block issue : Nat)
  | setDays (block issue : Nat) (days : List Weekday)
  | renameIssue (block issue : Nat) (heading : String)
  | toggleIssue (block issue : Nat) (date : String)
deriving DecidableEq, Repr

namespace Change

inductive Deed where
  | blockAdded (label : String)
  | blockSet (block : Nat) (label : String)
  | blockCopied (block : Nat) (label : String)
  | blockRemoved (block : Nat)
  | issueAdded (block issue : Nat) (heading : String)
  | issueRemoved (block : Nat) (heading : String)
  | daysSet (block issue : Nat)
  | issueRenamed (block issue : Nat) (heading : String)
  | issueToggled (issue : Nat) (appeared : Bool) (date : Date)
deriving DecidableEq, Repr

namespace Deed

def text : Deed → String
  | blockAdded label => s!"Added block {label}"
  | blockSet block label => s!"Block {block} is now {label}"
  | blockCopied block label => s!"Copied block {block} to {label}"
  | blockRemoved block => s!"Removed block {block}"
  | issueAdded block issue heading => s!"Added issue {issue} '{heading}' to block {block}"
  | issueRemoved block heading => s!"Removed issue '{heading}' from block {block}"
  | daysSet block issue => s!"Updated days of issue {issue} of block {block}"
  | issueRenamed block issue heading => s!"Renamed issue {issue} of block {block} to '{heading}'"
  | issueToggled issue appeared date =>
    let verb := if appeared then "appeared" else "did not appear"
    s!"Issue {issue} {verb} on {date.display}"

end Deed

structure Outcome where
  notices : List Notice
  deed : Deed
deriving DecidableEq

/-! ## Numbers as the user counts -/

def issueIndex (number : Nat) : Except Error Nat :=
  match number with
  | 0 => .error (.unknownIssue 0)
  | index + 1 => .ok index

/-- A failure with the number of an issue in place of its index. -/
def numbered : Error → Error
  | .unknownIssue index => .unknownIssue (index + 1)
  | cause => cause

def onIssue {α : Type} (block issue : Nat) (edit : Nat → Edit α) : Except Error (Edit α) := do
  let index ← issueIndex issue
  return ExceptT.adapt numbered do
    let _ ← Edit.selectNumber block
    edit index

/-! ## Edits -/

def addBlockEdit (first last : String) : Edit Outcome := do
  Edit.startNewBlock
  let notices ← Edit.setPeriod first last
  return ⟨notices, .blockAdded (← get).showingLabel⟩

def setBlockEdit (block : Nat) (first? last? : Option String) : Edit Outcome := do
  let selected ← Edit.selectNumber block
  let changed ← match first?, last? with
    | some first, some last => Edit.setPeriod first last
    | some first, none => Edit.setFirst first
    | none, some last => Edit.setLast last
    | none, none => throw (.invalidRange "give --first, --last or both")
  return ⟨selected ++ changed, .blockSet block (← get).showingLabel⟩

def copyBlockEdit (block : Nat) : Edit Outcome := do
  let _ ← Edit.selectNumber block
  let _ ← Edit.copyBlock
  return ⟨[], .blockCopied block (← get).showingLabel⟩

def removeBlockEdit (block : Nat) : Edit Outcome := do
  let _ ← Edit.selectNumber block
  Edit.removeBlock
  return ⟨[], .blockRemoved block⟩

def addIssueEdit (block : Nat) (heading : String) (days : List Weekday) : Edit Outcome := do
  let _ ← Edit.selectNumber block
  let index ← Edit.addIssue heading
  days.forM fun day => Edit.setRegular index day true
  return ⟨[], .issueAdded block (index + 1) heading⟩

/-- Make an issue regular on exactly the given days. -/
def setDaysOf (index : Nat) (days : List Weekday) : Edit Unit :=
  Weekday.all.forM fun day => Edit.setRegular index day (days.contains day)

def toggleOn (index : Nat) (input : String) : Edit (Date × Bool × List Notice) := do
  let (date, notices) ← Edit.readDate input .issueDate
  let some id := (← get).showing | throw .noBlockSelected
  let appeared ← Edit.toggleIssue id index date
  return (date, appeared, notices)

def edit : Change → Except Error (Edit Outcome)
  | addBlock first last => .ok (addBlockEdit first last)
  | setBlock block first last => .ok (setBlockEdit block first last)
  | copyBlock block => .ok (copyBlockEdit block)
  | removeBlock block => .ok (removeBlockEdit block)
  | addIssue block heading days => .ok (addIssueEdit block heading days)
  | removeIssue block issue => onIssue block issue fun index => do
    let removed ← Edit.removeIssue index
    return ⟨[], .issueRemoved block removed.heading⟩
  | setDays block issue days => onIssue block issue fun index => do
    setDaysOf index days
    return ⟨[], .daysSet block issue⟩
  | renameIssue block issue heading => onIssue block issue fun index => do
    Edit.setHeading index heading
    return ⟨[], .issueRenamed block issue heading⟩
  | toggleIssue block issue date => onIssue block issue fun index => do
    let (date, appeared, notices) ← toggleOn index date
    return ⟨notices, .issueToggled issue appeared date⟩

end Change

end PressCalendar
