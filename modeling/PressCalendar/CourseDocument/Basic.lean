/-
Course documents: what a course looks like in exchange.

A document lists complete blocks with their issues, and the processes of the
course if it was split.  Unlike a course it promises nothing: its blocks may
overlap and its processes may name any date.  `Course.ofDocument` accepts a
document or says what is wrong with it, and `Course.toDocument` leaves out the
blocks that are not complete.
-/
import PressCalendar.Course.Basic

namespace PressCalendar

structure IssueElement where
  heading : String
  pattern : WeekPattern
  additions : List Date
  exclusions : List Date
deriving DecidableEq

structure BlockElement where
  first : Date
  last : Date
  issues : List IssueElement
deriving DecidableEq

structure CourseDocument where
  blocks : List BlockElement
  processes : List Process
deriving DecidableEq

namespace IssueElement

/-- The issue an element stands for.  An addition counts more than an exclusion
of the same date. -/
def toIssue (e : IssueElement) : Issue :=
  e.additions.foldl Issue.addAddition
    (e.exclusions.foldl Issue.addExclusion (Issue.weekly e.heading e.pattern.toList))

def ofIssue (issue : Issue) : IssueElement :=
  ⟨issue.heading, issue.pattern, issue.additions.dates, issue.exclusions.dates⟩

end IssueElement

namespace BlockElement

def ofBlock? (b : Block) : Option BlockElement :=
  match b.first, b.last with
  | some first, some last => some ⟨first, last, b.issues.map IssueElement.ofIssue⟩
  | _, _ => none

end BlockElement

namespace Course

def toDocument (c : Course) : CourseDocument :=
  ⟨c.blocks.filterMap BlockElement.ofBlock?, c.processes⟩

def addElement (c : Course) (e : BlockElement) : Except Error Course := do
  let (blank, c) := c.newBlock
  let block ← blank.withPeriod e.first e.last
  let (_, c) ← c.add { block with issues := e.issues.map IssueElement.toIssue }
  return c

/-- Refuses a process without appearances, or with one outside every block. -/
def checkProcess (c : Course) (p : Process) : Except Error Unit :=
  if p.isEmpty then .error (.malformedCourse "a process must contain at least one issue")
  else match p.find? fun a => (c.blockOn? a.date).isNone with
    | some a =>
      .error (.malformedCourse s!"process issue on {a.date.iso} lies outside every block")
    | none => .ok ()

/-- What goes wrong with a block of a document is a fault of the document. -/
def asMalformed : Error → Error
  | .malformedCourse detail => .malformedCourse detail
  | other => .malformedCourse other.message

def ofDocument (d : CourseDocument) : Except Error Course := do
  let c ← (d.blocks.foldlM addElement Course.empty).mapError asMalformed
  if d.processes.isEmpty then return c
  d.processes.forM c.checkProcess
  return c.withImported d.processes

end Course

end PressCalendar
