/-
An issue: a named edition with a weekly pattern and two kinds of exceptions.

An addition is a day on which the issue appeared beside its pattern, an exclusion
a day on which it did not appear although the pattern has it.  A date is never
both, because marking it as one unmarks it as the other; later changes of the
pattern leave the exceptions alone.
-/
import PressCalendar.Date.Set

namespace PressCalendar

structure Issue where
  heading : String
  pattern : WeekPattern
  additions : DateSet
  exclusions : DateSet
deriving DecidableEq

namespace Issue

def irregular (heading : String) : Issue :=
  ⟨heading, .never, .empty, .empty⟩

def weekly (heading : String) (days : List Weekday) : Issue :=
  ⟨heading, .ofList days, .empty, .empty⟩

def rename (issue : Issue) (heading : String) : Issue := { issue with heading }

def isRegularOn (issue : Issue) (day : Weekday) : Bool := issue.pattern.has day

def setRegular (issue : Issue) (day : Weekday) (appears : Bool) : Issue :=
  { issue with pattern := issue.pattern.set day appears }

def addAddition (issue : Issue) (date : Date) : Issue :=
  { issue with
    additions := issue.additions.insert date
    exclusions := issue.exclusions.erase date }

def removeAddition (issue : Issue) (date : Date) : Issue :=
  { issue with additions := issue.additions.erase date }

def addExclusion (issue : Issue) (date : Date) : Issue :=
  { issue with
    additions := issue.additions.erase date
    exclusions := issue.exclusions.insert date }

def removeExclusion (issue : Issue) (date : Date) : Issue :=
  { issue with exclusions := issue.exclusions.erase date }

/-- Whether the issue appeared on a date, going by its pattern and exceptions
alone. -/
def appearsOn (issue : Issue) (date : Date) : Bool :=
  (issue.isRegularOn date.weekday && !issue.exclusions.contains date) ||
    issue.additions.contains date

/-- Mark the issue as appeared: on a regular day it is enough to drop the
exclusion. -/
def select (issue : Issue) (date : Date) : Issue :=
  if issue.isRegularOn date.weekday then issue.removeExclusion date
  else issue.addAddition date

def unselect (issue : Issue) (date : Date) : Issue :=
  if issue.isRegularOn date.weekday then issue.addExclusion date
  else issue.removeAddition date

end Issue

end PressCalendar
