/-
A block: a range of dates during which a newspaper appeared with the same set of
issues.

A block that is being entered may carry only one of its two dates.  It is then
incomplete and occupies that single day.  Two blocks are `alike` if they differ
at most in their number.
-/
import PressCalendar.Error
import PressCalendar.Issue

namespace PressCalendar

structure Block where
  id : Nat
  first : Option Date
  last : Option Date
  issues : List Issue
deriving DecidableEq

namespace Block

def blank (id : Nat) : Block := ⟨id, none, none, []⟩

/-- The days the block occupies, as its first and its last one. -/
def span? (b : Block) : Option (Date × Date) :=
  match b.first, b.last with
  | some first, some last => some (first, last)
  | some date, none => some (date, date)
  | none, some date => some (date, date)
  | none, none => none

def start? (b : Block) : Option Date := b.span?.map Prod.fst

def stop? (b : Block) : Option Date := b.span?.map Prod.snd

def isComplete (b : Block) : Bool := b.first.isSome && b.last.isSome

/-- Equality of dates and issues. -/
def alike (a b : Block) : Bool :=
  a.first == b.first && a.last == b.last && a.issues == b.issues

/-! ## Dates -/

def checkRange (first last : Date) : Except Error Unit :=
  if last < first then
    .error (.invalidRange
      s!"first appearance {first.display} is after last appearance {last.display}")
  else .ok ()

def withFirst (b : Block) (first : Date) : Except Error Block := do
  if let some last := b.last then checkRange first last
  return { b with first := some first }

def withLast (b : Block) (last : Date) : Except Error Block := do
  if let some first := b.first then checkRange first last
  return { b with last := some last }

/-- Both dates in one step, so that only the new range counts. -/
def withPeriod (b : Block) (first last : Date) : Except Error Block := do
  checkRange first last
  return { b with first := some first, last := some last }

/-- A change of the dates of a block. -/
inductive Dating where
  | first (date : Date)
  | last (date : Date)
  | period (start stop : Date)

def Dating.apply : Dating → Block → Except Error Block
  | first date, b => b.withFirst date
  | last date, b => b.withLast date
  | period start stop, b => b.withPeriod start stop

def covers (b : Block) (date : Date) : Bool :=
  match b.span? with
  | some (first, last) => first ≤ date && date ≤ last
  | none => false

def overlaps (b : Block) (first last : Date) : Bool :=
  match b.span? with
  | some (ownFirst, ownLast) => ownFirst ≤ last && first ≤ ownLast
  | none => false

def dates (b : Block) : List Date :=
  match b.first, b.last with
  | some first, some last => Date.closedRange first last
  | _, _ => []

/-- The dates with a dash between them, a missing one left out. -/
def label (b : Block) : String :=
  let text (date : Option Date) : String := (date.map Date.display).getD ""
  s!"{text b.first} – {text b.last}"

/-! ## Issues -/

def addIssue (b : Block) (issue : Issue) : Block := { b with issues := b.issues ++ [issue] }

def removeIssue? (b : Block) (index : Nat) : Option (Issue × Block) :=
  b.issues[index]?.map fun issue => (issue, { b with issues := b.issues.eraseIdx index })

def setIssue (b : Block) (index : Nat) (issue : Issue) : Block :=
  { b with issues := b.issues.set index issue }

end Block

end PressCalendar
