/-
The course of appearance of a newspaper: blocks in chronological order that
never share a day.

The course numbers its blocks.  It checks every new or changed range of dates
against all its other blocks before anything changes, so an operation that fails
leaves no trace.  It also carries the processes of its last split and, if it was
read from a document that had processes, those.
-/
import PressCalendar.Bisect
import PressCalendar.Granularity

namespace PressCalendar

structure Course where
  blocks : List Block
  /-- The highest number that a block of the course was given. -/
  lastId : Nat
  /-- The processes of the last split, none if there was no split. -/
  processes : List Process
  imported : Option (List Process)
deriving DecidableEq

namespace Course

def empty : Course := ⟨[], 0, [], none⟩

/-- Equality of the blocks, their numbers aside. -/
def alike (a b : Course) : Bool := a.blocks.isEqv b.blocks Block.alike

/-! ## Finding blocks -/

def index? (c : Course) (id : Nat) : Option Nat := c.blocks.findIdx? (·.id == id)

def block? (c : Course) (id : Nat) : Option Block := c.blocks.find? (·.id == id)

def beginsBy (date : Date) (b : Block) : Bool :=
  match b.start? with
  | some start => start ≤ date
  | none => false

/-- The block covering a date.  Only the last block that begins by then can. -/
def blockOn? (c : Course) (date : Date) : Option Block :=
  match bisect (beginsBy date) c.blocks with
  | 0 => none
  | n + 1 => c.blocks[n]?.filter (·.covers date)

def first? (c : Course) : Option Date := (c.blocks.filterMap Block.start?).min?

def last? (c : Course) : Option Date := (c.blocks.filterMap Block.stop?).max?

/-! ## Changing blocks -/

/-- A blank block with a number of its own.  It is not part of the course yet. -/
def newBlock (c : Course) : Block × Course :=
  (Block.blank (c.lastId + 1), { c with lastId := c.lastId + 1 })

/-- A block with a number of its own and the issues of another block. -/
def copyOf (c : Course) (b : Block) : Block × Course :=
  let (copy, c) := c.newBlock
  ({ copy with issues := b.issues }, c)

def checkOverlap (others : List Block) (first last : Date) : Except Error Unit :=
  match others.find? (·.overlaps first last) with
  | some other => .error (.overlap first last other.label)
  | none => .ok ()

/-- Whether a block begins before another; one without dates comes first. -/
def beginsBefore (b other : Block) : Bool :=
  match other.start?, b.start? with
  | some x, some y => x < y
  | none, some _ => true
  | _, none => false

/-- Put a block in front of the first one that does not begin before it. -/
def insertSorted (b : Block) (blocks : List Block) : List Block :=
  blocks.insertIdx (bisect (beginsBefore b) blocks) b

/-- Add a block.  A number that the course already uses is replaced. -/
def add (c : Course) (b : Block) : Except Error (Nat × Course) :=
  match b.span? with
  | none => .error (.invalidRange "a block needs at least one date")
  | some (first, last) => do
    checkOverlap c.blocks first last
    let (id, lastId) :=
      if (c.index? b.id).isSome then (c.lastId + 1, c.lastId + 1) else (b.id, max c.lastId b.id)
    return (id, { c with blocks := insertSorted { b with id } c.blocks, lastId })

def remove? (c : Course) (id : Nat) : Option (Block × Course) := do
  let index ← c.index? id
  let block ← c.blocks[index]?
  return (block, { c with blocks := c.blocks.eraseIdx index })

/-- Drop everything but the count of numbers given. -/
def clear (c : Course) : Course := { c with blocks := [], processes := [], imported := none }

def modify (c : Course) (id : Nat) (change : Block → Block) : Course :=
  match c.index? id with
  | some index => { c with blocks := c.blocks.modify index change }
  | none => c

/-- Change the dates of a block.  The block is taken out and put back, since its
place may be another one. -/
def changePeriod (c : Course) (id : Nat) (change : Block → Except Error Block) :
    Except Error Course :=
  match c.index? id with
  | none => .error (.unknownBlock id)
  | some index =>
    match c.blocks[index]? with
    | none => .error (.unknownBlock id)
    | some block => do
      let changed ← change block
      let others := c.blocks.eraseIdx index
      if let some (first, last) := changed.span? then checkOverlap others first last
      return { c with blocks := insertSorted changed others }

def setFirst (c : Course) (id : Nat) (first : Date) : Except Error Course :=
  c.changePeriod id (·.withFirst first)

def setLast (c : Course) (id : Nat) (last : Date) : Except Error Course :=
  c.changePeriod id (·.withLast last)

def setPeriod (c : Course) (id : Nat) (first last : Date) : Except Error Course :=
  c.changePeriod id (·.withPeriod first last)

end Course

/-- The same change for a block that is part of a course. -/
def Block.Dating.ofCourse : Dating → Course → Nat → Except Error Course
  | first date, c, id => c.setFirst id date
  | last date, c, id => c.setLast id date
  | period start stop, c, id => c.setPeriod id start stop

namespace Course

/-! ## Appearances and processes -/

/-- Everything that appeared, in chronological order.  Incomplete blocks count
for nothing. -/
def appearances (c : Course) : List Appearance := c.blocks.flatMap Block.appearances

def countAppearances (c : Course) : Nat :=
  (c.blocks.map Block.countAppearances).foldr (· + ·) 0

def partition (c : Course) (g : Granularity) : Except Error (List Process) :=
  match c.appearances with
  | [] => .error .emptyCourse
  | appearances =>
    if g = .asImported then
      match c.imported with
      | some processes => .ok processes
      | none => .error (.granularityUnavailable "the course carries no imported process boundaries")
    else .ok (g.group appearances)

def split (c : Course) (g : Granularity) : Except Error Course := do
  let processes ← c.partition g
  return { c with processes }

def clearProcesses (c : Course) : Course := { c with processes := [] }

def forgetImported (c : Course) : Course := { c with imported := none }

/-- The processes of a document become both the current and the imported ones. -/
def withImported (c : Course) (processes : List Process) : Course :=
  { c with processes, imported := some processes }

end Course

end PressCalendar
