/-
Edits: the requests to an editor.

A request answers or fails, and leaves an editor behind in both cases.  It is a row of
steps: what can fail is only asked, and what changes the editor cannot fail.  A failure
undoes nothing, so a request that is not to be left half done has to ask before it
changes anything.  The exception is a block that is refused after a number was drawn for
it: the number stays drawn.
-/
import PressCalendar.Editor.Basic

namespace PressCalendar

abbrev Edit := ExceptT Error (StateM Editor)

namespace Edit

variable {α : Type}

/-- A step that looks at the editor, and may fail. -/
def ask (f : Editor → Except Error α) : Edit α := fun e => (f e, e)

/-- A step that changes the editor. -/
def update (f : Editor → Editor) : Edit Unit := fun e => (.ok (), f e)

/-! ## Choosing a block -/

def selectBlock (id : Nat) : Edit (List Notice) := do
  let e ← get
  if (e.course.block? id).isNone then throw (.unknownBlock id)
  else if e.showing = some id then return []
  else
    update fun e => { e with showing := some id }
    update Editor.navigate
    return (← get).implausibilities

/-- Edit the block at a place of the course, counted from 1. -/
def selectNumber (number : Nat) : Edit (List Notice) := do
  let e ← get
  match number with
  | 0 => throw (.unknownBlock 0)
  | index + 1 =>
    match e.course.blocks[index]? with
    | some block => selectBlock block.id
    | none => throw (.unknownBlock number)

/-- Drop the block being edited if it was only begun: without issues and with one
date. -/
def neglect : Edit Unit := update fun e =>
  match e.showing with
  | none => e
  | some id =>
    match e.course.block? id with
    | none => e
    | some block =>
      if block.issues.isEmpty && !block.isComplete then
        match e.course.remove? id with
        | some (_, course) => { e with course, showing := none }
        | none => e
      else e

/-- Stop editing the current block; the next date begins a new one. -/
def startNewBlock : Edit Unit := do
  neglect
  update fun e => { e with showing := none }

/-! ## Dates -/

def readDate (input : String) (field : DateField) : Edit (Date × List Notice) := ask fun e => do
  let typed ← TypedDate.read e.today input
  return (typed.date, typed.hints.map (Notice.ofHint field))

/-- A blank block under a new number, which stays drawn whatever comes of the
block. -/
def drawBlock : Edit Block := do
  let (block, course) := (← get).course.newBlock
  update fun e => { e with course }
  return block

/-- Add a block, unless it was refused its dates, and edit it; answers its number. -/
def beginBlock (dated : Except Error Block) : Edit Nat := do
  let block ← ask fun _ => dated
  let (id, course) ← ask (·.course.add block)
  update fun e => { e with course, showing := some id }
  return id

def changeCourse (f : Course → Except Error Course) : Edit Unit := do
  let course ← ask (f ·.course)
  update fun e => { e with course }

/-- Take account of new dates, adding what is unlikely about them to the
notices. -/
def settleDates (notices : List Notice) : Edit (List Notice) := do
  let unlikely := (← get).implausibilities
  update Editor.navigate
  update Editor.touch
  return notices ++ unlikely

/-- Give dates to the block being edited, or begin a block with them. -/
def giveDates (dating : Block.Dating) (notices : List Notice) : Edit (List Notice) := do
  match (← get).showing with
  | none => do
    let blank ← drawBlock
    let _ ← beginBlock (dating.apply blank)
    settleDates notices
  | some id => do
    changeCourse (dating.ofCourse · id)
    settleDates notices

/-- Set one date, unless the block being edited has it already. -/
def setDate (field : DateField) (dateOf : Block → Option Date) (dating : Date → Block.Dating)
    (input : String) : Edit (List Notice) := do
  let (date, notices) ← readDate input field
  let e ← get
  if e.showingBlock?.bind dateOf = some date then return notices
  else giveDates (dating date) notices

/-- Set the first date of the block being edited, or begin a block with it. -/
def setFirst : String → Edit (List Notice) := setDate .firstAppearance Block.first .first

/-- Set the last date of the block being edited, or begin a block with it. -/
def setLast : String → Edit (List Notice) := setDate .lastAppearance Block.last .last

/-- Set both dates of the block being edited at once, or begin a block with
them. -/
def setPeriod (firstInput lastInput : String) : Edit (List Notice) := do
  let (first, firstNotices) ← readDate firstInput .firstAppearance
  let (last, lastNotices) ← readDate lastInput .lastAppearance
  giveDates (.period first last) (firstNotices ++ lastNotices)

/-! ## Blocks -/

def dayAfter (c : Course) : Except Error Date :=
  match c.last?.bind Date.next? with
  | some date => .ok date
  | none => .error (.invalidRange "the course has no end")

/-- Append a copy of the block being edited, one day long, and edit the copy. -/
def copyBlock : Edit Nat := do
  let (source, start) ← ask fun e => do
    let some source := e.showingBlock? | .error .noBlockSelected
    return (source, ← dayAfter e.course)
  let blank ← drawBlock
  let id ← beginBlock ({ blank with issues := source.issues }.withPeriod start start)
  update Editor.navigate
  update Editor.touch
  return id

def indexOf (c : Course) (id : Nat) : Except Error Nat :=
  match c.index? id with
  | some index => .ok index
  | none => .error (.unknownBlock id)

/-- Remove the block being edited and show the one in front of it. -/
def removeBlock : Edit Unit := do
  let id ← ask Editor.showingId
  let e ← get
  if e.course.blocks.length < 2 then
    update fun e => { e with course := e.course.clear }
    update fun e => { e with showing := none }
    update Editor.touch
  else
    let index ← ask (indexOf ·.course id)
    update fun e => { e with course := { e.course with blocks := e.course.blocks.eraseIdx index } }
    update fun e => { e with showing := e.course.blocks[index - 1]?.map Block.id }
    update Editor.navigate
    update Editor.touch

/-! ## Issues -/

/-- Put a block back after a change of its issues. -/
def replaceBlock (id : Nat) (block : Block) : Edit Unit := do
  update fun e => { e with course := e.course.modify id fun _ => block }
  update Editor.touch

def changeBlock (f : Block → Except Error (α × Block)) : Edit α := do
  let block ← ask Editor.showingBlock
  let (a, changed) ← ask fun _ => f block
  replaceBlock block.id changed
  return a

def issueAt (block : Block) (index : Nat) : Except Error Issue :=
  match block.issues[index]? with
  | some issue => .ok issue
  | none => .error (.unknownIssue index)

/-- Add an irregular issue to the block being edited; answers its index. -/
def addIssue (heading : String) : Edit Nat := changeBlock fun block =>
  .ok (block.issues.length, block.addIssue (.irregular heading))

def removeIssue (index : Nat) : Edit Issue := changeBlock fun block =>
  match block.removeIssue? index with
  | some answer => .ok answer
  | none => .error (.unknownIssue index)

def changeIssue (index : Nat) (f : Issue → Issue) : Edit Unit := changeBlock fun block => do
  let issue ← issueAt block index
  return ((), block.setIssue index (f issue))

def setHeading (index : Nat) (heading : String) : Edit Unit :=
  changeIssue index (·.rename heading)

def setRegular (index : Nat) (day : Weekday) (appears : Bool) : Edit Unit :=
  changeIssue index (·.setRegular day appears)

/-- An issue of any block, and that block, which has to cover a date. -/
def issueOn (id index : Nat) (date : Date) (e : Editor) : Except Error (Block × Issue) := do
  let some block := e.course.block? id | .error (.unknownBlock id)
  if !block.covers date then
    .error (.invalidRange s!"{date.display} is outside the block {block.label}")
  else
    return (block, ← issueAt block index)

def changeIssueOn (id index : Nat) (date : Date) (f : Issue → Issue) : Edit Unit := do
  let (block, issue) ← ask (issueOn id index date)
  replaceBlock id (block.setIssue index (f issue))

def selectIssue (id index : Nat) (date : Date) : Edit Unit :=
  changeIssueOn id index date (·.select date)

def unselectIssue (id index : Nat) (date : Date) : Edit Unit :=
  changeIssueOn id index date (·.unselect date)

/-- Turn round whether an issue appeared on a date; answers whether it now
did. -/
def toggleIssue (id index : Nat) (date : Date) : Edit Bool := do
  let (_, issue) ← ask (issueOn id index date)
  if issue.appearsOn date then
    unselectIssue id index date
    return false
  else
    selectIssue id index date
    return true

/-! ## The course as a whole -/

def setYear (year : Int) : Edit Unit := update fun e => { e with year }

def previousYear : Edit Unit := update fun e => { e with year := e.year - 1 }

def nextYear : Edit Unit := update fun e => { e with year := e.year + 1 }

def upload (xml : String) : Edit Unit := do
  let course ← ask fun _ => Course.ofXml xml
  update (·.load course)

def checkReady : Edit Unit := ask Editor.checkReady

def split (g : Granularity) : Edit (List Process) := do
  let course ← ask (·.course.split g)
  update fun e => { e with course }
  return course.processes

/-- Write a document from the course of the editor itself.  A course that is not split is
split by days meanwhile. -/
def downloadInPlace (write : Course → Except Error String) : Edit String := do
  checkReady
  let e ← get
  let unsplit := e.course.processes.isEmpty
  if unsplit then
    let _ ← split .days
  let written := write (← get).course
  if unsplit then
    update fun e => { e with course := e.course.clearProcesses }
  ask fun _ => written

/-- The document of the course.  A course that is not split goes out split by days, without
staying split. -/
def download : Edit String := downloadInPlace fun c => .ok c.toXml

end Edit

end PressCalendar
