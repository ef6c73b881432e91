/-
Reading a course document.

Every kind of element has its form.  The root element may have any name.
-/
import PressCalendar.CourseDocument.Basic
import PressCalendar.Markup.Form

namespace PressCalendar

open Markup

namespace CourseDocument

/-! ## Values -/

def flag? (value : List Char) : Option Bool :=
  if value = "true".toList ∨ value = "1".toList then some true
  else if value = "false".toList ∨ value = "0".toList then some false
  else none

/-! ## Fields -/

section Fields

variable {σ : Type}

def dateField (name : String) (get : σ → Option Date) (set : σ → Date → σ) :
    AttributeField σ where
  name := name
  isLiteral := false
  isRead s := (get s).isSome
  read? s value := (Date.ofIsoText? value).map (set s)

def headingField (get : σ → Option String) (set : σ → String → σ) : AttributeField σ where
  name := "heading"
  isLiteral := false
  isRead s := (get s).isSome
  read? s value := some (set s (String.ofList value))

/-- An attribute with a truth value, in which references mean nothing. -/
def flagField (name : String) (get : σ → Option Bool) (set : σ → Bool → σ) :
    AttributeField σ where
  name := name
  isLiteral := true
  isRead s := (get s).isSome
  read? s value := (flag? value).map (set s)

/-- Children in a list, which are read one by one and put behind each other. -/
def listField {α : Type} (name : String) (inside : List Outline) (get : σ → List α)
    (set : σ → List α → σ) (read : List Char → List Node → Except Fault α) : ChildField σ where
  name := name
  isList := true
  inside := inside
  isRead s := !(get s).isEmpty
  read s attributes children := do return set s (get s ++ [← read attributes children])

def require {α : Type} (field : AttributeField σ) : Option α → Except Fault α
  | some a => .ok a
  | none => .error (.missing field.label)

end Fields

/-! ## Dates -/

def dateOnly : AttributeField (Option Date) := dateField "date" id fun _ date => some date

def dateForm : Form (Option Date) := ⟨[dateOnly], []⟩

def readDate (attributes : List Char) (children : List Node) : Except Fault Date := do
  require dateOnly (← dateForm.read none attributes children)

/-! ## Issues of a block -/

structure IssueDraft where
  heading : Option String
  flags : List (Weekday × Bool)
  additions : List Date
  exclusions : List Date

namespace IssueDraft

def blank : IssueDraft := ⟨none, [], [], []⟩

def dayField (day : Weekday) : AttributeField IssueDraft :=
  flagField day.long (·.flags.lookup day) fun d flag => { d with flags := (day, flag) :: d.flags }

def form : Form IssueDraft where
  attributes :=
    headingField heading (fun d heading => { d with heading := some heading }) ::
    Weekday.all.map dayField
  children :=
    [listField "addition" dateForm.outline additions
        (fun d dates => { d with additions := dates }) readDate,
     listField "exclusion" dateForm.outline exclusions
        (fun d dates => { d with exclusions := dates }) readDate]

/-- The issue has no heading unless one is given, but says of every day of the
week whether it appears. -/
def finish (d : IssueDraft) : Except Fault IssueElement := do
  let pattern ← Weekday.all.foldlM (fun pattern day => do
    let flag ← require (dayField day) (d.flags.lookup day)
    return pattern.set day flag) WeekPattern.never
  return ⟨d.heading.getD "", pattern, d.additions, d.exclusions⟩

end IssueDraft

def readIssue (attributes : List Char) (children : List Node) : Except Fault IssueElement := do
  let draft ← IssueDraft.form.read .blank attributes children
  draft.finish

/-! ## Blocks -/

structure BlockDraft where
  first : Option Date
  last : Option Date
  issues : List IssueElement

namespace BlockDraft

def blank : BlockDraft := ⟨none, none, []⟩

def firstField : AttributeField BlockDraft :=
  dateField "first" first fun d date => { d with first := some date }

def lastField : AttributeField BlockDraft :=
  dateField "last" last fun d date => { d with last := some date }

def form : Form BlockDraft where
  attributes := [firstField, lastField]
  children :=
    [listField "issue" IssueDraft.form.outline issues
        (fun d issues => { d with issues := issues }) readIssue]

def finish (d : BlockDraft) : Except Fault BlockElement := do
  let first ← require firstField d.first
  let last ← require lastField d.last
  return ⟨first, last, d.issues⟩

end BlockDraft

def readBlock (attributes : List Char) (children : List Node) : Except Fault BlockElement := do
  let draft ← BlockDraft.form.read .blank attributes children
  draft.finish

/-! ## Processes -/

structure AppearanceDraft where
  heading : Option String
  date : Option Date

namespace AppearanceDraft

def blank : AppearanceDraft := ⟨none, none⟩

def whenField : AttributeField AppearanceDraft :=
  dateField "date" date fun d date => { d with date := some date }

def form : Form AppearanceDraft where
  attributes :=
    [headingField heading fun d heading => { d with heading := some heading }, whenField]
  children := []

def finish (d : AppearanceDraft) : Except Fault Appearance := do
  let date ← require whenField d.date
  return ⟨date, d.heading.getD ""⟩

end AppearanceDraft

def readAppearance (attributes : List Char) (children : List Node) : Except Fault Appearance := do
  let draft ← AppearanceDraft.form.read .blank attributes children
  draft.finish

def processForm : Form Process where
  attributes := []
  children :=
    [listField "issue" AppearanceDraft.form.outline id (fun _ appearances => appearances)
        readAppearance]

def processesForm : Form (List Process) where
  attributes := []
  children :=
    [listField "process" processForm.outline id (fun _ processes => processes)
        (processForm.read [])]

/-! ## Documents -/

structure Draft where
  blocks : List BlockElement
  processes : Option (List Process)

namespace Draft

def blank : Draft := ⟨[], none⟩

/-- The processes stand by themselves; to be empty or nil is the same for them. -/
def processesField : ChildField Draft where
  name := "processes"
  isList := false
  inside := processesForm.outline
  isRead d := d.processes.isSome
  read d attributes children := do
    let processes ← processesForm.read [] attributes children
    return { d with processes := some processes }

def form : Form Draft where
  attributes := []
  children :=
    [listField "block" BlockDraft.form.outline blocks (fun d blocks => { d with blocks := blocks })
        readBlock,
     processesField]

def finish (d : Draft) : CourseDocument := ⟨d.blocks, d.processes.getD []⟩

end Draft

def ofRoot (attributes : List Char) (children : List Node) : Except Fault CourseDocument :=
  match Scope.empty.enter attributes with
  | none => .error .unreadable
  | some s => do
    let (children, _) := Outline.restrictAll Draft.form.outline attributes s children
    let draft ← Draft.form.read .blank attributes children
    return draft.finish

/-- The document of the first element.  What follows that element is not
read. -/
def ofNodes : List Node → Except Fault CourseDocument
  | .text raw :: nodes => if raw.all isSpace then ofNodes nodes else .error .unreadable
  | .doctype _ :: nodes => ofNodes nodes
  | .element _ attributes children :: _ => ofRoot attributes children
  | _ => .error .unreadable

def read (text : String) : Except Fault CourseDocument := ofNodes (Node.ofText text.toList)

end CourseDocument

/-- Read a course from the text of its document.  Either the whole document is
accepted or nothing of it. -/
def Course.ofXml (text : String) : Except Error Course :=
  match CourseDocument.read text with
  | .ok document => Course.ofDocument document
  | .error fault => .error (.malformedCourse fault.message)

end PressCalendar
