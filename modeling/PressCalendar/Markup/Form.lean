/-
Forms: which attributes and children of an element are known, and what they mean
for the thing being read.

Whatever a form does not know is ignored.  A child whose name is that of an
attribute with an `@` in front stands for the attribute.  The children of a list
stand next to each other: another element between two of them, or text behind one,
is a fault.  Faults are met in the order of the text, and an element is complete
only when its last child has been read.

A form has an outline.  What it reads are trees that have been restricted to that.
-/
import PressCalendar.Markup.Outline

namespace PressCalendar
namespace Markup

inductive Fault where
  /-- The text is no markup here, or a value has no meaning. -/
  | unreadable
  | missing (field : String)
  | duplicate (field : String)
deriving DecidableEq, Repr

namespace Fault

def message : Fault → String
  | unreadable => "the text cannot be read"
  | missing field => s!"missing field \x60{field}\x60"
  | duplicate field => s!"duplicate field \x60{field}\x60"

end Fault

/-- A known attribute: whether it has been read, and what its value adds to what
was read. -/
structure AttributeField (σ : Type) where
  name : String
  /-- Whether references in the attribute mean nothing. -/
  isLiteral : Bool
  isRead : σ → Bool
  read? : σ → List Char → Option σ

/-- A known child element.  A child that is not of a list may be nil, and is then
read as if it were empty. -/
structure ChildField (σ : Type) where
  name : String
  isList : Bool
  inside : List Outline
  isRead : σ → Bool
  read : σ → (attributes : List Char) → (children : List Node) → Except Fault σ

structure Form (σ : Type) where
  attributes : List (AttributeField σ)
  children : List (ChildField σ)

variable {σ : Type}

namespace AttributeField

/-- How an attribute is named in messages, and by an element in its place. -/
def label (field : AttributeField σ) : String := "@" ++ field.name

/-- The value of an attribute as it is written, read as it is meant. -/
def meaning? (field : AttributeField σ) (raw : List Char) : Option (List Char) :=
  if field.isLiteral then some raw else Reference.resolve raw

/-- Add the value of an attribute, if there is a meaning to it. -/
def add (field : AttributeField σ) (s : σ) (value? : Option (List Char)) : Except Fault σ :=
  if field.isRead s then .error (.duplicate field.label)
  else match value?.bind (field.read? s) with
    | some s => .ok s
    | none => .error .unreadable

end AttributeField

namespace Form

def outline (form : Form σ) : List Outline :=
  form.attributes.map (fun field => .element field.label false []) ++
    form.children.map (fun field => .element field.name (!field.isList) field.inside)

def readAttributes (form : Form σ) : σ → List Attribute → Except Fault σ
  | s, [] => .ok s
  | s, a :: as =>
    match form.attributes.find? (·.name.toList == a.key) with
    | none => readAttributes form s as
    | some field => do readAttributes form (← field.add s (field.meaning? a.value)) as

/-- Read children.  `list` is the list that the last child belongs to, with the
name that its elements have in full. -/
def readChildren (form : Form σ) :
    (list : Option (ChildField σ × List Char)) → σ → List Node → Except Fault σ
  | _, s, [] => .ok s
  | _, _, .broken :: _ => .error .unreadable
  | list, s, .doctype _ :: nodes => readChildren form list s nodes
  | list, s, .text raw :: nodes =>
    if raw.all isSpace then readChildren form list s nodes
    else if list.isSome || (Reference.resolve raw).isNone then .error .unreadable
    else readChildren form list s nodes
  | list, s, .cdata _ :: nodes =>
    if list.isSome then .error .unreadable else readChildren form list s nodes
  | list, s, .element name attributes children :: nodes =>
    match list.filter (·.2 == name) with
    | some (field, _) => do
      let s ← field.read s attributes children
      readChildren form list s nodes
    | none =>
      match form.children.find? (·.name.toList == localName name) with
      | some field =>
        if field.isRead s then .error (.duplicate field.name)
        else do
          let s ← field.read s attributes children
          readChildren form (if field.isList then some (field, name) else none) s nodes
      | none =>
        match form.attributes.find? (·.label.toList == localName name) with
        | some field => do
          let s ← field.add s (Node.content? children)
          readChildren form none s nodes
        | none =>
          if Node.allWhole children then readChildren form none s nodes else .error .unreadable

def read (form : Form σ) (s : σ) (attributes : List Char) (children : List Node) :
    Except Fault σ := do
  let (as, sound) := Attribute.readAll attributes
  let s ← form.readAttributes s as
  if sound then form.readChildren none s children else .error .unreadable

end Form

end Markup
end PressCalendar
