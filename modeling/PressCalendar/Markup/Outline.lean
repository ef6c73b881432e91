/-
Outlines: which elements are known, and what is known in them.

`Outline.restrict` takes from a tree what an outline does not know, so that what is
left can be read element by element.  An unknown element loses its content, and so
does an element that says it is nil where it may be.  An element that cannot be
entered is `broken`, as is content that cannot be passed over.

What is passed over is not looked into.  Only the first tags of it are entered, and
of its text only what comes first has to mean something.
-/
import PressCalendar.Markup.Content
import PressCalendar.Markup.Namespace

namespace PressCalendar
namespace Markup

inductive Outline where
  /-- An element by its local name, whether it may be nil, and what is known in
  it. -/
  | element (name : String) (mayBeNil : Bool) (inside : List Outline)

/-! ## Passing over -/

namespace Scope

/-- The scope once the tag at the head of some nodes has been looked at. -/
def ahead (s : Scope) (nodes : List Node) : Option Scope :=
  match nodes.dropWhile Node.isBlank with
  | .element _ attributes _ :: _ => s.enter attributes
  | _ => some s

/-- The scope behind an element of which some nodes are left.  An element of another
name at their head has been entered, and it is that one which is left at the end,
so the bindings of the element itself go on. -/
def skip (s : Scope) (name : List Char) (nodes : List Node) : Option Scope :=
  if (s.ahead nodes).isNone || !Node.allWhole nodes then none
  else match nodes.dropWhile Node.isBlank with
    | .element other _ _ :: _ => if other = name then some s.leave else some s
    | _ => some s.leave

/-- The scope behind an element that is passed over. -/
def pass (s : Scope) (name : List Char) (children : List Node) : Option Scope :=
  match children.dropWhile Node.isVoid with
  | .element first attributes inside :: rest => do
    let inner ← s.enter attributes
    (← inner.skip first inside).skip name rest
  | nodes =>
    if (nodes.takeWhile Node.isCharacters).all Node.resolves then
      s.skip name (nodes.dropWhile Node.isCharacters)
    else none

end Scope

namespace Outline

def find? (known : List Outline) (name : List Char) : Option (Bool × List Outline) :=
  match known with
  | [] => none
  | .element known mayBeNil inside :: others =>
    if known.toList = localName name then some (mayBeNil, inside) else find? others name

/-- An element without its content, which is broken if it cannot be passed over, and
the scope behind the element. -/
def passOver (name attributes : List Char) (s : Scope) (children : List Node) : Node × Scope :=
  match s.pass name children with
  | some s => (.element name attributes [], s)
  | none => (.element name attributes [.broken], s)

mutual

/-- Take from a node what is not known, in the scope behind the nodes before it.
The element around it has the attributes `around`. -/
def restrict (known : List Outline) (around : List Char) (s : Scope) : Node → Node × Scope
  | .element name attributes children =>
    match s.enter attributes with
    | none => (.broken, s)
    | some inner =>
      match find? known name with
      | none => passOver name attributes inner children
      | some (mayBeNil, inside) =>
        let seen := (inner.ahead children).getD inner
        if mayBeNil && (seen.isNil around || seen.isNil attributes) then
          passOver name [] inner children
        else
          let (children, inner) := restrictAll inside attributes inner children
          (.element name attributes children, inner.leave)
  | node => (node, s)

def restrictAll (known : List Outline) (around : List Char) (s : Scope) :
    List Node → List Node × Scope
  | [] => ([], s)
  | node :: nodes =>
    let (node, s) := restrict known around s node
    let (nodes, s) := restrictAll known around s nodes
    (node :: nodes, s)

end

end Outline

end Markup
end PressCalendar
