/-
Namespaces: what the label in front of the colon of a name stands for.

A tag binds labels with attributes that begin with `xmlns:`, and a binding holds
for the element of the tag.  Two labels and two namespaces are bound for good, and
a tag that binds them otherwise cannot be entered.  Only one attribute is looked
up by its namespace, the one by which an element says that it is `nil`.
-/
import PressCalendar.Markup.Attribute

namespace PressCalendar
namespace Markup

namespace Namespace

/-- A namespace of the standards, by its path. -/
def standard (path : String) : List Char := "http:".toList ++ "//www.w3.org/".toList ++ path.toList

def xml : List Char := standard "XML/1998/namespace"

def declarations : List Char := standard "2000/xmlns/"

def instances : List Char := standard "2001/XMLSchema-instance"

end Namespace

structure Binding where
  label : List Char
  /-- The name of the namespace, which is empty if the label stands for none. -/
  target : List Char
  depth : Nat
deriving DecidableEq, Repr

namespace Binding

/-- Whether a label may be bound to a namespace. -/
def isAllowed (label target : List Char) : Bool :=
  if label = "xml".toList then target = Namespace.xml
  else label ≠ "xmlns".toList && target ≠ Namespace.xml && target ≠ Namespace.declarations

end Binding

/-- The bindings that hold at some depth, latest first. -/
structure Scope where
  depth : Nat
  bindings : List Binding
deriving DecidableEq, Repr

namespace Scope

def empty : Scope := ⟨0, []⟩

def boundLabel? (a : Attribute) : Option (List Char) :=
  if "xmlns:".toList.isPrefixOf a.name then some (a.name.drop 6) else none

def bind (s : Scope) (a : Attribute) : Option Scope :=
  match boundLabel? a with
  | none => some s
  | some label =>
    if Binding.isAllowed label a.value then
      some { s with bindings := ⟨label, a.value, s.depth⟩ :: s.bindings }
    else none

/-- The scope in the element of a tag.  What stands behind the first attribute that
is not well formed does not count. -/
def enter (s : Scope) (attributes : List Char) : Option Scope :=
  (Attribute.sound (Attribute.scan false [] attributes)).foldlM bind
    { s with depth := s.depth + 1 }

def leave (s : Scope) : Scope :=
  ⟨s.depth - 1, s.bindings.filter (·.depth ≤ s.depth - 1)⟩

def target? (s : Scope) (label : List Char) : Option (List Char) :=
  if label.isEmpty then none else (s.bindings.find? (·.label = label)).map (·.target)

def isNilMark (s : Scope) (a : Attribute) : Bool :=
  let label := a.name.takeWhile (· ≠ ':')
  a.name.drop label.length = ":nil".toList && s.target? label = some Namespace.instances &&
    (a.value = "true".toList || a.value = "1".toList)

/-- Whether a tag says that its element is nil, whatever else is wrong with it. -/
def isNil (s : Scope) (attributes : List Char) : Bool :=
  ((Attribute.scan true [] attributes).filterMap id).any s.isNilMark

end Scope

end Markup
end PressCalendar
