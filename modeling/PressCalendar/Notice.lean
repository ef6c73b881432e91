/-
Notices: what an editor points out about a change without refusing it.

Some notices say how a typed date was understood, the others that a block has
unlikely dates.
-/
import PressCalendar.Date.Typed

namespace PressCalendar

/-- What a typed date was meant for. -/
inductive DateField where
  | firstAppearance | lastAppearance | issueDate
deriving DecidableEq, Repr

def DateField.text : DateField → String
  | firstAppearance => "first appearance"
  | lastAppearance => "last appearance"
  | issueDate => "issue date"

inductive Notice where
  | yearCompleted (field : DateField) (given : String) (completed : Int)
  | dayMonthSwapped (field : DateField)
  | longBlock
  | firstEarly
  | firstFuture
  | lastEarly
  | lastFuture
deriving DecidableEq, Repr

namespace Notice

def longBlockYears : Nat := 100

def ofHint (field : DateField) : DateHint → Notice
  | .yearCompleted given completed => yearCompleted field given completed
  | .dayMonthSwapped => dayMonthSwapped field

def text : Notice → String
  | yearCompleted field given completed =>
    s!"Year '{given}' of the {field.text} read as {completed}"
  | dayMonthSwapped field => s!"Day and month of the {field.text} were swapped"
  | longBlock => s!"The block spans more than {longBlockYears} years"
  | firstEarly => "The first appearance is before the first known newspaper"
  | firstFuture => "The first appearance is in the future"
  | lastEarly => "The last appearance is before the first known newspaper"
  | lastFuture => "The last appearance is in the future"

end Notice

end PressCalendar
