/-
Days of the week as they are typed: names in one line with commas between them.
-/
import PressCalendar.Text.Separated
import PressCalendar.Weekday

namespace PressCalendar

namespace Weekday

def refusal (name : String) : String :=
  s!"Invalid day of week: '{name}'. Use mon, tue, wed, thu, fri, sat or sun"

def read (name : String) : Except String Weekday :=
  match ofName? name with
  | some day => .ok day
  | none => .error (refusal name)

/-- The days of a list, in its order.  The word `none` stands for no day. -/
def readList (s : String) : Except String (List Weekday) :=
  if (Text.trim s.toList).map Char.toLower = "none".toList then .ok []
  else (Text.items ',' s).mapM read

end Weekday

end PressCalendar
