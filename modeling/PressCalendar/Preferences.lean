/-
What an editor has to know about the taste of its user.

The colours tell the issues of a block apart.  They are handed out in turn, so a
palette of any length will do as long as it has one colour that can be seen.
-/
import PressCalendar.Error

namespace PressCalendar

structure Preferences where
  colours : List String
  /-- Dates before this one are implausible. -/
  earliest : Date
deriving DecidableEq

namespace Preferences

def defaultColours : List String :=
  ["#CC0000", "#0000AA", "#33FF00", "#FF9900", "#5555FF", "#006600", "#AAAAFF", "#000055",
   "#0000FF", "#FFFF00", "#000000"]

def firstNewspaper : Date := ⟨1605, 9, 12, by decide⟩

def standard : Preferences := ⟨defaultColours, firstNewspaper⟩

/-- Colours written in one line with semicolons between them. -/
def coloursOf (s : String) : List String := Text.items ';' s

def checkColours (colours : List String) : Except Error Unit :=
  if colours.all fun colour => (Text.trim colour.toList).isEmpty then
    .error (.configuration "issue_colours must contain at least one colour")
  else .ok ()

def colour (p : Preferences) (index : Nat) : String :=
  (p.colours[index % p.colours.length]?).getD ""

end Preferences

end PressCalendar
