/-
Commands: what a user can ask of a workspace in one line.
-/
import PressCalendar.Command.Change

namespace PressCalendar

inductive Command where
  /-- Make a directory a workspace. -/
  | start (path : String)
  | listSettings
  | showSetting (key : String)
  | changeSetting (key value : String)
  /-- Tell how settings are asked for. -/
  | explainSettings
  | listBlocks
  | change (c : Change)
  | showSheet (year : Option Int) (block : Option Nat)
  | count
  | split (granularity : Option String)
  | importFrom (file : String)
  | exportTo (file : String)
deriving DecidableEq, Repr

end PressCalendar
