/-
The settings of a workspace.

They are kept as a TOML text of four entries.  All but the moment of creation have
a value that counts where the text has none, and entries under other keys do not
matter.  `set` changes one entry by a text that the user gave for it, and `get`
shows an entry as such a text.
-/
import PressCalendar.Granularity
import PressCalendar.Moment
import PressCalendar.Preferences
import PressCalendar.Toml.Reader
import PressCalendar.Toml.Writer

namespace PressCalendar

structure Settings extends Preferences where
  granularity : Granularity
  created : Moment
deriving DecidableEq

namespace Settings

def standard (created : Moment) : Settings :=
  { Preferences.standard with granularity := .days, created }

/-! ## As text -/

inductive Key where
  | granularity | colours | earliest | created
deriving DecidableEq, Repr

namespace Key

/-- In the order in which they are listed. -/
def all : List Key := [granularity, colours, earliest, created]

def name : Key → String
  | granularity => "granularity"
  | colours => "issue_colours"
  | earliest => "earliest_plausible"
  | created => "created"

def ofName? (s : String) : Option Key := all.find? (·.name == s)

/-- In the order in which they are written. -/
def written : List Key := [colours, earliest, granularity, created]

end Key

def content (s : Settings) : Key → Toml.Content
  | .granularity => .text s.granularity.name
  | .colours => .texts s.colours
  | .earliest => .text s.earliest.iso
  | .created => .text s.created.stored

def entries (s : Settings) : List (String × Toml.Content) :=
  Key.written.map fun key => (key.name, s.content key)

def text (s : Settings) : String := Toml.write s.entries

/-- The granularity of an exact name, which may stand as the only key of a
table. -/
def granularityOf? : Toml.Value → Option Granularity
  | .text name => Granularity.all.find? (·.name == name)
  | .table _ [(name, .list _ [])] => Granularity.all.find? (·.name == name)
  | .table _ [(name, .table _ [])] => Granularity.all.find? (·.name == name)
  | _ => none

def field? {α : Type} (es : Toml.Entries) (key : Key) (read? : Toml.Value → Option α) (other : α) :
    Option α :=
  match es.lookup key.name with
  | some v => read? v
  | none => some other

def ofEntries? (es : Toml.Entries) : Option Settings := do
  let colours ← field? es .colours Toml.Value.texts? Preferences.standard.colours
  let earliest ← field? es .earliest (fun v => v.text?.bind Date.ofIso?)
    Preferences.standard.earliest
  let granularity ← field? es .granularity granularityOf? .days
  let created ← (es.lookup Key.created.name).bind Toml.Value.text?
  let created ← Moment.ofText? created
  return { colours, earliest, granularity, created }

def read (text : String) : Except Error Settings := do
  match (Toml.read? text).bind ofEntries? with
  | none => .error (.unreadableSettings "a value is missing or has no meaning")
  | some s => do
    Preferences.checkColours s.colours
    return s

/-! ## One entry at a time -/

def unknownKey (name : String) (keys : List Key) : Error :=
  let names := Text.join ", " (keys.map Key.name)
  .configuration s!"Unknown config key: '{name}'. Valid keys are: {names}"

def display (s : Settings) : Key → String
  | .granularity => s.granularity.name
  | .colours => Text.join ";" s.colours
  | .earliest => s.earliest.iso
  | .created => s.created.shown

def get (s : Settings) (name : String) : Except Error String :=
  match Key.ofName? name with
  | some key => .ok (s.display key)
  | none => .error (unknownKey name Key.all)

def listing (s : Settings) : List (String × String) :=
  Key.all.map fun key => (key.name, s.display key)

def set (s : Settings) (name value : String) : Except Error Settings :=
  match Key.ofName? name with
  | some .granularity =>
    match Granularity.ofText? value with
    | some granularity => .ok { s with granularity }
    | none => .error (.configuration (Granularity.refusal value))
  | some .colours => do
    let colours := Preferences.coloursOf value
    Preferences.checkColours colours
    return { s with colours }
  | some .earliest =>
    match Date.ofIso? value with
    | some earliest => .ok { s with earliest }
    | none => .error (.configuration
        s!"Invalid date for earliest_plausible: '{value}'. Use YYYY-MM-DD")
  | some .created => .error (.configuration "Cannot modify 'created' field (read-only)")
  | none => .error (unknownKey name [.granularity, .colours, .earliest])

end Settings

end PressCalendar
