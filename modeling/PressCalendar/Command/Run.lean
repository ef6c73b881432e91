/-
Commands carried out.

`run` answers what a command prints, or why it failed.  A command that stores
something does so after everything that can be wrong with it was looked at, and it
prints nothing before it is done.  `Reply.ofWords` is a whole run of the program.
-/
import PressCalendar.Command.Reader
import PressCalendar.Report
import PressCalendar.Workspace

namespace PressCalendar

/-- What a run is given besides its words. -/
structure Session where
  /-- The directory chosen as workspace, in place of the one around the current
  directory. -/
  chosen : Option String
  today : Date
  now : Moment
  /-- What keeps the drafts of this run apart from those of others. -/
  tag : String
deriving DecidableEq

namespace Command

/-! ## What is printed -/

def outcomeText (outcome : Change.Outcome) : String :=
  s!"{Report.noticeList outcome.notices}{outcome.deed.text}\n"

/-- The sheet of a year, and the issues of the block being edited. -/
def sheetText (e : Editor) : String :=
  Report.yearSheet (e.sheet e.year) ++
    match e.showingBlock? with
    | some block =>
      let issues := Text.trimmedEnd (Report.issueList e.issueViews)
      s!"\nIssues of {block.label}:\n{issues}\n"
    | none => ""

/-- The editor on whose year and block a sheet is wanted. -/
def turnTo (year : Option Int) (block : Option Nat) (e : Editor) : Except Error Editor :=
  let edit : Edit Unit := do
    if let some number := block then
      let _ ← Edit.selectNumber number
    if let some year := year then
      Edit.setYear year
  match edit.run e with
  | (.ok (), turned) => .ok turned
  | (.error cause, _) => .error cause

def settingsText (listing : List (String × String)) : String :=
  String.join (listing.map fun (key, value) => s!"{key} = {value}\n")

def explanation : String :=
  "Usage: periodical config [--list | <key> [<value>]]\n" ++
  "Valid keys: granularity, issue_colours, earliest_plausible, created\n"

def readGranularity : Option String → Except Error (Option Granularity)
  | some name =>
    match Granularity.ofText? name with
    | some g => .ok (some g)
    | none => .error (.configuration (Granularity.refusal name))
  | none => .ok none

/-! ## Running -/

variable {m : Type → Type} [Monad m] [Files m]

open Workspace (discover request step)

def run (s : Session) : Command → ExceptT Error m String
  | start path => do
    let settings ← Workspace.start path s.now s.tag
    let granularity := settings.granularity.name
    return s!"Initialized periodical workspace at {path}\nGranularity: {granularity}\n"
  | listSettings => do
    let settings ← (← discover s.chosen).loadSettings
    return settingsText settings.listing
  | showSetting key => do
    let settings ← (← discover s.chosen).loadSettings
    let value ← step (settings.get key)
    return s!"{value}\n"
  | changeSetting key value => do
    (← discover s.chosen).changeSetting key value
    return s!"Set {key} = {value}\n"
  | explainSettings => do
    let _ ← discover s.chosen
    return explanation
  | listBlocks => do
    let e ← (← discover s.chosen).openEditor s.today
    let blocks := Text.trimmedEnd (Report.blockList e.course)
    return s!"{blocks}\n"
  | change c => do
    let w ← discover s.chosen
    let edit ← step c.edit
    return outcomeText (← w.edit s.today s.tag edit)
  | showSheet year block => do
    let e ← (← discover s.chosen).openEditor s.today
    return sheetText (← step (turnTo year block e))
  | count => do
    let e ← (← discover s.chosen).openEditor s.today
    return s!"{e.course.countAppearances}\n"
  | split granularity => do
    let granularity ← step (readGranularity granularity)
    return Report.processList (← (← discover s.chosen).split s.today s.tag granularity)
  | importFrom file => do
    let xml ← request (Files.read file)
    let number ← (← discover s.chosen).edit s.today s.tag (Workspace.importing xml)
    return s!"Imported {number} blocks from {file}\n"
  | exportTo file => do
    let e ← (← discover s.chosen).openEditor s.today
    request (Files.write file (← step (Edit.download.run e).1))
    return s!"Exported course to {file}\n"

def usage : String :=
  "Course of appearance editor for newspapers\n\nUsage: periodical <COMMAND>\n\nCommands:\n" ++
    String.join (summary.map fun (names, arguments) =>
      let line := Text.join " " (names ++ [arguments])
      s!"  {Text.trimmedEnd line}\n")

end Command

/-- What a run leaves behind besides files. -/
structure Reply where
  /-- Zero for success. -/
  code : Nat
  output : String
  complaint : String
deriving DecidableEq, Repr

namespace Reply

def ofNoCommand : Command.NoCommand → Reply
  | .help => ⟨0, Command.usage, ""⟩
  | .version => ⟨0, "periodical 0.1.0\n", ""⟩
  | .nothing => ⟨2, "", Command.usage⟩
  | .misuse cause =>
    ⟨2, "", s!"error: {cause.text}\n\nFor more information, try '--help'.\n"⟩

def ofResult : Except Error String → Reply
  | .ok output => ⟨0, output, ""⟩
  | .error cause => ⟨cause.exitCode, "", s!"Error: {cause.advice}\n"⟩

variable {m : Type → Type} [Monad m] [Files m]

def ofWords (s : Session) (words : List String) : m Reply :=
  match Command.read words with
  | .ok command => do return ofResult (← (command.run s).run)
  | .error cause => return ofNoCommand cause

end Reply

end PressCalendar
