/-
Workspaces: a directory with a course and settings in it.

A directory is a workspace if it has a subdirectory `.periodical`, which holds the
settings.  The document of the course stands beside it and may be missing, which
counts as an empty course.

`revise` says what an edit makes of the stored texts, without any files: it opens
the document, edits, and writes the document anew.  `edit` is this between a read
and a save, so nothing is stored unless the whole edit succeeds.
-/
import PressCalendar.Editor.Edit
import PressCalendar.Settings
import PressCalendar.Storage.Files

namespace PressCalendar

structure Workspace where
  /-- The directory, as it is shown to the user. -/
  root : String
deriving DecidableEq, Repr

namespace Workspace

/-! ## What is stored -/

def opened (settings : Settings) (today : Date) (document? : Option String) :
    Except Error Editor := do
  let course ← match document? with
    | some xml => Course.ofXml xml
    | none => pure .empty
  return .ofCourse course settings.toPreferences today

/-- What an edit answers and the document it leaves. -/
def revise {α : Type} (settings : Settings) (today : Date) (document? : Option String)
    (edit : Edit α) : Except Error (α × String) := do
  let editor ← opened settings today document?
  match edit.run editor with
  | (.ok a, edited) => return (a, edited.course.toXml)
  | (.error cause, _) => throw cause

def splitting (g : Granularity) : Edit (List Process) := do
  Edit.checkReady
  Edit.split g

def importing (xml : String) : Edit Nat := do
  Edit.upload xml
  return (← get).course.blocks.length

/-! ## Where it is stored -/

def marker (root : String) : String := Path.join root ".periodical"

def settingsPath (w : Workspace) : String := Path.join (marker w.root) "config.toml"

def documentPath (w : Workspace) : String := Path.join w.root "course.xml"

/-- Where a document is written before it takes the place of the stored one.  The
tag keeps writers at the same time apart. -/
def draftPath (w : Workspace) (tag : String) : String :=
  Path.join w.root s!"course.xml.tmp-{tag}"

variable {m : Type → Type} [Monad m] [Files m] {α : Type}

/-- A request to the files, without which there is no going on. -/
def request (ask : m (Except FileFault α)) : ExceptT Error m α :=
  ExceptT.mk do return (← ask).mapError fun fault => .io fault.text

def step (answer : Except Error α) : ExceptT Error m α := ExceptT.mk (pure answer)

def isPresent (path : String) : ExceptT Error m Bool := ExceptT.lift (Files.isPresent path)

def findAmong : List String → m (Option Workspace)
  | [] => return none
  | root :: others => do
    if ← Files.isDirectory (marker root) then return some ⟨root⟩ else findAmong others

/-- The workspace to work on: the chosen one, else the one around the current
directory. -/
def discover (chosen : Option String) : ExceptT Error m Workspace := do
  match chosen with
  | some root =>
    match ← ExceptT.lift (findAmong [root]) with
    | some w => return w
    | none => throw (.configuration <|
        s!"PERIODICAL_ROOT is set to '{root}' but no .periodical directory found. " ++
        "Run 'periodical init' in that directory or unset PERIODICAL_ROOT.")
  | none =>
    let start ← request Files.directory
    match ← ExceptT.lift (findAmong (start :: Path.parents start)) with
    | some w => return w
    | none => throw (.notWorkspace start)

/-! ## Settings -/

def loadSettings (w : Workspace) : ExceptT Error m Settings := do
  match ← ExceptT.lift (Files.read w.settingsPath) with
  | .ok text => step (Settings.read text)
  | .error .notFound => throw (.notWorkspace w.root)
  | .error fault => throw (.io fault.text)

def saveSettings (w : Workspace) (settings : Settings) : ExceptT Error m Unit := do
  if !(← isPresent (marker w.root)) then
    request (Files.createDirectory (marker w.root))
  request (Files.write w.settingsPath settings.text)

def changeSetting (w : Workspace) (key value : String) : ExceptT Error m Unit := do
  let settings ← w.loadSettings
  w.saveSettings (← step (settings.set key value))

/-! ## The course -/

def loadDocument (w : Workspace) : ExceptT Error m (Option String) := do
  if ← isPresent w.documentPath then some <$> request (Files.read w.documentPath)
  else return none

/-- Store a document: write it beside the stored one, remove that, and move the
new one into its place. -/
def saveDocument (w : Workspace) (tag xml : String) : ExceptT Error m Unit := do
  let draft := w.draftPath tag
  request (Files.write draft xml)
  if ← isPresent w.documentPath then
    request (Files.remove w.documentPath)
  request (Files.move draft w.documentPath)

def openEditor (w : Workspace) (today : Date) : ExceptT Error m Editor := do
  let settings ← w.loadSettings
  let document? ← w.loadDocument
  step (opened settings today document?)

def edit (w : Workspace) (today : Date) (tag : String) (edit : Edit α) : ExceptT Error m α := do
  let settings ← w.loadSettings
  let document? ← w.loadDocument
  let (a, xml) ← step (revise settings today document? edit)
  w.saveDocument tag xml
  return a

/-- Split the stored course, by the granularity of the settings if none is
given. -/
def split (w : Workspace) (today : Date) (tag : String) (given : Option Granularity) :
    ExceptT Error m (List Process) := do
  let granularity ← match given with
    | some granularity => pure granularity
    | none => Settings.granularity <$> w.loadSettings
  w.edit today tag (splitting granularity)

/-! ## Beginning -/

/-- Make a directory a workspace with standard settings and an empty course. -/
def start (root : String) (now : Moment) (tag : String) : ExceptT Error m Settings := do
  if !(← isPresent root) then
    request (Files.createAll root)
  if ← isPresent (marker root) then
    throw (.configuration s!"Directory already initialized: {root}")
  request (Files.createDirectory (marker root))
  let w : Workspace := ⟨root⟩
  let settings := Settings.standard now
  w.saveSettings settings
  w.saveDocument tag Course.empty.toXml
  return settings

end Workspace

end PressCalendar
