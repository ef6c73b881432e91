/-
Commands from the words of a line.

All that can be told from the words alone is checked here, before any file is
looked at: the number and order of the words, the flags, numbers, years and days of
the week.
-/
import PressCalendar.Command.Basic
import PressCalendar.Command.Words

namespace PressCalendar

namespace Command

/-! ## Values of flags -/

def required (a : Arguments) (flag : String) : Except NoCommand String :=
  match a.value? flag with
  | some value => .ok value
  | none => refuse (.flagMissing flag)

def optional {α : Type} (read : String → Except NoCommand α) :
    Option String → Except NoCommand (Option α)
  | some word => some <$> read word
  | none => .ok none

/-! ## Flags -/

def firstFlag : Flag := ⟨"first", none, some .text⟩

def lastFlag : Flag := ⟨"last", none, some .text⟩

def listFlag : Flag := ⟨"list", some 'l', none⟩

def blockFlag : Flag := ⟨"block", some 'b', some .number⟩

def daysFlag : Flag := ⟨"days", some 'd', some .days⟩

def granularityFlag : Flag := ⟨"granularity", some 'g', some .text⟩

/-! ## Commands -/

/-- How commands are given: their names and their arguments. -/
def summary : List (List String × String) :=
  [(["init"], "[PATH]"),
   (["config"], "[KEY] [VALUE] [--list]"),
   (["block", "list"], ""),
   (["block", "add"], "--first FIRST --last LAST"),
   (["block", "set"], "BLOCK [--first FIRST] [--last LAST]"),
   (["block", "copy"], "BLOCK"),
   (["block", "remove"], "BLOCK"),
   (["issue", "add"], "BLOCK HEADING [--days DAYS]"),
   (["issue", "remove"], "BLOCK ISSUE"),
   (["issue", "days"], "BLOCK ISSUE DAYS"),
   (["issue", "rename"], "BLOCK ISSUE HEADING"),
   (["issue", "toggle"], "BLOCK ISSUE DATE"),
   (["show"], "[YEAR] [--block BLOCK]"),
   (["count"], ""),
   (["split"], "[--granularity GRANULARITY]"),
   (["import"], "FILE"),
   (["export"], "FILE")]

def readHelp {α : Type} (topic words : List String) : Except NoCommand α :=
  match words.getLast? with
  | some word =>
    if summary.any fun (names, _) => (topic ++ words).isPrefixOf names then .error .help
    else refuse (.unknownCommand word)
  | none => .error .help

/-- No command is named in front of some words.  Only help can be meant. -/
def readNone {α : Type} (topic : List String) : List String → Except NoCommand α
  | [] => .error .nothing
  | "help" :: words => readHelp topic words
  | word :: _ => do
    let _ ← Form.sort ⟨[], 0, [.text]⟩ [word]
    refuse (.unknownCommand word)

def readSettings (words : List String) : Except NoCommand Command := do
  let a ← Form.sort ⟨[listFlag], 0, [.text, .text]⟩ words
  return if a.has "list" then .listSettings
  else match a.plain with
    | [] => .explainSettings
    | [key] => .showSetting key
    | key :: value :: _ => .changeSetting key value

def readBlock : List String → Except NoCommand Command
  | "list" :: words => do
    let _ ← Form.sort ⟨[], 0, []⟩ words
    return .listBlocks
  | "add" :: words => do
    let a ← Form.sort ⟨[firstFlag, lastFlag], 0, []⟩ words
    return .change (.addBlock (← required a "first") (← required a "last"))
  | "set" :: words => do
    let a ← Form.sort ⟨[firstFlag, lastFlag], 1, [.number]⟩ words
    let block ← readNumber (a.plain.headD "")
    return .change (.setBlock block (a.value? "first") (a.value? "last"))
  | "copy" :: words => do
    let a ← Form.sort ⟨[], 1, [.number]⟩ words
    return .change (.copyBlock (← readNumber (a.plain.headD "")))
  | "remove" :: words => do
    let a ← Form.sort ⟨[], 1, [.number]⟩ words
    return .change (.removeBlock (← readNumber (a.plain.headD "")))
  | words => readNone ["block"] words

/-- A command on an issue of a block, with words of some kinds behind their
numbers. -/
def readIssueForm (kinds : List Kind) (words : List String)
    (make : Nat → Nat → List String → Except NoCommand Change) : Except NoCommand Command := do
  let a ← Form.sort ⟨[], kinds.length + 2, .number :: .number :: kinds⟩ words
  match a.plain with
  | block :: issue :: others => change <$> make (← readNumber block) (← readNumber issue) others
  | _ => refuse .wordMissing

def readIssue : List String → Except NoCommand Command
  | "add" :: words => do
    let a ← Form.sort ⟨[daysFlag], 2, [.number, .text]⟩ words
    match a.plain with
    | [block, heading] =>
      let days ← optional readDays (a.value? "days")
      return .change (.addIssue (← readNumber block) heading (days.getD []))
    | _ => refuse .wordMissing
  | "remove" :: words => readIssueForm [] words fun block issue _ =>
    .ok (.removeIssue block issue)
  | "days" :: words => readIssueForm [.days] words fun block issue others =>
    .setDays block issue <$> readDays (others.headD "")
  | "rename" :: words => readIssueForm [.text] words fun block issue others =>
    .ok (.renameIssue block issue (others.headD ""))
  | "toggle" :: words => readIssueForm [.text] words fun block issue others =>
    .ok (.toggleIssue block issue (others.headD ""))
  | words => readNone ["issue"] words

def readSheet (words : List String) : Except NoCommand Command := do
  let a ← Form.sort ⟨[blockFlag], 0, [.year]⟩ words
  let year ← optional readYear a.plain.head?
  return .showSheet year (← optional readNumber (a.value? "block"))

def asksVersion (word : String) : Bool :=
  word == "--version" || (['-', 'V'] : List Char).isPrefixOf word.toList

def read : List String → Except NoCommand Command
  | "init" :: words => do
    let a ← Form.sort ⟨[], 0, [.path]⟩ words
    return .start (← readPath (a.plain.headD "."))
  | "config" :: words => readSettings words
  | "block" :: words => readBlock words
  | "issue" :: words => readIssue words
  | "show" :: words => readSheet words
  | "count" :: words => do
    let _ ← Form.sort ⟨[], 0, []⟩ words
    return .count
  | "split" :: words => do
    let a ← Form.sort ⟨[granularityFlag], 0, []⟩ words
    return .split (a.value? "granularity")
  | "import" :: words => do
    let a ← Form.sort ⟨[], 1, [.path]⟩ words
    return .importFrom (← readPath (a.plain.headD ""))
  | "export" :: words => do
    let a ← Form.sort ⟨[], 1, [.path]⟩ words
    return .exportTo (← readPath (a.plain.headD ""))
  | word :: words => if asksVersion word then .error .version else readNone [] (word :: words)
  | [] => readNone [] []

end Command

end PressCalendar
