/-
What can go wrong, in words and as an exit status.

`message` names the failure; `advice` is what a user of the command line sees,
which for some failures says what to do next.
-/
import PressCalendar.Date.Text
import PressCalendar.Text.Separated

namespace PressCalendar

inductive Error where
  /-- The range shares a day with the block of the given label. -/
  | overlap (first last : Date) (other : String)
  | invalidRange (detail : String)
  | malformedCourse (detail : String)
  | unwritableCourse (detail : String)
  /-- The text as it was typed. -/
  | unreadableDate (input : String)
  | emptyCourse
  | granularityUnavailable (detail : String)
  | unknownBlock (number : Nat)
  | unknownIssue (number : Nat)
  | noBlockSelected
  /-- The directory where the search for a workspace began. -/
  | notWorkspace (path : String)
  | io (detail : String)
  | configuration (detail : String)
  | unreadableSettings (detail : String)
  | unwritableSettings (detail : String)
deriving DecidableEq, Repr

namespace Error

def message : Error → String
  | overlap first last other =>
    s!"Date range {first.iso} – {last.iso} overlaps the block {other}"
  | invalidRange detail => s!"Invalid date range: {detail}"
  | malformedCourse detail => s!"Malformed course document: {detail}"
  | unwritableCourse detail => s!"Cannot write course document: {detail}"
  | unreadableDate input => s!"Cannot read date: {input}"
  | emptyCourse => "The course does not contain any issue"
  | granularityUnavailable detail => s!"Granularity not available: {detail}"
  | unknownBlock number => s!"No block number {number}"
  | unknownIssue number => s!"No issue number {number} in the selected block"
  | noBlockSelected => "No block selected"
  | notWorkspace path => s!"Not a periodical workspace: {path}"
  | io detail => s!"IO error: {detail}"
  | configuration detail => s!"Configuration error: {detail}"
  | unreadableSettings detail => s!"Cannot read config.toml: {detail}"
  | unwritableSettings detail => s!"Cannot write config.toml: {detail}"

def exitCode : Error → Nat
  | notWorkspace _ => 2
  | unreadableDate _ => 3
  | overlap .. => 4
  | invalidRange _ => 4
  | malformedCourse _ => 5
  | emptyCourse => 6
  | granularityUnavailable _ => 6
  | _ => 1

def advice (e : Error) : String :=
  match e with
  | notWorkspace path =>
    s!"Not a periodical workspace: {path}\n\n" ++
    "Suggestions:\n" ++
    "• Run 'periodical init' in this directory to create a new workspace\n" ++
    "• Navigate to an existing workspace\n" ++
    "• Set PERIODICAL_ROOT environment variable to your workspace path"
  | unreadableDate input =>
    s!"Cannot read date: '{input}'\n\n" ++
    "Dates are read as day, month, year separated by any non-digit:\n" ++
    "• 17.01.1850, 17/1/1850, 17-01-1850\n" ++
    "• Two-digit years are completed to the most recent past century\n" ++
    "• Day and month are swapped if the date is invalid otherwise"
  | overlap .. =>
    e.message ++ "\n\n" ++
    "Blocks of a course must not share any day.\n" ++
    "Use 'periodical block list' to see the existing date ranges."
  | emptyCourse =>
    "The course does not contain any issue.\n\n" ++
    "Suggestions:\n" ++
    "• Add a block: periodical block add --first 1.1.1850 --last 31.12.1850\n" ++
    "• Add an issue to it: periodical issue add 1 Morning --days mon,wed,fri"
  | granularityUnavailable detail =>
    detail ++ "\n\n" ++
    "Valid granularities: days, weeks, months, quarters, years, issues, as-imported\n" ++
    "'as-imported' requires a course imported with process boundaries"
  | configuration detail =>
    if Text.occursIn "Invalid granularity".toList detail.toList then
      detail ++ "\n\n" ++ "Example: periodical config granularity weeks"
    else detail
  | _ => e.message

end Error

end PressCalendar
