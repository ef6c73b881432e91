/-
Reports: what is printed of a course, an editor and its sheets.

Lists are numbered from 1 and have one entry a line.  A sheet has a line with the
year, one with the months and one for each day of a month; all but the first are
made of columns of four characters.
-/
import PressCalendar.Editor.Sheet
import PressCalendar.Text.Column

namespace PressCalendar

namespace Report

def column (width : Nat) (text : String) : String :=
  String.ofList (Text.alignRight width text.toList)

/-- The lines of numbered entries. -/
def numbered {α : Type} (line : Nat → α → String) (entries : List α) : String :=
  String.join (entries.mapIdx fun index entry => line (index + 1) entry)

/-! ## Lists -/

def blockLine (number : Nat) (block : Block) : String :=
  let headings := block.issues.map Issue.heading
  let shown := if headings.isEmpty then "(no issues)" else Text.join ", " headings
  s!"{column 3 (toString number)}  {block.label}  {shown}\n"

def blockList (c : Course) : String :=
  if c.blocks.isEmpty then "No blocks found" else numbered blockLine c.blocks

def issueLine (number : Nat) (view : Editor.IssueView) : String :=
  let days := if view.days.isEmpty then "irregular" else Text.join "," (view.days.map Weekday.key)
  s!"{column 3 (toString number)}  {view.heading}  [{view.colour}]  {days}\n"

def issueList (views : List Editor.IssueView) : String :=
  if views.isEmpty then "No issues found" else numbered issueLine views

/-- The line of a process.  An empty process has none. -/
def processLine (number : Nat) (p : Process) : String :=
  match p.head?, p.getLast? with
  | some first, some last =>
    let noun := if p.length = 1 then "issue" else "issues"
    column 4 (toString number) ++
      s!"  {first.date.display} – {last.date.display}  {p.length} {noun}\n"
  | _, _ => ""

def processList (processes : List Process) : String :=
  if processes.isEmpty then "No processes found" else numbered processLine processes

def noticeList (notices : List Notice) : String :=
  String.join (notices.map fun notice => s!"Note: {notice.text}\n")

/-! ## Sheets -/

def monthNames : List String :=
  ["Jan", "Feb", "Mar", "Apr", "May", "Jun", "Jul", "Aug", "Sep", "Oct", "Nov", "Dec"]

/-- The mark of a cell: a dash outside any block, a full stop if nothing
appeared, the number of the only issue that did, or how many did. -/
def cellMark (cell : Cell) : String :=
  if cell.date.isNone then ""
  else if !cell.onBlock then "-"
  else match cell.selected with
    | [] => "."
    | [index] => toString (index + 1)
    | several => s!"+{several.length}"

def sheetRow (row : List Cell) : String :=
  let label := (row.head?.bind Cell.dayLabel?).getD ""
  column 4 label ++ String.join (row.map fun cell => column 4 (cellMark cell)) ++ "\n"

def yearSheet (sheet : YearSheet) : String :=
  s!"{sheet.year}\n    " ++ String.join (monthNames.map (column 4)) ++ "\n" ++
    String.join (sheet.rows.map sheetRow)

end Report

end PressCalendar
