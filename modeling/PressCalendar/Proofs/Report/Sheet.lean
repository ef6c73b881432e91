/-
The printed sheet of a year.

A sheet is printed as a table: a line with the year, one with the months, and one for each day
of a month, all but the first in columns of four characters.  `DayMark` is what is told of a
day, and `Tells` says in words of the calendar and the course which mark a day has.  As long as
no block has more than 999 issues, every mark fits into its column, so the marks can be read
back from the text: `yearSheet_faithful` says where they stand, and that sheets on which a day
has different marks differ.
-/
import PressCalendar.Proofs.Editor.Marked
import PressCalendar.Proofs.Text.Table
import PressCalendar.Report

namespace PressCalendar

open Text

variable {year year' : Int} {month day index : Nat} {date : Date} {b : Block}

/-! ## Marks -/

/-- What a printed sheet tells of a day. -/
inductive DayMark where
  /-- There is no such day. -/
  | missing
  /-- The day lies on no block. -/
  | free
  /-- Nothing appeared. -/
  | idle
  /-- The issue of this number appeared and no other. -/
  | single (number : Nat)
  | several (count : Nat)
deriving DecidableEq

namespace DayMark

variable {mark other : DayMark}

def text : DayMark → String
  | missing => ""
  | free => "-"
  | idle => "."
  | single number => toString number
  | several count => s!"+{count}"

/-- The mark of a text. -/
def ofText : List Char → DayMark
  | [] => missing
  | '-' :: _ => free
  | '.' :: _ => idle
  | '+' :: digits => several (Nat.ofDigitChars 10 digits 0)
  | digits => single (Nat.ofDigitChars 10 digits 0)

theorem toList_single (number : Nat) : (single number).text.toList = Nat.toDigits 10 number :=
  Nat.toList_repr

theorem toList_several (count : Nat) :
    (several count).text.toList = '+' :: Nat.toDigits 10 count := by
  rw [← toList_single count]
  exact String.toList_append

theorem ofText_text (mark : DayMark) : ofText mark.text.toList = mark := by
  cases mark with
  | missing => rfl
  | free => rfl
  | idle => rfl
  | single number =>
    rw [toList_single]
    have hdigits : ∀ c ∈ Nat.toDigits 10 number, c.isDigit = true :=
      fun c hc => Nat.isDigit_of_mem_toDigits (by decide) (by decide) hc
    have hread : Nat.ofDigitChars 10 (Nat.toDigits 10 number) 0 = number :=
      Nat.ofDigitChars_ten_toDigits
    unfold ofText
    split
    · case h_1 hnil => exact absurd hnil Nat.toDigits_ne_nil
    · case h_2 hsign =>
      rw [hsign] at hdigits
      exact absurd (hdigits _ List.mem_cons_self) (by decide)
    · case h_3 hsign =>
      rw [hsign] at hdigits
      exact absurd (hdigits _ List.mem_cons_self) (by decide)
    · case h_4 hsign =>
      rw [hsign] at hdigits
      exact absurd (hdigits _ List.mem_cons_self) (by decide)
    · rw [hread]
  | several count =>
    rw [toList_several, ofText, Nat.ofDigitChars_ten_toDigits]

theorem mem_text {c : Char} (h : c ∈ mark.text.toList) :
    c = '-' ∨ c = '.' ∨ c = '+' ∨ c.isDigit = true := by
  have hdigits : ∀ number, c ∈ Nat.toDigits 10 number → c.isDigit = true :=
    fun number hc => Nat.isDigit_of_mem_toDigits (by decide) (by decide) hc
  cases mark with
  | missing => exact absurd h List.not_mem_nil
  | free => exact .inl (List.mem_singleton.1 h)
  | idle => exact .inr (.inl (List.mem_singleton.1 h))
  | single number =>
    rw [toList_single] at h
    exact .inr (.inr (.inr (hdigits number h)))
  | several count =>
    rw [toList_several] at h
    rcases List.mem_cons.1 h with h | h
    · exact .inr (.inr (.inl h))
    · exact .inr (.inr (.inr (hdigits count h)))

theorem blank_not_mem_text (mark : DayMark) : ' ' ∉ mark.text.toList :=
  fun h => absurd (mem_text h) (by decide)

theorem break_not_mem_text (mark : DayMark) : '\n' ∉ mark.text.toList :=
  fun h => absurd (mem_text h) (by decide)

end DayMark

/-! ## The marks of a day -/

namespace Block

variable {mark : DayMark}

/-- How many issues of a block appeared on a date. -/
def countOn (b : Block) (date : Date) : Nat := b.issues.countP (·.appearsOn date)

/-- The mark of a day on a block. -/
inductive Tells (b : Block) (date : Date) : DayMark → Prop
  | idle (h : b.countOn date = 0) : Tells b date .idle
  | single {index : Nat} {issue : Issue} (h : b.countOn date = 1)
      (hissue : b.issues[index]? = some issue) (happears : issue.appearsOn date = true) :
      Tells b date (.single (index + 1))
  | several (h : 2 ≤ b.countOn date) : Tells b date (.several (b.countOn date))

/-- A mark is as long as the number of issues allows. -/
theorem Tells.length_le (h : b.Tells date mark) (hfew : b.issues.length ≤ 999) :
    mark.text.toList.length ≤ 4 := by
  have hshort : ∀ number, number ≤ 999 → (Nat.toDigits 10 number).length ≤ 3 := by
    intro number hle
    exact (Nat.length_toDigits_le_iff (by decide) (by decide)).2 (by omega)
  cases h with
  | idle => decide
  | @single index issue _ hissue =>
    have hlt : index < b.issues.length := (List.getElem?_eq_some_iff.1 hissue).1
    have hdigits := hshort (index + 1) (by omega)
    rw [DayMark.toList_single]
    omega
  | several =>
    have hle : b.countOn date ≤ b.issues.length := List.countP_le_length
    have hdigits := hshort (b.countOn date) (Nat.le_trans hle hfew)
    rw [DayMark.toList_several, List.length_cons]
    omega

end Block

namespace Editor

variable {e e' : Editor} {mark other : DayMark}

/-- The mark of a day of a year: whether there is such a day, whether it lies on a block, and
what appeared on it. -/
inductive Tells (e : Editor) (year : Int) (month day : Nat) : DayMark → Prop
  | missing (h : ¬IsDate year month day) : Tells e year month day .missing
  | free (hdate : IsDate year month day)
      (h : ∀ b ∈ e.course.blocks, ¬b.Occupies ⟨year, month, day, hdate⟩) :
      Tells e year month day .free
  | block {b : Block} {mark : DayMark} (hdate : IsDate year month day)
      (hb : b ∈ e.course.blocks) (hoccupies : b.Occupies ⟨year, month, day, hdate⟩)
      (h : b.Tells ⟨year, month, day, hdate⟩ mark) : Tells e year month day mark

theorem Tells.eq_missing (h : e.Tells year month day mark) (hdate : ¬IsDate year month day) :
    mark = .missing := by
  cases h with
  | missing => rfl
  | free hdate' => exact absurd hdate' hdate
  | block hdate' => exact absurd hdate' hdate

/-- No block has more issues than a column has room for. -/
def Readable (e : Editor) : Prop := ∀ b ∈ e.course.blocks, b.issues.length ≤ 999

theorem Tells.length_le (h : e.Tells year month day mark) (hfew : e.Readable) :
    mark.text.toList.length ≤ 4 := by
  cases h with
  | missing => decide
  | free => decide
  | block _ hb _ h => exact h.length_le (hfew _ hb)

/-! ## Cells -/

theorem selected_cellOn (e : Editor) (b : Block) (date : Date) :
    (e.cellOn (some b) date).selected =
      ((e.optionsOn b date).filter (·.selected)).map IssueOption.index := rfl

theorem length_selected (e : Editor) (b : Block) (date : Date) :
    (e.cellOn (some b) date).selected.length = b.countOn date := by
  have hmarked : ((e.optionsOn b date).filter (·.selected)).map (fun _ => ()) =
      (b.issues.filter (·.appearsOn date)).map fun _ => () := by
    refine map_filter_mapIdx ?_ ?_ b.issues
    · intro index issue
      rfl
    · intro index issue
      rfl
  have hlengths := congrArg List.length hmarked
  rw [List.length_map, List.length_map] at hlengths
  rw [selected_cellOn, List.length_map, hlengths, Block.countOn, List.countP_eq_length_filter]

theorem mem_selected_iff : index ∈ (e.cellOn (some b) date).selected ↔
    ∃ issue, b.issues[index]? = some issue ∧ issue.appearsOn date = true := by
  simp only [selected_cellOn, List.mem_map, List.mem_filter, optionsOn, List.mem_mapIdx]
  constructor
  · rintro ⟨_, ⟨⟨place, hplace, rfl⟩, happears⟩, rfl⟩
    exact ⟨b.issues[place], List.getElem?_eq_getElem hplace, happears⟩
  · rintro ⟨issue, hissue, happears⟩
    obtain ⟨hplace, rfl⟩ := List.getElem?_eq_some_iff.1 hissue
    exact ⟨_, ⟨⟨index, hplace, rfl⟩, happears⟩, rfl⟩

/-- The mark of a cell on a block. -/
theorem cellMark_cellOn (e : Editor) (h : b.Tells date mark) :
    Report.cellMark (e.cellOn (some b) date) = mark.text := by
  have hlength := length_selected e b date
  have hdate : (e.cellOn (some b) date).date.isNone = false := rfl
  have hblock : (!(e.cellOn (some b) date).onBlock) = false := rfl
  rw [Report.cellMark, hdate, hblock, if_neg Bool.false_ne_true, if_neg Bool.false_ne_true]
  cases h with
  | idle hcount =>
    rw [hcount] at hlength
    rw [List.length_eq_zero_iff.1 hlength]
    rfl
  | single hcount hissue happears =>
    rw [hcount] at hlength
    obtain ⟨place, hplace⟩ := List.length_eq_one_iff.1 hlength
    have hmem := (mem_selected_iff (e := e)).2 ⟨_, hissue, happears⟩
    rw [hplace] at hmem ⊢
    rw [List.mem_singleton.1 hmem]
    rfl
  | several hcount =>
    rw [← hlength] at hcount ⊢
    split
    · case h_1 hnone =>
      rw [hnone] at hcount
      exact absurd hcount (by decide)
    · case h_2 hone =>
      rw [hone] at hcount
      exact absurd hcount (by simp)
    · rfl

/-- Every day on a block has a mark. -/
theorem exists_tells_block (b : Block) (date : Date) : ∃ mark, b.Tells date mark := by
  rcases Nat.lt_or_ge (b.countOn date) 2 with hlt | hge
  · rcases Nat.lt_or_ge (b.countOn date) 1 with hzero | hone
    · exact ⟨_, .idle (by omega)⟩
    · obtain ⟨issue, hmem, happears⟩ := List.countP_pos_iff.1 hone
      obtain ⟨place, hissue⟩ := List.getElem?_of_mem hmem
      exact ⟨_, .single (by omega) hissue happears⟩
  · exact ⟨_, .several hge⟩

theorem exists_tells (e : Editor) (year : Int) (month day : Nat) :
    ∃ mark, e.Tells year month day mark := by
  by_cases hdate : IsDate year month day
  · by_cases hblock : ∃ b ∈ e.course.blocks, b.Occupies ⟨year, month, day, hdate⟩
    · obtain ⟨b, hb, hoccupies⟩ := hblock
      obtain ⟨mark, hmark⟩ := exists_tells_block b ⟨year, month, day, hdate⟩
      exact ⟨mark, .block hdate hb hoccupies hmark⟩
    · refine ⟨_, .free hdate fun b hb hoccupies => ?_⟩
      exact hblock ⟨b, hb, hoccupies⟩
  · exact ⟨_, .missing hdate⟩

/-- The cell of a day, which is blank if there is no such day. -/
def shownOn (e : Editor) (year : Int) (month day : Nat) : Cell :=
  ((Date.of? year month day).map e.cellAt).getD Cell.blank

theorem rows_sheet (h : Course.InOrder e.course.blocks) (year : Int) :
    (e.sheet year).rows = (List.range 31).map fun day => (List.range 12).map fun month =>
      e.shownOn year (month + 1) (day + 1) := by
  simp only [sheet, find?_walk h]
  rfl

/-- The mark in a cell is the one of its day. -/
theorem cellMark_shownOn (h : Course.InOrder e.course.blocks)
    (htells : e.Tells year month day mark) :
    Report.cellMark (e.shownOn year month day) = mark.text := by
  have hof : ∀ hdate, Date.of? year month day = some ⟨year, month, day, hdate⟩ :=
    fun _ => Date.of?_eq_some_iff.2 ⟨rfl, rfl, rfl⟩
  unfold shownOn
  cases htells with
  | missing hdate =>
    rw [Date.of?_eq_none_iff.2 hdate]
    rfl
  | free hdate hfree =>
    have hnone : e.course.blocks.find? (·.covers ⟨year, month, day, hdate⟩) = none :=
      List.find?_eq_none.2 fun b hb hcovers => hfree b hb (Block.covers_iff_occupies.1 hcovers)
    rw [hof hdate, Option.map_some, Option.getD_some, cellAt, hnone]
    rfl
  | block hdate hb hoccupies hmark =>
    have hfind := h.find?_covers hb (Block.covers_iff_occupies.2 hoccupies)
    rw [hof hdate, Option.map_some, Option.getD_some, cellAt, hfind]
    exact cellMark_cellOn e hmark

end Editor

/-! ## The table -/

namespace Report

theorem toList_column (width : Nat) (text : String) :
    (column width text).toList = alignRight width text.toList :=
  String.toList_ofList

theorem toList_join_column {α : Type} (width : Nat) (text : α → String) (xs : List α) :
    (String.join (xs.map fun x => column width (text x))).toList =
      columns width (xs.map fun x => (text x).toList) := by
  rw [String.toList_join, List.flatMap_map, columns, List.flatMap_map]
  simp only [toList_column]

/-- What stands in the columns of a row: the day, then the mark of each month. -/
def rowEntries (row : List Cell) : List (List Char) :=
  ((row.head?.bind Cell.dayLabel?).getD "").toList :: row.map fun cell => (cellMark cell).toList

def sheetLines (sheet : YearSheet) : List (List Char) :=
  (toString sheet.year).toList :: columns 4 ([] :: monthNames.map String.toList) ::
    sheet.rows.map fun row => columns 4 (rowEntries row)

theorem toList_sheetRow (row : List Cell) :
    (sheetRow row).toList = columns 4 (rowEntries row) ++ ['\n'] := by
  rw [sheetRow, String.toList_append, String.toList_append, toList_column, toList_join_column,
    rowEntries, columns_cons]
  rfl

/-- A printed sheet consists of its lines. -/
theorem toList_yearSheet (sheet : YearSheet) :
    (yearSheet sheet).toList = lines (sheetLines sheet) := by
  have hmonths : (String.join (monthNames.map (column 4))).toList =
      columns 4 (monthNames.map String.toList) := toList_join_column 4 id monthNames
  have hrows : (String.join (sheet.rows.map sheetRow)).toList =
      lines (sheet.rows.map fun row => columns 4 (rowEntries row)) := by
    rw [String.toList_join, List.flatMap_map, lines, List.flatMap_map]
    simp only [toList_sheetRow]
  have hyear : (s!"{sheet.year}\n    ").toList =
      (toString sheet.year).toList ++ ['\n', ' ', ' ', ' ', ' '] := String.toList_append
  have hlabel : columns 4 ([] :: monthNames.map String.toList) =
      [' ', ' ', ' ', ' '] ++ columns 4 (monthNames.map String.toList) := columns_cons 4 _ _
  have hbreak : "\n".toList = ['\n'] := rfl
  rw [yearSheet, String.toList_append, String.toList_append, String.toList_append, hyear, hmonths,
    hrows, hbreak, sheetLines, lines_cons, lines_cons, hlabel]
  simp only [List.append_assoc, List.cons_append, List.nil_append]

/-- No line break is written with a number. -/
theorem newline_not_mem_repr (number : Nat) : '\n' ∉ number.repr.toList := by
  intro h
  rw [Nat.toList_repr] at h
  exact absurd (Nat.isDigit_of_mem_toDigits (by decide) (by decide) h) (by decide)

theorem newline_not_mem_year (year : Int) : '\n' ∉ (toString year).toList := by
  cases year with
  | ofNat number => exact newline_not_mem_repr number
  | negSucc number =>
    have hsign : (toString (Int.negSucc number)).toList = '-' :: (number + 1).repr.toList :=
      String.toList_append
    rw [hsign, List.mem_cons]
    exact fun h => h.elim (by decide) (newline_not_mem_repr _)

/-- What can stand in a column of a line. -/
def Fits (entry : List Char) : Prop := entry.length ≤ 4 ∧ '\n' ∉ entry

instance (entry : List Char) : Decidable (Fits entry) :=
  inferInstanceAs (Decidable (entry.length ≤ 4 ∧ '\n' ∉ entry))

theorem dayLabel_fits {cell : Cell} {label : String} (h : cell.dayLabel? = some label) :
    Fits label.toList := by
  obtain ⟨date, -, rfl⟩ := Option.map_eq_some_iff.1 h
  have hlabel : (s!"{date.day}.").toList = date.day.repr.toList ++ ['.'] := String.toList_append
  have hshort : date.day.repr.toList.length ≤ 2 := by
    have hday := date.day_le
    rw [Nat.toList_repr]
    exact (Nat.length_toDigits_le_iff (by decide) (by decide)).2 (by omega)
  rw [hlabel, Fits, List.length_append, List.mem_append, List.mem_singleton]
  refine ⟨Nat.add_le_add_right (Nat.le_succ_of_le hshort) 1, fun h => ?_⟩
  exact h.elim (newline_not_mem_repr _) (by decide)

/-- The entries of a row fit into their columns if its marks do. -/
theorem rowEntries_fit {row : List Cell}
    (h : ∀ cell ∈ row, Fits (cellMark cell).toList) : ∀ entry ∈ rowEntries row, Fits entry := by
  intro entry hentry
  rcases List.mem_cons.1 hentry with rfl | hentry
  · cases hlabel : row.head?.bind Cell.dayLabel? with
    | none => decide
    | some label =>
      obtain ⟨cell, -, hcell⟩ := Option.bind_eq_some_iff.1 hlabel
      exact dayLabel_fits hcell
  · obtain ⟨cell, hcell, rfl⟩ := List.mem_map.1 hentry
    exact h cell hcell

/-- Below the year, a line is made of thirteen entries that fit. -/
theorem sheetLines_tail {sheet : YearSheet} (hrows : ∀ row ∈ sheet.rows, row.length = 12)
    (hmarks : ∀ row ∈ sheet.rows, ∀ cell ∈ row, Fits (cellMark cell).toList)
    {line : List Char} (hline : line ∈ (sheetLines sheet).tail) :
    ∃ entries, line = columns 4 entries ∧ entries.length = 13 ∧ ∀ entry ∈ entries, Fits entry := by
  rcases List.mem_cons.1 hline with rfl | hline
  · exact ⟨_, rfl, rfl, by decide⟩
  · obtain ⟨row, hrow, rfl⟩ := List.mem_map.1 hline
    refine ⟨_, rfl, ?_, rowEntries_fit (hmarks row hrow)⟩
    rw [rowEntries, List.length_cons, List.length_map, hrows row hrow]

end Report

namespace Editor

variable {e e' : Editor} {mark other : DayMark} {ls : List (List Char)}

theorem length_of_mem_rows {row : List Cell} (h : row ∈ (e.sheet year).rows) :
    row.length = 12 := by
  obtain ⟨day, -, rfl⟩ := List.mem_map.1 h
  rw [List.length_map, List.length_range]

/-- The marks of a sheet fit into their columns. -/
theorem cellMark_fits (h : Course.InOrder e.course.blocks) (hfew : e.Readable) {row : List Cell}
    (hrow : row ∈ (e.sheet year).rows) {cell : Cell} (hcell : cell ∈ row) :
    Report.Fits (Report.cellMark cell).toList := by
  rw [rows_sheet h year] at hrow
  obtain ⟨day, -, rfl⟩ := List.mem_map.1 hrow
  obtain ⟨month, -, rfl⟩ := List.mem_map.1 hcell
  obtain ⟨mark, htells⟩ := e.exists_tells year (month + 1) (day + 1)
  rw [cellMark_shownOn h htells]
  exact ⟨htells.length_le hfew, mark.break_not_mem_text⟩

/-- The line of a day of a month. -/
theorem line_sheet (h : Course.InOrder e.course.blocks) (year : Int) (hday : day < 31) :
    ∃ row, (Report.sheetLines (e.sheet year))[day + 2]? =
        some (columns 4 (Report.rowEntries row)) ∧ row ∈ (e.sheet year).rows ∧
      ∀ month, month < 12 → row[month]? = some (e.shownOn year (month + 1) (day + 1)) := by
  refine ⟨(List.range 12).map fun month => e.shownOn year (month + 1) (day + 1), ?_, ?_, ?_⟩
  · rw [Report.sheetLines, List.getElem?_cons_succ, List.getElem?_cons_succ, rows_sheet h year,
      List.map_map, List.getElem?_map, List.getElem?_range hday, Option.map_some]
    rfl
  · rw [rows_sheet h year]
    exact List.mem_map.2 ⟨day, List.mem_range.2 hday, rfl⟩
  · intro month hmonth
    rw [List.getElem?_map, List.getElem?_range hmonth, Option.map_some]

/-- The lines of the sheet of a year: below the year and the months one for each day of a
month, with the marks of the day, each in the column of its month. -/
structure PrintsAs (e : Editor) (year : Int) (ls : List (List Char)) : Prop where
  unbroken : ∀ line ∈ ls, '\n' ∉ line
  count : ls.length = 33
  first : ls.head? = some (toString year).toList
  width : ∀ line ∈ ls.tail, line.length = 52
  marked : ∀ day month, 1 ≤ day ∧ day ≤ 31 → 1 ≤ month ∧ month ≤ 12 →
    ∃ line, ls[day + 1]? = some line ∧ (∃ mark, e.Tells year month day mark) ∧
      ∀ mark, e.Tells year month day mark →
        (line.drop (4 * month)).take 4 = alignRight 4 mark.text.toList

theorem printsAs_sheetLines (h : Course.InOrder e.course.blocks) (hfew : e.Readable)
    (year : Int) : e.PrintsAs year (Report.sheetLines (e.sheet year)) := by
  have htail := fun line (hline : line ∈ (Report.sheetLines (e.sheet year)).tail) =>
    Report.sheetLines_tail (fun _ => length_of_mem_rows)
      (fun _ hrow _ hcell => cellMark_fits h hfew hrow hcell) hline
  refine ⟨?_, ?_, rfl, ?_, ?_⟩
  · intro line hline
    rcases List.mem_cons.1 hline with rfl | hline
    · exact Report.newline_not_mem_year year
    · obtain ⟨entries, rfl, -, hfits⟩ := htail line hline
      exact not_mem_columns (by decide) fun entry hentry => (hfits entry hentry).2
  · simp [Report.sheetLines, rows_sheet h year]
  · intro line hline
    obtain ⟨entries, rfl, hlength, hfits⟩ := htail line hline
    rw [length_columns fun entry hentry => (hfits entry hentry).1, hlength]
  · intro day month hday hmonth
    obtain ⟨day, rfl⟩ := Nat.exists_eq_add_of_le' hday.1
    obtain ⟨month, rfl⟩ := Nat.exists_eq_add_of_le' hmonth.1
    obtain ⟨row, hline, hrow, hcells⟩ := line_sheet h year (show day < 31 by omega)
    refine ⟨_, hline, e.exists_tells _ _ _, fun mark htells => ?_⟩
    -- the label of the day takes the first column, so the months are counted from 1
    have hentry : (Report.rowEntries row)[month + 1]? = some mark.text.toList := by
      rw [Report.rowEntries, List.getElem?_cons_succ, List.getElem?_map,
        hcells month (by omega), Option.map_some, cellMark_shownOn h htells]
    have hfits := Report.rowEntries_fit fun _ hcell => cellMark_fits h hfew hrow hcell
    exact take_drop_columns (fun entry hmem => (hfits entry hmem).1) hentry

/-- Every date has its place among the 31 rows of 12 cells. -/
theorem cell_of_isDate (h : IsDate year month day) :
    (1 ≤ day ∧ day ≤ 31) ∧ 1 ≤ month ∧ month ≤ 12 := by
  have hdate : ∃ date : Date, date.month = month ∧ date.day = day :=
    ⟨⟨year, month, day, h⟩, rfl, rfl⟩
  obtain ⟨date, rfl, rfl⟩ := hdate
  exact ⟨⟨date.day_pos, date.day_le⟩, date.month_pos, date.month_le⟩

/-- The marks are read back from the lines. -/
theorem PrintsAs.tells_eq (h : e.PrintsAs year ls) (h' : e'.PrintsAs year' ls)
    (htells : e.Tells year month day mark) (htells' : e'.Tells year' month day other) :
    mark = other := by
  by_cases hcell : (1 ≤ day ∧ day ≤ 31) ∧ 1 ≤ month ∧ month ≤ 12
  · obtain ⟨line, hline, -, hmark⟩ := h.marked day month hcell.1 hcell.2
    obtain ⟨line', hline', -, hmark'⟩ := h'.marked day month hcell.1 hcell.2
    have hcolumn := hmark mark htells
    rw [Option.some.inj (hline.symm.trans hline'), hmark' other htells'] at hcolumn
    have htext := alignRight_injective other.blank_not_mem_text mark.blank_not_mem_text hcolumn
    rw [← DayMark.ofText_text mark, ← DayMark.ofText_text other, htext]
  · -- there is no such day in any year
    have hnever : ∀ year, ¬IsDate year month day := fun _ hdate => hcell (cell_of_isDate hdate)
    rw [htells.eq_missing (hnever year), htells'.eq_missing (hnever year')]

/-- The printed sheet of a year consists of 33 lines, all but the first 52 characters wide, on
which every day of the year has its mark in the column of its month.  If a day of a month has
different marks in two sessions, or in two years, the printed sheets differ. -/
theorem yearSheet_faithful (h : e.Reachable) (hfew : e.Readable) (year : Int) :
    (∃ ls, (Report.yearSheet (e.sheet year)).toList = lines ls ∧ e.PrintsAs year ls) ∧
    ∀ (e' : Editor) (year' : Int), e'.Reachable → e'.Readable → ∀ day month mark other,
      e.Tells year month day mark → e'.Tells year' month day other → mark ≠ other →
      Report.yearSheet (e.sheet year) ≠ Report.yearSheet (e'.sheet year') := by
  have horder : ∀ {e : Editor}, e.Reachable → Course.InOrder e.course.blocks :=
    fun h => (Course.sound_of_reachable (current_of_reachable h).1).toInOrder
  have hprinted := printsAs_sheetLines (horder h) hfew year
  refine ⟨⟨_, Report.toList_yearSheet _, hprinted⟩, ?_⟩
  intro e' year' h' hfew' day month mark other htells htells' hne heq
  have hprinted' := printsAs_sheetLines (horder h') hfew' year'
  have hlines := congrArg String.toList heq
  rw [Report.toList_yearSheet, Report.toList_yearSheet] at hlines
  rw [lines_injective hprinted.unbroken hprinted'.unbroken hlines] at hprinted
  exact hne (hprinted.tells_eq hprinted' htells htells')

theorem yearSheet_faithful_lastDays :
    lastDays.Reachable ∧ lastDays.Readable ∧ lastDays.Tells 262142 12 31 (.single 2) ∧
      (∃ ls line, (Report.yearSheet (lastDays.sheet 262142)).toList = lines ls ∧
        ls.length = 33 ∧ ls[32]? = some line ∧ line.length = 52 ∧
        (line.drop 48).take 4 = [' ', ' ', ' ', '2'] ∧ (line.drop 8).take 4 = "    ".toList) ∧
      Report.yearSheet (lastDays.sheet 262142) ≠
        Report.yearSheet ((blank lastDays.preferences Date.last).sheet 262142) := by
  have hreach : lastDays.Reachable := (Reachable.blank _ _).foldl _
  have hfew : lastDays.Readable := by
    unfold Readable
    decide +kernel
  have hissue : ∃ b ∈ lastDays.course.blocks, b.covers Date.last = true ∧
      b.countOn Date.last = 1 ∧ b.issues[1]?.any (·.appearsOn Date.last) = true := by
    decide +kernel
  have hsingle : lastDays.Tells 262142 12 31 (.single 2) := by
    obtain ⟨b, hb, hcovers, hcount, hany⟩ := hissue
    cases hplace : b.issues[1]? with
    | none =>
      rw [hplace] at hany
      cases hany
    | some issue =>
      rw [hplace] at hany
      exact .block _ hb (Block.covers_iff_occupies.1 hcovers) (.single hcount hplace hany)
  have hmissing : lastDays.Tells 262142 2 31 .missing := .missing (by decide)
  have hfree : (blank lastDays.preferences Date.last).Tells 262142 12 31 .free :=
    .free (by decide) fun _ hb => absurd hb List.not_mem_nil
  obtain ⟨⟨ls, htext, hprinted⟩, hdiffer⟩ := yearSheet_faithful hreach hfew 262142
  obtain ⟨line, hline, -, hmark⟩ := hprinted.marked 31 12 (by decide) (by decide)
  obtain ⟨line', hline', -, hmark'⟩ := hprinted.marked 31 2 (by decide) (by decide)
  obtain rfl := Option.some.inj (hline.symm.trans hline')
  have htail : ls.tail[31]? = some line := by rw [List.getElem?_tail, hline]
  refine ⟨hreach, hfew, hsingle, ⟨ls, line, htext, hprinted.count, hline,
    hprinted.width line (List.mem_of_getElem? htail), hmark _ hsingle, hmark' _ hmissing⟩, ?_⟩
  exact hdiffer _ _ (.blank _ _) (fun _ hb => absurd hb List.not_mem_nil) 31 12 _ _ hsingle hfree
    (by decide)

end Editor
end PressCalendar
