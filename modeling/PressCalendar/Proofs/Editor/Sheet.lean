/-
What a calendar sheet shows.

The walk over a year looks a block up only where the one it holds on to ends.  Since no two
blocks share a day, that is the block it would have found: `walk_eq` says that the cell of
each date is made from the block covering it.  `Depicts` says in words of the calendar and
the course what is to be read in a cell, and `sheet_depicts` that every cell of a sheet
shows it.
-/
import PressCalendar.Editor.Sheet
import PressCalendar.Proofs.Editor.Caches

namespace PressCalendar

variable {year : Int} {month day : Nat} {date : Date}

/-! ## Dates -/

namespace Date

theorem le_and_ge_iff {d e : Date} : d ≤ e ∧ e ≤ d ↔ d = e := by
  constructor
  · rintro ⟨hle, hge⟩
    exact le_antisymm hle hge
  · rintro rfl
    exact ⟨le_refl d, le_refl d⟩

/-- The dates of a year are those from its first of January to its last of December. -/
theorem between_newYears_iff {first last d : Date} (hfirst : of? year 1 1 = some first)
    (hlast : of? year 12 31 = some last) : first ≤ d ∧ d ≤ last ↔ d.year = year := by
  obtain ⟨hfirst, hfirst', hfirst''⟩ := of?_eq_some_iff.1 hfirst
  obtain ⟨hlast, hlast', hlast''⟩ := of?_eq_some_iff.1 hlast
  have hmonth := d.month_pos
  have hmonth' := d.month_le
  have hday := d.day_pos
  have hday' := d.day_le
  rw [← not_lt, ← not_lt, lt_iff, lt_iff]
  omega

end Date

/-! ## Blocks and colours -/

namespace Block

/-- The days of a block: those from its first to its last, or the one that it has so far. -/
def Occupies (b : Block) (date : Date) : Prop :=
  (∃ first ∈ b.first, ∃ last ∈ b.last, first ≤ date ∧ date ≤ last) ∨
    (b.first = some date ∧ b.last = none) ∨ (b.first = none ∧ b.last = some date)

theorem covers_iff_occupies {b : Block} : b.covers date = true ↔ b.Occupies date := by
  obtain ⟨id, first?, last?, issues⟩ := b
  cases first? <;> cases last? <;> simp [covers, span?, Occupies, Date.le_and_ge_iff]

end Block

/-- The colours are handed out in turn.  Without any, an issue has none. -/
def Preferences.HandsOut (p : Preferences) (index : Nat) (colour : String) : Prop :=
  if p.colours = [] then colour = "" else p.colours[index % p.colours.length]? = some colour

theorem Preferences.handsOut_colour (p : Preferences) (index : Nat) :
    p.HandsOut index (p.colour index) := by
  unfold HandsOut colour
  split
  · case isTrue hnone =>
    rw [hnone]
    rfl
  · case isFalse hsome =>
    have hlt := Nat.mod_lt index (List.length_pos_iff.2 hsome)
    rw [List.getElem?_eq_getElem hlt]
    rfl

namespace Editor

variable {e : Editor} {cell : Cell}

/-! ## The days of a year -/

theorem mem_daysOf_iff : date ∈ daysOf year ↔ date.year = year := by
  unfold daysOf
  split
  · case h_1 first last hfirst hlast =>
    rw [Date.mem_closedRange_iff, Date.between_newYears_iff hfirst hlast]
  · case h_2 hnever =>
    refine ⟨fun h => absurd h List.not_mem_nil, ?_⟩
    rintro rfl
    -- the year of a date is one of the calendar, so it has a first and a last day
    obtain ⟨hyear, hyear', -⟩ := date.isDate
    have hlength : monthLength date.year 1 = 31 ∧ monthLength date.year 12 = 31 := ⟨rfl, rfl⟩
    obtain ⟨first, hfirst⟩ := Option.isSome_iff_exists.1
      (Date.of?_isSome_iff.2 (⟨hyear, hyear', by omega, by omega⟩ : IsDate date.year 1 1))
    obtain ⟨last, hlast⟩ := Option.isSome_iff_exists.1
      (Date.of?_isSome_iff.2 (⟨hyear, hyear', by omega, by omega⟩ : IsDate date.year 12 31))
    exact absurd hlast (hnever first last hfirst)

/-- Every date of a year is met on the walk, and found there by its month and its day. -/
theorem find?_daysOf :
    (daysOf year).find? (fun date => date.month == month && date.day == day) =
      Date.of? year month day := by
  refine Option.ext fun date => ?_
  rw [Date.of?_eq_some_iff]
  constructor
  · intro h
    have hfound := List.find?_some h
    rw [Bool.and_eq_true, beq_iff_eq, beq_iff_eq] at hfound
    exact ⟨mem_daysOf_iff.1 (List.mem_of_find?_eq_some h), hfound⟩
  · rintro ⟨hyear, rfl, rfl⟩
    cases hfind : (daysOf year).find? fun other =>
        other.month == date.month && other.day == date.day with
    | none =>
      have hnot := List.find?_eq_none.1 hfind date (mem_daysOf_iff.2 hyear)
      simp at hnot
    | some other =>
      have hfound := List.find?_some hfind
      rw [Bool.and_eq_true, beq_iff_eq, beq_iff_eq] at hfound
      have hyear' := mem_daysOf_iff.1 (List.mem_of_find?_eq_some hfind)
      have hother := Date.of?_eq_some_iff.2 ⟨hyear'.trans hyear.symm, hfound⟩
      rw [Date.of?_self] at hother
      exact hother.symm

/-! ## The walk -/

/-- The block held on to is the one that would be found. -/
theorem blockFrom_eq {c : Course} (h : Course.InOrder c.blocks) {before : Option Block}
    (hbefore : ∀ b ∈ before, b ∈ c.blocks) (date : Date) :
    blockFrom c before date = c.blocks.find? (·.covers date) := by
  have hsearch := Course.blockOn?_eq_find? h date
  cases before with
  | none => exact hsearch
  | some b =>
    unfold blockFrom
    rw [Option.any_some]
    split
    · case isTrue hcovers => exact (h.find?_covers (hbefore b rfl) hcovers).symm
    · exact hsearch

/-- The cell of a date, with its block searched for from the first one on. -/
def cellAt (e : Editor) (date : Date) : Cell :=
  e.cellOn (e.course.blocks.find? (·.covers date)) date

theorem date_cellAt (e : Editor) (date : Date) : (e.cellAt date).date = some date := by
  unfold cellAt
  cases e.course.blocks.find? (·.covers date) <;> rfl

theorem walk_eq (h : Course.InOrder e.course.blocks) {before : Option Block}
    (hbefore : ∀ b ∈ before, b ∈ e.course.blocks) (dates : List Date) :
    e.walk before dates = dates.map e.cellAt := by
  -- what carries the induction is that the block held on to is one of the course
  induction dates generalizing before with
  | nil => rfl
  | cons date dates ih =>
    simp only [walk, blockFrom_eq h hbefore, List.map_cons]
    rw [ih fun b hb => List.mem_of_find?_eq_some hb]
    rfl

theorem find?_walk (h : Course.InOrder e.course.blocks) :
    (e.walk none (daysOf year)).find? (isCellOf month day) =
      (Date.of? year month day).map e.cellAt := by
  have hcell : isCellOf month day ∘ e.cellAt =
      fun date => date.month == month && date.day == day := by
    funext date
    simp only [Function.comp_apply, isCellOf, date_cellAt, Option.any_some]
  rw [walk_eq h (by simp), List.find?_map, hcell, find?_daysOf]

/-- Each cell of a sheet is that of its date, if there is such a date. -/
theorem cell?_sheet (h : Course.InOrder e.course.blocks) (hday : 1 ≤ day ∧ day ≤ 31)
    (hmonth : 1 ≤ month ∧ month ≤ 12) :
    (e.sheet year).cell? day month =
      some (((Date.of? year month day).map e.cellAt).getD Cell.blank) := by
  obtain ⟨day, rfl⟩ := Nat.exists_eq_add_of_le' hday.1
  obtain ⟨month, rfl⟩ := Nat.exists_eq_add_of_le' hmonth.1
  have hlt : day < 31 ∧ month < 12 := by omega
  simp only [sheet, YearSheet.cell?, List.getElem?_map, List.getElem?_range hlt.1,
    List.getElem?_range hlt.2, Option.map_some, Option.bind_some, find?_walk h]

/-! ## What is to be seen -/

/-- What is to be read in the cell of a date: the date, whether it lies on a block and on
the one being edited, and each issue of that block with its place, its heading, its colour
and whether it appeared. -/
structure Depicts (e : Editor) (date : Date) (cell : Cell) : Prop where
  dated : cell.date = some date
  onBlock : cell.onBlock = true ↔ ∃ b ∈ e.course.blocks, b.Occupies date
  onShowing : cell.onShowing = true ↔
    ∃ b ∈ e.course.blocks, b.Occupies date ∧ e.showing = some b.id
  count : ∀ b ∈ e.course.blocks, b.Occupies date → cell.options.length = b.issues.length
  options : ∀ b ∈ e.course.blocks, b.Occupies date → ∀ index issue,
    b.issues[index]? = some issue → ∃ colour, e.preferences.HandsOut index colour ∧
      cell.options[index]? =
        some ⟨b.id, index, issue.heading, colour, date, issue.appearsOn date⟩
  free : (∀ b ∈ e.course.blocks, ¬b.Occupies date) → cell.options = []

theorem depicts_cellOn (h : Course.InOrder e.course.blocks) {b : Block}
    (hb : b ∈ e.course.blocks) (hdate : b.Occupies date) :
    e.Depicts date (e.cellOn (some b) date) := by
  have honly : ∀ other ∈ e.course.blocks, other.Occupies date → other = b := fun other ho hd =>
    h.eq_of_covers ho hb (Block.covers_iff_occupies.2 hd) (Block.covers_iff_occupies.2 hdate)
  refine ⟨rfl, ?_, ?_, ?_, ?_, ?_⟩
  · exact ⟨fun _ => ⟨b, hb, hdate⟩, fun _ => rfl⟩
  · show (e.showing == some b.id) = true ↔ _
    rw [beq_iff_eq]
    constructor
    · intro hshowing
      exact ⟨b, hb, hdate, hshowing⟩
    · rintro ⟨other, ho, hd, hshowing⟩
      rw [hshowing, honly other ho hd]
  · intro other ho hd
    rw [honly other ho hd]
    exact List.length_mapIdx
  · intro other ho hd index issue hissue
    rw [honly other ho hd] at hissue ⊢
    refine ⟨_, e.preferences.handsOut_colour index, ?_⟩
    show (b.issues.mapIdx _)[index]? = _
    rw [List.getElem?_mapIdx, hissue, Option.map_some]
  · intro hfree
    exact absurd hdate (hfree b hb)

theorem depicts_cellOn_none (hfree : ∀ b ∈ e.course.blocks, ¬b.Occupies date) :
    e.Depicts date (e.cellOn none date) := by
  refine ⟨rfl, iff_of_false Bool.false_ne_true ?_, iff_of_false Bool.false_ne_true ?_, ?_, ?_,
    fun _ => rfl⟩
  · rintro ⟨b, hb, hdate⟩
    exact hfree b hb hdate
  · rintro ⟨b, hb, hdate, -⟩
    exact hfree b hb hdate
  · intro b hb hdate
    exact absurd hdate (hfree b hb)
  · intro b hb hdate
    exact absurd hdate (hfree b hb)

theorem depicts_cellAt (h : Course.InOrder e.course.blocks) (date : Date) :
    e.Depicts date (e.cellAt date) := by
  unfold cellAt
  cases hfind : e.course.blocks.find? (·.covers date) with
  | some b =>
    have hcovers := List.find?_some hfind
    exact depicts_cellOn h (List.mem_of_find?_eq_some hfind)
      (Block.covers_iff_occupies.1 hcovers)
  | none =>
    refine depicts_cellOn_none fun b hb hdate => ?_
    exact List.find?_eq_none.1 hfind b hb (Block.covers_iff_occupies.2 hdate)

/-- The sheet of any year has 31 rows of 12 cells.  The cell of a date that exists shows what
there is on it, and the cell of a date that does not exist, or lies outside the calendar,
is blank. -/
theorem sheet_depicts (h : e.Reachable) (year : Int) :
    (e.sheet year).year = year ∧ (e.sheet year).rows.length = 31 ∧
    (∀ row ∈ (e.sheet year).rows, row.length = 12) ∧
    ∀ day month, 1 ≤ day ∧ day ≤ 31 → 1 ≤ month ∧ month ≤ 12 →
      ∃ cell, (e.sheet year).cell? day month = some cell ∧
        (∀ hdate : IsDate year month day, e.Depicts ⟨year, month, day, hdate⟩ cell) ∧
        (¬IsDate year month day → cell = ⟨none, true, false, []⟩) := by
  have horder := (Course.sound_of_reachable (current_of_reachable h).1).toInOrder
  refine ⟨rfl, by simp [sheet], ?_, ?_⟩
  · intro row hrow
    obtain ⟨day, -, rfl⟩ := List.mem_map.1 hrow
    simp
  · intro day month hday hmonth
    refine ⟨_, cell?_sheet horder hday hmonth, ?_, ?_⟩
    · intro hdate
      have hof : Date.of? year month day = some ⟨year, month, day, hdate⟩ :=
        Date.of?_eq_some_iff.2 ⟨rfl, rfl, rfl⟩
      rw [hof]
      exact depicts_cellAt horder _
    · intro hnot
      rw [Date.of?_eq_none_iff.2 hnot]
      rfl

/-- A session with a block up to the last day of the calendar and one that is only begun. -/
def lastDays : Editor :=
  [.setPeriod "1.12.262142" "31.12.262142", .addIssue "Morning", .addIssue "Evening",
    .toggleIssue 1 1 Date.last, .startNewBlock, .setFirst "28.2.262142"].foldl
    perform (blank ⟨["#CC0000"], Preferences.firstNewspaper⟩ ⟨2024, 6, 6, by decide⟩)

theorem sheet_depicts_lastDays :
    lastDays.Reachable ∧
      (∃ cell, (lastDays.sheet 262142).cell? 31 12 = some cell ∧
        lastDays.Depicts Date.last cell ∧ cell.selected = [1] ∧ cell.onShowing = false) ∧
      (∃ cell, (lastDays.sheet 262142).cell? 28 2 = some cell ∧
        lastDays.Depicts ⟨262142, 2, 28, by decide⟩ cell ∧ cell.onShowing = true) ∧
      (lastDays.sheet 262142).cell? 30 2 = some Cell.blank ∧
      (lastDays.sheet 262143).cell? 1 1 = some Cell.blank := by
  have hreach : lastDays.Reachable := (Reachable.blank _ _).foldl _
  obtain ⟨-, -, -, hcells⟩ := sheet_depicts hreach 262142
  obtain ⟨-, -, -, hbeyond⟩ := sheet_depicts hreach 262143
  have hread : ((lastDays.sheet 262142).cell? 31 12).map (fun cell =>
      (cell.selected, cell.onShowing)) = some ([1], false) ∧
      ((lastDays.sheet 262142).cell? 28 2).map Cell.onShowing = some true := by decide +kernel
  obtain ⟨last, hlast, hdepicts, -⟩ := hcells 31 12 (by decide) (by decide)
  obtain ⟨begun, hbegun, hdepicts', -⟩ := hcells 28 2 (by decide) (by decide)
  obtain ⟨gap, hgap, -, hblank⟩ := hcells 30 2 (by decide) (by decide)
  obtain ⟨beyond, hcell, -, hblank'⟩ := hbeyond 1 1 (by decide) (by decide)
  rw [hlast, hbegun] at hread
  obtain ⟨hlast', hbegun'⟩ := hread
  obtain ⟨hselected, hshowing⟩ := Prod.mk.inj (Option.some.inj hlast')
  refine ⟨hreach, ⟨last, hlast, hdepicts _, hselected, hshowing⟩,
    ⟨begun, hbegun, hdepicts' _, Option.some.inj hbegun'⟩, ?_, ?_⟩
  · rw [hgap, hblank (by decide)]
    rfl
  · rw [hcell, hblank' (by decide)]
    rfl

end Editor
end PressCalendar
