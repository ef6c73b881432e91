/-
Calendar sheets and the list of what appears.

The sheet of a year is filled by a walk over its days, the list of appearances is made block
by block.  `marked` reads the sheet month by month and day by day, and `marked_appearances`
says that it finds what the list has for the year.  Both are chronological, so it is enough
to compare them on each date, which is `marked_cellAt`.
-/
import Mathlib.Algebra.BigOperators.Group.Finset.Basic
import PressCalendar.Proofs.Course.Daily
import PressCalendar.Proofs.Editor.Sheet

namespace PressCalendar

variable {year : Int} {date : Date}

/-- What an option says about its issue, if it is marked. -/
def IssueOption.appearance (o : IssueOption) : Appearance := ⟨o.date, o.heading⟩

namespace Course

/-- Whether a date lies on a complete block. -/
def isCompleteOn (c : Course) (date : Date) : Bool :=
  c.blocks.any fun b => b.isComplete && b.covers date

/-- The years that a course touches: those of the days of its blocks. -/
def years (c : Course) : Finset Int :=
  (c.blocks.flatMap fun b => match b.span? with
    | some (first, last) => (Date.closedRange first last).map Date.year
    | none => []).toFinset

theorem mem_years_iff {c : Course} :
    year ∈ c.years ↔ ∃ b ∈ c.blocks, ∃ date, b.Occupies date ∧ date.year = year := by
  rw [years, List.mem_toFinset, List.mem_flatMap]
  refine exists_congr fun b => and_congr_right fun _ => ?_
  simp only [← Block.covers_iff_occupies, Block.covers]
  cases b.span? with
  | none => simp
  | some range => simp [Date.mem_closedRange_iff]

end Course

namespace YearSheet

/-- The marked options on a sheet, month by month and day by day, as far as they lie on
complete blocks. -/
def marked (sheet : YearSheet) (c : Course) : List IssueOption :=
  (List.range 12).flatMap fun month => (List.range 31).flatMap fun day =>
    match sheet.cell? (day + 1) (month + 1) with
    | some cell => if cell.date.any c.isCompleteOn then cell.options.filter (·.selected) else []
    | none => []

/-- The dates of a year in the order in which a sheet is read. -/
def dates (year : Int) : List Date :=
  (List.range 12).flatMap fun month => (List.range 31).filterMap fun day =>
    Date.of? year (month + 1) (day + 1)

theorem mem_dates_iff_year : date ∈ dates year ↔ date.year = year := by
  simp only [dates, List.mem_flatMap, List.mem_filterMap, List.mem_range, Date.of?_eq_some_iff]
  constructor
  · rintro ⟨month, -, day, -, hyear, -⟩
    exact hyear
  · intro hyear
    have hmonth := date.month_pos
    have hmonth' := date.month_le
    have hday := date.day_pos
    have hday' := date.day_le
    exact ⟨date.month - 1, by omega, date.day - 1, by omega, hyear, by omega, by omega⟩

theorem ascending_dates (year : Int) : (dates year).Pairwise (· < ·) := by
  refine List.pairwise_flatMap.2 ⟨?_, List.pairwise_lt_range.imp ?_⟩
  · intro month _
    refine List.pairwise_filterMap.2 (List.pairwise_lt_range.imp ?_)
    intro day later hlt d hd e he
    obtain ⟨hyear, hmonth, hday⟩ := Date.of?_eq_some_iff.1 hd
    obtain ⟨hyear', hmonth', hday'⟩ := Date.of?_eq_some_iff.1 he
    rw [Date.lt_iff]
    omega
  · intro month later hlt d hd e he
    obtain ⟨_, -, hd⟩ := List.mem_filterMap.1 hd
    obtain ⟨_, -, he⟩ := List.mem_filterMap.1 he
    obtain ⟨hyear, hmonth, -⟩ := Date.of?_eq_some_iff.1 hd
    obtain ⟨hyear', hmonth', -⟩ := Date.of?_eq_some_iff.1 he
    rw [Date.lt_iff]
    omega

end YearSheet

/-- Marking the items of a list and dropping the places again. -/
theorem map_filter_mapIdx {α β γ : Type} {f : Nat → α → β} {p : β → Bool} {q : α → Bool}
    {k : β → γ} {l : α → γ} (hp : ∀ i x, p (f i x) = q x) (hk : ∀ i x, k (f i x) = l x)
    (xs : List α) : ((xs.mapIdx f).filter p).map k = (xs.filter q).map l := by
  induction xs generalizing f with
  | nil => rfl
  | cons x xs ih =>
    have hrest := ih (f := fun i => f (i + 1)) (fun i => hp (i + 1)) (fun i => hk (i + 1))
    rw [List.mapIdx_cons, List.filter_cons, List.filter_cons, hp]
    split
    · rw [List.map_cons, List.map_cons, hk, hrest]
    · exact hrest

namespace Editor

open YearSheet (dates)

variable {e : Editor}

theorem marked_optionsOn (e : Editor) (b : Block) (date : Date) :
    ((e.optionsOn b date).filter (·.selected)).map IssueOption.appearance =
      b.appearancesOn date := by
  refine map_filter_mapIdx ?_ ?_ b.issues
  · intro index issue
    rfl
  · intro index issue
    rfl

/-- The cell of a date and the list of appearances agree on the date. -/
theorem marked_cellAt (h : e.course.Valid) (date : Date) :
    (if e.course.isCompleteOn date then (e.cellAt date).options.filter (·.selected)
      else []).map IssueOption.appearance = entriesOn date e.course.appearances := by
  split
  · case isTrue hcomplete =>
    obtain ⟨b, hb, hdate⟩ := List.any_eq_true.1 hcomplete
    rw [Bool.and_eq_true] at hdate
    rw [h.entriesOn_appearances hb (Block.mem_dates_iff.2 hdate), cellAt,
      h.find?_covers hb hdate.2]
    exact e.marked_optionsOn b date
  · case isFalse hnot =>
    refine (Course.entriesOn_appearances_of_forall_notMem fun b hb hdate => hnot ?_).symm
    refine List.any_eq_true.2 ⟨b, hb, ?_⟩
    rw [Bool.and_eq_true]
    exact Block.mem_dates_iff.1 hdate

/-- Reading a sheet is going through the list of appearances date by date. -/
theorem map_marked_eq_flatMap (h : e.course.Valid) (year : Int) :
    ((e.sheet year).marked e.course).map IssueOption.appearance =
      (dates year).flatMap fun date => entriesOn date e.course.appearances := by
  rw [YearSheet.marked, dates, List.map_flatMap, List.flatMap_assoc]
  refine List.flatMap_congr fun month hmonth => ?_
  rw [List.map_flatMap, List.filterMap_eq_flatMap_toList, List.flatMap_assoc]
  refine List.flatMap_congr fun day hday => ?_
  rw [List.mem_range] at hmonth hday
  rw [cell?_sheet h.toInOrder (by omega) (by omega)]
  cases Date.of? year (month + 1) (day + 1) with
  | none => rfl
  | some date =>
    simp only [Option.map_some, Option.getD_some, date_cellAt, Option.any_some,
      Option.toList_some, List.flatMap_singleton]
    exact marked_cellAt h date

theorem map_marked_sheet (h : e.course.Valid) (year : Int) :
    ((e.sheet year).marked e.course).map IssueOption.appearance =
      e.course.appearances.filter fun a => a.date.year = year := by
  rw [map_marked_eq_flatMap h,
    flatMap_entriesOn h.pairwise_appearances (YearSheet.ascending_dates year)]
  simp only [YearSheet.mem_dates_iff_year]

theorem length_marked (h : e.course.Valid) (year : Int) :
    ((e.sheet year).marked e.course).length =
      Multiset.count year (e.course.appearances.map fun a => a.date.year) := by
  rw [← List.length_map IssueOption.appearance, map_marked_sheet h, Multiset.coe_count,
    List.count, List.countP_map, List.countP_eq_length_filter]
  rfl

/-- Whatever appears does so in a year that the course touches. -/
theorem sum_length_marked (h : e.course.Valid) :
    ∑ year ∈ e.course.years, ((e.sheet year).marked e.course).length =
      e.course.countAppearances := by
  have hyears : ∀ year ∈ (e.course.appearances.map fun a => a.date.year : Multiset Int),
      year ∈ e.course.years := by
    intro year hyear
    obtain ⟨a, ha, rfl⟩ := List.mem_map.1 (Multiset.mem_coe.1 hyear)
    obtain ⟨b, hb, -, hcovers⟩ := e.course.contains_appearances a ha
    exact Course.mem_years_iff.2 ⟨b, hb, a.date, Block.covers_iff_occupies.1 hcovers, rfl⟩
  simp only [length_marked h]
  rw [Multiset.sum_count_eq_card hyears, Multiset.coe_card, List.length_map,
    Course.length_appearances]

/-- The sheet of a year, read month by month and day by day, has marked on complete blocks
what appears in the year, in the order of the list of appearances.  On the sheets of all the
years that the course touches together as many options are marked as appearances are
counted. -/
theorem marked_appearances (h : e.Reachable) :
    (∀ year, ((e.sheet year).marked e.course).map IssueOption.appearance =
      e.course.appearances.filter fun a => a.date.year = year) ∧
    (∀ year, year ∈ e.course.years ↔
      ∃ b ∈ e.course.blocks, ∃ date, b.Occupies date ∧ date.year = year) ∧
    ∑ year ∈ e.course.years, ((e.sheet year).marked e.course).length =
      e.course.countAppearances := by
  have hvalid := (Course.sound_of_reachable (current_of_reachable h).1).toValid
  refine ⟨?_, ?_, sum_length_marked hvalid⟩
  · intro year
    exact map_marked_sheet hvalid year
  · intro year
    exact Course.mem_years_iff

/-- A session with a block from one year to the next, and one that is only begun, on the day
of which an issue is marked as well. -/
def acrossYears : Editor :=
  [.setPeriod "30.12.1860" "2.1.1861", .addIssue "Morning", .addIssue "Evening",
    .toggleIssue 1 1 ⟨1860, 12, 31, by decide⟩, .toggleIssue 1 0 ⟨1860, 12, 31, by decide⟩,
    .toggleIssue 1 1 ⟨1861, 1, 1, by decide⟩, .startNewBlock, .setFirst "1.2.1861",
    .addIssue "Extra", .toggleIssue 2 0 ⟨1861, 2, 1, by decide⟩].foldl perform
    (blank .standard ⟨2024, 6, 7, by decide⟩)

theorem marked_appearances_acrossYears :
    acrossYears.Reachable ∧ acrossYears.course.blocks.length = 2 ∧
      ((acrossYears.sheet 1861).cell? 1 2).map Cell.selected = some [0] ∧
      ((acrossYears.sheet 1860).marked acrossYears.course).map IssueOption.appearance =
        [⟨⟨1860, 12, 31, by decide⟩, "Morning"⟩, ⟨⟨1860, 12, 31, by decide⟩, "Evening"⟩] ∧
      1861 ∈ acrossYears.course.years ∧
      ∑ year ∈ acrossYears.course.years,
        ((acrossYears.sheet year).marked acrossYears.course).length = 3 := by
  have hreach : acrossYears.Reachable := (Reachable.blank _ _).foldl _
  obtain ⟨hlists, hyears, hsum⟩ := marked_appearances hreach
  have hlater : acrossYears.course.blocks.any
      (·.covers ⟨1861, 1, 1, by decide⟩) = true := by decide +kernel
  obtain ⟨b, hb, hcovers⟩ := List.any_eq_true.1 hlater
  refine ⟨hreach, by decide +kernel, by decide +kernel, ?_, ?_, ?_⟩
  · rw [hlists]
    decide +kernel
  · exact (hyears 1861).2 ⟨b, hb, _, Block.covers_iff_occupies.1 hcovers, rfl⟩
  · rw [hsum]
    decide +kernel

end Editor
end PressCalendar
