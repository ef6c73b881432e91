/-
What appears during a course, and when.

Everything that appears does so on a date that a complete block covers, and the
appearances of a course are in chronological order, within a block as well as from
one block to the next.
-/
import PressCalendar.Proofs.Course.Invariant
import PressCalendar.Proofs.Date.Number

namespace PressCalendar

namespace Block

theorem mem_dates_iff_between {b : Block} {date : Date} :
    date ∈ b.dates ↔ ∃ first ∈ b.first, ∃ last ∈ b.last, first ≤ date ∧ date ≤ last := by
  obtain ⟨id, first?, last?, issues⟩ := b
  cases first? <;> cases last? <;> simp [dates, Date.mem_closedRange_iff]

/-- Only a complete block has dates, and they are the ones that it covers. -/
theorem mem_dates_iff {b : Block} {date : Date} :
    date ∈ b.dates ↔ b.isComplete = true ∧ b.covers date = true := by
  rw [mem_dates_iff_between]
  obtain ⟨id, first?, last?, issues⟩ := b
  cases first? <;> cases last? <;> simp [isComplete, covers, span?]

theorem dates_of_not_isComplete {b : Block} (h : b.isComplete = false) : b.dates = [] := by
  unfold dates
  split
  · case h_1 first last hfirst hlast =>
    rw [isComplete, hfirst, hlast] at h
    exact absurd h (by simp)
  · rfl

theorem pairwise_dates (b : Block) : b.dates.Pairwise (· < ·) := by
  unfold dates
  split
  · exact Date.pairwise_run _ _
  · exact List.Pairwise.nil

theorem date_of_mem_appearancesOn {b : Block} {date : Date} {a : Appearance}
    (h : a ∈ b.appearancesOn date) : a.date = date := by
  obtain ⟨issue, -, rfl⟩ := List.mem_map.1 h
  rfl

theorem date_mem_dates {b : Block} {a : Appearance} (h : a ∈ b.appearances) :
    a.date ∈ b.dates := by
  rw [appearances_eq] at h
  obtain ⟨date, hdate, ha⟩ := List.mem_flatMap.1 h
  rw [date_of_mem_appearancesOn ha]
  exact hdate

theorem appearances_of_not_isComplete {b : Block} (h : b.isComplete = false) :
    b.appearances = [] := by
  rw [appearances_eq, dates_of_not_isComplete h, List.flatMap_nil]

theorem pairwise_appearances (b : Block) :
    b.appearances.Pairwise fun x y => x.date ≤ y.date := by
  rw [appearances_eq, List.pairwise_flatMap]
  constructor
  · intro date _
    refine List.pairwise_of_forall_mem_list ?_
    intro x hx y hy
    rw [date_of_mem_appearancesOn hx, date_of_mem_appearancesOn hy]
    exact Date.le_refl date
  · refine b.pairwise_dates.imp ?_
    intro date later hlt x hx y hy
    rw [date_of_mem_appearancesOn hx, date_of_mem_appearancesOn hy]
    exact Date.le_of_lt hlt

theorem Precedes.lt_of_covers {a b : Block} {x y : Date} (h : a.Precedes b)
    (hx : a.covers x = true) (hy : b.covers y = true) : x < y := by
  obtain ⟨⟨first, last⟩, ha⟩ := Option.isSome_iff_exists.1 (span?_isSome_of_covers hx)
  obtain ⟨⟨first', last'⟩, hb⟩ := Option.isSome_iff_exists.1 (span?_isSome_of_covers hy)
  have hx' := (covers_iff ha).1 hx
  have hy' := (covers_iff hb).1 hy
  rw [precedes_iff ha hb] at h
  simp only [Date.le_def, Date.lt_def] at *
  omega

end Block

namespace Course

/-- Every date of a process lies within a complete block. -/
def Contains (c : Course) (p : Process) : Prop :=
  ∀ a ∈ p, ∃ b ∈ c.blocks, b.isComplete = true ∧ b.covers a.date = true

theorem contains_appearances (c : Course) : c.Contains c.appearances := by
  intro a ha
  obtain ⟨b, hb, hab⟩ := List.mem_flatMap.1 ha
  exact ⟨b, hb, Block.mem_dates_iff.1 (Block.date_mem_dates hab)⟩

theorem length_appearances (c : Course) : c.appearances.length = c.countAppearances := by
  unfold appearances countAppearances
  induction c.blocks with
  | nil => rfl
  | cons b blocks ih =>
    rw [List.flatMap_cons, List.length_append, b.length_appearances, ih, List.map_cons,
      List.foldr_cons]

theorem InOrder.pairwise_appearances {c : Course} (h : InOrder c.blocks) :
    c.appearances.Pairwise fun x y => x.date ≤ y.date := by
  rw [appearances, List.pairwise_flatMap]
  refine ⟨fun b _ => b.pairwise_appearances, ?_⟩
  refine h.ascending.imp ?_
  intro a b hab x hx y hy
  have hax := (Block.mem_dates_iff.1 (Block.date_mem_dates hx)).2
  have hby := (Block.mem_dates_iff.1 (Block.date_mem_dates hy)).2
  exact Date.le_of_lt (hab.lt_of_covers hax hby)

theorem contains_of_partition {c : Course} {g : Granularity} {ps : List Process}
    (hg : g ≠ .asImported) (h : c.partition g = .ok ps) : ∀ p ∈ ps, c.Contains p := by
  obtain ⟨-, ⟨himported, -⟩ | ⟨-, rfl⟩⟩ := partition_cases h
  · exact absurd himported hg
  · intro p hp a ha
    refine c.contains_appearances a ?_
    rw [← List.flatten_splitBy g.together c.appearances]
    exact List.mem_flatten_of_mem hp ha

end Course

end PressCalendar
