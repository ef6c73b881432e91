/-
Which days of the calendar a course occupies.

Since its blocks are in order and share no day, a course is known from its ends: it begins
where its first block begins and ends where its last block ends, and on each day in between at
most one block is found, by halving as well as by looking at all of them.  `IsLastDay` says
what it is that `last?` computes.
-/
import PressCalendar.Proofs.Course.Invariant

namespace PressCalendar

/-! ## Earliest and latest dates -/

namespace Date

theorem min_def (a b : Date) : min a b = if a ≤ b then a else b := rfl

theorem max_def (a b : Date) : max a b = if a ≤ b then b else a := rfl

instance : Std.IsLinearOrder Date where
  le_refl := le_refl
  le_trans _ _ _ := le_trans
  le_antisymm _ _ := le_antisymm
  le_total a b := Int.le_total a.rank b.rank

instance : Std.LawfulOrderMin Date where
  min_eq_or a b := by
    rw [min_def]
    split <;> simp
  le_min_iff a b c := by
    rw [min_def]
    by_cases h : b ≤ c
    · rw [if_pos h]
      exact ⟨fun hab => ⟨hab, le_trans hab h⟩, And.left⟩
    · rw [if_neg h]
      exact ⟨fun hac => ⟨le_trans hac (le_of_lt (not_le.1 h)), hac⟩, And.right⟩

instance : Std.LawfulOrderMax Date where
  max_eq_or a b := by
    rw [max_def]
    split <;> simp
  max_le_iff a b c := by
    rw [max_def]
    by_cases h : a ≤ b
    · rw [if_pos h]
      exact ⟨fun hbc => ⟨le_trans h hbc, hbc⟩, And.right⟩
    · rw [if_neg h]
      exact ⟨fun hac => ⟨hac, le_trans (le_of_lt (not_le.1 h)) hac⟩, And.left⟩

end Date

/-- Of entries that exclude each other the first one that is found is the only one. -/
theorem filter_eq_toList_find? {α : Type} {p : α → Bool} {xs : List α}
    (h : xs.Pairwise fun x y => p x = true → p y = false) :
    xs.filter p = (xs.find? p).toList := by
  induction xs with
  | nil => rfl
  | cons x xs ih =>
    obtain ⟨hx, hxs⟩ := List.pairwise_cons.1 h
    by_cases hp : p x = true
    · have hrest : xs.filter p = [] := by
        rw [List.filter_eq_nil_iff]
        intro y hy
        rw [hx y hy hp]
        exact Bool.false_ne_true
      rw [List.filter_cons_of_pos hp, List.find?_cons_of_pos hp, hrest]
      rfl
    · rw [List.filter_cons_of_neg hp, List.find?_cons_of_neg hp, ih hxs]

theorem Block.covers_iff_exists {b : Block} {date : Date} : b.covers date = true ↔
    ∃ first last, b.span? = some (first, last) ∧ first ≤ date ∧ date ≤ last := by
  constructor
  · intro h
    obtain ⟨⟨first, last⟩, hspan⟩ := Option.isSome_iff_exists.1 (span?_isSome_of_covers h)
    exact ⟨first, last, hspan, (covers_iff hspan).1 h⟩
  · intro ⟨first, last, hspan, hwithin⟩
    exact (covers_iff hspan).2 hwithin

namespace Course

variable {c : Course} {blocks : List Block} {b : Block} {date : Date}

/-! ## The block on a date -/

theorem InOrder.pairwise_covers (h : InOrder blocks) (date : Date) :
    blocks.Pairwise fun x y => x.covers date = true → y.covers date = false := by
  refine h.ascending.imp_of_mem ?_
  intro x y hx hy hp hcovers
  obtain ⟨first, last, hxs, -⟩ := h.span hx
  obtain ⟨first', last', hys, -⟩ := h.span hy
  rw [Block.precedes_iff hxs hys] at hp
  rw [Block.covers_iff hxs] at hcovers
  rw [Bool.eq_false_iff, Ne, Block.covers_iff hys]
  simp only [Date.le_def, Date.lt_def] at *
  omega

/-- Halving finds what a look at every block finds, and that is at most one. -/
theorem InOrder.filter_covers (h : InOrder c.blocks) (date : Date) :
    c.blocks.filter (·.covers date) = (c.blockOn? date).toList := by
  rw [blockOn?_eq_find? h]
  exact filter_eq_toList_find? (h.pairwise_covers date)

theorem InOrder.blockOn?_eq_some_iff (h : InOrder c.blocks) :
    c.blockOn? date = some b ↔ b ∈ c.blocks ∧ b.covers date = true := by
  rw [← Option.mem_toList, ← h.filter_covers, List.mem_filter]

/-! ## The ends of a course -/

theorem InOrder.first?_eq (h : InOrder c.blocks) :
    c.first? = c.blocks.head?.bind Block.start? := by
  unfold first?
  cases hblocks : c.blocks with
  | nil => rfl
  | cons b blocks =>
    rw [hblocks] at h
    obtain ⟨first, last, hspan, -⟩ := h.span List.mem_cons_self
    have hstart := Block.start?_eq hspan
    have hlater := (List.pairwise_cons.1 h.starts_ascending).1
    show ((b :: blocks).filterMap Block.start?).min? = b.start?
    rw [hstart, List.min?_eq_some_iff]
    refine ⟨List.mem_filterMap.2 ⟨b, List.mem_cons_self, hstart⟩, ?_⟩
    intro start hmem
    obtain ⟨other, hother, hfound⟩ := List.mem_filterMap.1 hmem
    rcases List.mem_cons.1 hother with rfl | hother
    · rw [hstart] at hfound
      cases hfound
      exact Date.le_refl first
    · exact Date.le_of_lt (hlater other hother first hstart start hfound)

theorem InOrder.last?_eq (h : InOrder c.blocks) :
    c.last? = c.blocks.getLast?.bind Block.stop? := by
  unfold last?
  rcases List.eq_nil_or_concat c.blocks with hblocks | ⟨blocks, b, hblocks⟩
  · rw [hblocks]
    rfl
  · rw [List.concat_eq_append] at hblocks
    rw [hblocks] at h ⊢
    obtain ⟨first, last, hspan, hle⟩ := h.span (b := b) (by simp)
    have hstop := Block.stop?_eq hspan
    have hearlier := (List.pairwise_append.1 h.ascending).2.2
    rw [List.getLast?_concat, Option.bind_some, hstop, List.max?_eq_some_iff]
    refine ⟨List.mem_filterMap.2 ⟨b, by simp, hstop⟩, ?_⟩
    intro stop hmem
    obtain ⟨other, hother, hfound⟩ := List.mem_filterMap.1 hmem
    rcases List.mem_append.1 hother with hother | hother
    · have hp := hearlier other hother b (List.mem_singleton.2 rfl)
      have hlt := hp stop hfound first (Block.start?_eq hspan)
      exact Date.le_trans (Date.le_of_lt hlt) hle
    · rw [List.mem_singleton.1 hother, hstop] at hfound
      cases hfound
      exact Date.le_refl last

theorem InOrder.exists_first?_le (h : InOrder c.blocks) (hb : b ∈ c.blocks)
    (hcovers : b.covers date = true) : ∃ first, c.first? = some first ∧ first ≤ date := by
  obtain ⟨start, stop, hspan, -⟩ := h.span hb
  have hmem : start ∈ c.blocks.filterMap Block.start? :=
    List.mem_filterMap.2 ⟨b, hb, Block.start?_eq hspan⟩
  obtain ⟨first, hfirst⟩ := Option.isSome_iff_exists.1 (List.isSome_min?_of_mem hmem)
  have hle := (List.min?_eq_some_iff.1 hfirst).2 start hmem
  exact ⟨first, hfirst, Date.le_trans hle ((Block.covers_iff hspan).1 hcovers).1⟩

theorem InOrder.exists_le_last? (h : InOrder c.blocks) (hb : b ∈ c.blocks)
    (hcovers : b.covers date = true) : ∃ last, c.last? = some last ∧ date ≤ last := by
  obtain ⟨start, stop, hspan, -⟩ := h.span hb
  have hmem : stop ∈ c.blocks.filterMap Block.stop? :=
    List.mem_filterMap.2 ⟨b, hb, Block.stop?_eq hspan⟩
  obtain ⟨last, hlast⟩ := Option.isSome_iff_exists.1 (List.isSome_max?_of_mem hmem)
  have hle := (List.max?_eq_some_iff.1 hlast).2 stop hmem
  exact ⟨last, hlast, Date.le_trans ((Block.covers_iff hspan).1 hcovers).2 hle⟩

/-- The last of the days on which there is a block. -/
def IsLastDay (c : Course) (date : Date) : Prop :=
  (∃ b ∈ c.blocks, b.covers date = true) ∧
    ∀ b ∈ c.blocks, ∀ other, b.covers other = true → other ≤ date

theorem InOrder.last?_eq_some_iff (h : InOrder c.blocks) :
    c.last? = some date ↔ c.IsLastDay date := by
  constructor
  · intro hlast
    obtain ⟨b, hb, hstop⟩ := List.mem_filterMap.1 (List.max?_eq_some_iff.1 hlast).1
    obtain ⟨first, last, hspan, hle⟩ := h.span hb
    rw [Block.stop?_eq hspan] at hstop
    cases hstop
    refine ⟨⟨b, hb, (Block.covers_iff hspan).2 ⟨hle, Date.le_refl _⟩⟩, ?_⟩
    intro other hother day hcovers
    obtain ⟨last', hlast', hday⟩ := h.exists_le_last? hother hcovers
    rw [hlast] at hlast'
    cases hlast'
    exact hday
  · intro hday
    obtain ⟨⟨b, hb, hcovers⟩, hlatest⟩ := hday
    obtain ⟨last, hlast, hle⟩ := h.exists_le_last? hb hcovers
    obtain ⟨other, hother, hstop⟩ := List.mem_filterMap.1 (List.max?_eq_some_iff.1 hlast).1
    obtain ⟨first, stop, hspan, hordered⟩ := h.span hother
    rw [Block.stop?_eq hspan] at hstop
    cases hstop
    have hge := hlatest other hother _ ((Block.covers_iff hspan).2 ⟨hordered, Date.le_refl _⟩)
    rw [hlast, Date.le_antisymm hge hle]

/-- In every course that can be reached a date is looked up right.  The block that halving finds
is the one whose days the date is among, there is never a second one, and where none is found
there is none.  The course begins with its first block and ends with its last one, and every
date that is found lies between these ends. -/
theorem blockOn?_scans (h : c.Reachable) :
    (∀ date,
      (∀ b, c.blockOn? date = some b ↔ b ∈ c.blocks ∧ ∃ first last,
        b.span? = some (first, last) ∧ first ≤ date ∧ date ≤ last) ∧
      (c.blockOn? date = none ↔ ¬∃ b ∈ c.blocks, ∃ first last,
        b.span? = some (first, last) ∧ first ≤ date ∧ date ≤ last) ∧
      c.blocks.filter (·.covers date) = (c.blockOn? date).toList ∧
      ∀ b, c.blockOn? date = some b → ∃ first last, c.first? = some first ∧
        c.last? = some last ∧ first ≤ date ∧ date ≤ last) ∧
    c.first? = c.blocks.head?.bind Block.start? ∧
    c.last? = c.blocks.getLast?.bind Block.stop? := by
  have horder := (sound_of_reachable h).toInOrder
  refine ⟨?_, horder.first?_eq, horder.last?_eq⟩
  intro date
  simp only [← Block.covers_iff_exists]
  refine ⟨fun b => horder.blockOn?_eq_some_iff, ?_, horder.filter_covers date, ?_⟩
  · rw [← blockOn?_isSome_iff horder, Option.not_isSome_iff_eq_none]
  · intro b hb
    obtain ⟨hmem, hcovers⟩ := horder.blockOn?_eq_some_iff.1 hb
    obtain ⟨first, hfirst, hle⟩ := horder.exists_first?_le hmem hcovers
    obtain ⟨last, hlast, hle'⟩ := horder.exists_le_last? hmem hcovers
    exact ⟨first, last, hfirst, hlast, hle, hle'⟩

/-- A course of half a year, of the day after it, on which a block is only begun, and of a later
year. -/
def gapped : Course :=
  ((Course.empty.perform
    (.add ⟨1, some ⟨1848, 1, 1, by decide⟩, some ⟨1848, 12, 31, by decide⟩, []⟩)).perform
    (.add ⟨1, some ⟨1846, 7, 1, by decide⟩, none, []⟩)).perform
    (.add ⟨1, some ⟨1846, 1, 1, by decide⟩, some ⟨1846, 6, 30, by decide⟩, []⟩)

theorem blockOn?_scans_gapped :
    gapped.Reachable ∧ gapped.blocks.map Block.id = [3, 2, 1] ∧
      (gapped.blockOn? ⟨1846, 7, 1, by decide⟩ =
          some ⟨2, some ⟨1846, 7, 1, by decide⟩, none, []⟩ ∧
        ⟨2, some ⟨1846, 7, 1, by decide⟩, none, []⟩ ∈ gapped.blocks) ∧
      (gapped.blocks.filter (·.covers ⟨1847, 1, 1, by decide⟩) =
          (gapped.blockOn? ⟨1847, 1, 1, by decide⟩).toList ∧
        gapped.blockOn? ⟨1847, 1, 1, by decide⟩ = none) ∧
      gapped.first? = some ⟨1846, 1, 1, by decide⟩ ∧
      gapped.last? = some ⟨1848, 12, 31, by decide⟩ := by
  have hblank : (Block.blank 1).Obtained := .new .empty
  have hbegun : Block.Obtained ⟨1, some ⟨1846, 7, 1, by decide⟩, none, []⟩ :=
    @Block.Obtained.redate _ _ (.first ⟨1846, 7, 1, by decide⟩) hblank rfl
  have hreach : gapped.Reachable :=
    ((Reachable.empty.given (hblank.withPeriod (by decide))).given hbegun).given
      (hblank.withPeriod (by decide))
  obtain ⟨hdates, hfirst, hlast⟩ := blockOn?_scans hreach
  obtain ⟨hfound, -, -, -⟩ := hdates ⟨1846, 7, 1, by decide⟩
  obtain ⟨-, -, hscan, -⟩ := hdates ⟨1847, 1, 1, by decide⟩
  have hb : gapped.blockOn? ⟨1846, 7, 1, by decide⟩ =
      some ⟨2, some ⟨1846, 7, 1, by decide⟩, none, []⟩ := by decide +kernel
  exact ⟨hreach, by decide +kernel, ⟨hb, ((hfound _).1 hb).1⟩,
    ⟨hscan, by decide +kernel⟩, hfirst.trans (by decide +kernel), hlast.trans (by decide +kernel)⟩

end Course
end PressCalendar
