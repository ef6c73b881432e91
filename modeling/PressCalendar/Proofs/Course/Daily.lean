/-
What appears during a course, day by day.

A chronological list is known once its entries on each date are known, which is
`eq_of_entriesOn`.  `Records` says what a list of all that appears has to be on the days of
a complete block and on all others, so there is only one such list, and
`records_iff_of_reachable` says that the appearances of a course are that list.
-/
import Mathlib.Data.List.Nodup
import PressCalendar.Proofs.Course.Appearances

namespace PressCalendar

variable {as bs : List Appearance} {date : Date}

theorem Date.nodup_of_ascending {dates : List Date} (h : dates.Pairwise (· < ·)) :
    dates.Nodup := by
  refine h.imp ?_
  rintro date _ hlt rfl
  exact lt_irrefl date hlt

/-! ## The entries on a date -/

def entriesOn (date : Date) (as : List Appearance) : List Appearance :=
  as.filter fun a => a.date = date

theorem entriesOn_of_forall_eq (h : ∀ a ∈ as, a.date = date) : entriesOn date as = as :=
  List.filter_eq_self.2 fun a ha => decide_eq_true (h a ha)

theorem entriesOn_of_forall_ne (h : ∀ a ∈ as, a.date ≠ date) : entriesOn date as = [] :=
  List.filter_eq_nil_iff.2 fun a ha hdate => h a ha (of_decide_eq_true hdate)

theorem entriesOn_flatMap {α : Type} (date : Date) (xs : List α) (f : α → List Appearance) :
    entriesOn date (xs.flatMap f) = xs.flatMap fun x => entriesOn date (f x) :=
  List.filter_flatMap

/-- The first of a chronological list is on the earliest of its dates. -/
theorem head_le {a b : Appearance} (h : (b :: bs).Pairwise fun x y => x.date ≤ y.date)
    (hentry : entriesOn a.date (b :: bs) ≠ []) : b.date ≤ a.date := by
  obtain ⟨x, hx⟩ := List.exists_mem_of_ne_nil _ hentry
  obtain ⟨hmem, hdate⟩ := List.mem_filter.1 hx
  rw [← of_decide_eq_true hdate]
  rcases List.mem_cons.1 hmem with rfl | hmem
  · exact Date.le_refl _
  · exact List.rel_of_pairwise_cons h hmem

/-- Chronological lists with the same entries on each date are the same. -/
theorem eq_of_entriesOn (ha : as.Pairwise fun x y => x.date ≤ y.date)
    (hb : bs.Pairwise fun x y => x.date ≤ y.date)
    (h : ∀ date, entriesOn date as = entriesOn date bs) : as = bs := by
  -- neither list can begin before the other, and on the same date they begin alike
  induction as generalizing bs with
  | nil =>
    cases bs with
    | nil => rfl
    | cons b bs =>
      have hnone := h b.date
      simp [entriesOn] at hnone
  | cons a as ih =>
    cases bs with
    | nil =>
      have hnone := h a.date
      simp [entriesOn] at hnone
    | cons b bs =>
      have hba : b.date ≤ a.date := head_le hb (by rw [← h]; simp [entriesOn])
      have hab : a.date ≤ b.date := head_le ha (by rw [h]; simp [entriesOn])
      have hdate := Date.le_antisymm hab hba
      have hhead := h a.date
      simp only [entriesOn, List.filter_cons, decide_true, if_true, hdate, List.cons.injEq]
        at hhead
      obtain ⟨rfl, -⟩ := hhead
      refine congrArg (a :: ·) (ih ha.of_cons hb.of_cons ?_)
      intro date
      have hrest := h date
      simp only [entriesOn, List.filter_cons] at hrest
      split at hrest
      · exact List.tail_eq_of_cons_eq hrest
      · exact hrest

/-- Of the parts of a list all but one may be empty. -/
theorem flatMap_eq_of_mem {α β : Type} {xs : List α} {f : α → List β} {x : α}
    (hnodup : xs.Nodup) (hx : x ∈ xs) (h : ∀ y ∈ xs, y ≠ x → f y = []) :
    xs.flatMap f = f x := by
  obtain ⟨front, back, rfl⟩ := List.append_of_mem hx
  have hnot := (List.nodup_cons.1 (List.nodup_middle.1 hnodup)).1
  have hempty : ∀ y ∈ front ++ back, f y = [] := by
    intro y hy
    refine h y ?_ (fun heq => hnot (heq ▸ hy))
    rcases List.mem_append.1 hy with hy | hy
    · exact List.mem_append_left _ hy
    · exact List.mem_append_right _ (List.mem_cons_of_mem x hy)
  have hfront : front.flatMap f = [] :=
    List.flatMap_eq_nil_iff.2 fun y hy => hempty y (List.mem_append_left back hy)
  have hback : back.flatMap f = [] :=
    List.flatMap_eq_nil_iff.2 fun y hy => hempty y (List.mem_append_right front hy)
  rw [List.flatMap_append, List.flatMap_cons, hfront, hback, List.nil_append, List.append_nil]

theorem entriesOn_filter {dates : List Date} (h : date ∈ dates) :
    entriesOn date (as.filter fun a => a.date ∈ dates) = entriesOn date as := by
  unfold entriesOn
  rw [List.filter_filter]
  refine List.filter_congr fun a _ => ?_
  by_cases hdate : a.date = date <;> simp [hdate, h]

/-- What is taken out of a chronological list date by date is what it has on those dates. -/
theorem flatMap_entriesOn {dates : List Date} (has : as.Pairwise fun x y => x.date ≤ y.date)
    (hdates : dates.Pairwise (· < ·)) :
    (dates.flatMap fun date => entriesOn date as) = as.filter fun a => a.date ∈ dates := by
  have hon : ∀ date, ∀ a ∈ entriesOn date as, a.date = date := fun date a ha =>
    of_decide_eq_true (List.mem_filter.1 ha).2
  refine eq_of_entriesOn ?_ (has.filter _) ?_
  · refine List.pairwise_flatMap.2 ⟨fun date _ => has.filter _, hdates.imp ?_⟩
    intro date later hlt x hx y hy
    rw [hon date x hx, hon later y hy]
    exact Date.le_of_lt hlt
  · intro date
    rw [entriesOn_flatMap]
    by_cases hdate : date ∈ dates
    · rw [flatMap_eq_of_mem (Date.nodup_of_ascending hdates) hdate, entriesOn_filter hdate]
      · exact entriesOn_of_forall_eq (hon date)
      · intro other _ hne
        exact entriesOn_of_forall_ne fun a ha => hon other a ha ▸ hne
    · have hnone : entriesOn date (as.filter fun a => a.date ∈ dates) = [] :=
        entriesOn_of_forall_ne fun a ha heq =>
          hdate (heq ▸ of_decide_eq_true (List.mem_filter.1 ha).2)
      rw [hnone]
      refine List.flatMap_eq_nil_iff.2 fun other hother => ?_
      refine entriesOn_of_forall_ne fun a ha heq => hdate ?_
      rwa [← heq, hon other a ha]

/-! ## Blocks -/

namespace Block

theorem entriesOn_appearances_of_mem {b : Block} (h : date ∈ b.dates) :
    entriesOn date b.appearances = b.appearancesOn date := by
  rw [appearances_eq, entriesOn_flatMap,
    flatMap_eq_of_mem (Date.nodup_of_ascending b.pairwise_dates) h]
  · exact entriesOn_of_forall_eq fun a ha => date_of_mem_appearancesOn ha
  · intro other _ hne
    refine entriesOn_of_forall_ne fun a ha => ?_
    rw [date_of_mem_appearancesOn ha]
    exact hne

theorem entriesOn_appearances_of_notMem {b : Block} (h : date ∉ b.dates) :
    entriesOn date b.appearances = [] :=
  entriesOn_of_forall_ne fun _ ha heq => h (heq ▸ date_mem_dates ha)

end Block

/-! ## Courses -/

namespace Course

/-- What a list of all that appears during a course has to be: chronological, on each day
of a complete block an entry for each issue that matches the day, in the order of the
issues, and nothing on any other day. -/
structure Records (c : Course) (as : List Appearance) : Prop where
  chronological : as.Pairwise fun a b => a.date ≤ b.date
  daily : ∀ b ∈ c.blocks, ∀ first ∈ b.first, ∀ last ∈ b.last, ∀ date, first ≤ date →
    date ≤ last → entriesOn date as =
      (b.issues.filter (·.appearsOn date)).map fun issue => ⟨date, issue.heading⟩
  within : ∀ a ∈ as, ∃ b ∈ c.blocks, ∃ first ∈ b.first, ∃ last ∈ b.last,
    first ≤ a.date ∧ a.date ≤ last

variable {c : Course}

theorem Records.eq (ha : c.Records as) (hb : c.Records bs) : as = bs := by
  refine eq_of_entriesOn ha.chronological hb.chronological ?_
  intro date
  by_cases hday : ∃ b ∈ c.blocks, ∃ first ∈ b.first, ∃ last ∈ b.last, first ≤ date ∧ date ≤ last
  · obtain ⟨b, hmem, first, hfirst, last, hlast, hle, hle'⟩ := hday
    rw [ha.daily b hmem first hfirst last hlast date hle hle',
      hb.daily b hmem first hfirst last hlast date hle hle']
  · have hnone : ∀ {cs : List Appearance}, c.Records cs → entriesOn date cs = [] := fun hc =>
      entriesOn_of_forall_ne fun a ha heq => hday (heq ▸ hc.within a ha)
    rw [hnone ha, hnone hb]

/-- On a day of a block nothing appears but what appears during the block. -/
theorem Valid.entriesOn_appearances {b : Block} (h : c.Valid) (hb : b ∈ c.blocks)
    (hdate : date ∈ b.dates) : entriesOn date c.appearances = b.appearancesOn date := by
  rw [appearances, entriesOn_flatMap, flatMap_eq_of_mem (h.distinct.of_map Block.id) hb]
  · exact Block.entriesOn_appearances_of_mem hdate
  · intro other hother hne
    refine Block.entriesOn_appearances_of_notMem fun hdate' => hne ?_
    exact h.eq_of_covers hother hb (Block.mem_dates_iff.1 hdate').2
      (Block.mem_dates_iff.1 hdate).2

theorem entriesOn_appearances_of_forall_notMem (h : ∀ b ∈ c.blocks, date ∉ b.dates) :
    entriesOn date c.appearances = [] := by
  rw [appearances, entriesOn_flatMap]
  exact List.flatMap_eq_nil_iff.2 fun b hb => Block.entriesOn_appearances_of_notMem (h b hb)

theorem Valid.records_appearances (h : c.Valid) : c.Records c.appearances where
  chronological := h.pairwise_appearances
  daily := by
    intro b hb first hfirst last hlast date hle hle'
    exact h.entriesOn_appearances hb
      (Block.mem_dates_iff_between.2 ⟨first, hfirst, last, hlast, hle, hle'⟩)
  within := by
    intro a ha
    obtain ⟨b, hb, hab⟩ := List.mem_flatMap.1 ha
    exact ⟨b, hb, Block.mem_dates_iff_between.1 (Block.date_mem_dates hab)⟩

/-- The appearances of a course that can be reached are the one list that records it, and
they are as many as are counted. -/
theorem records_iff_of_reachable (h : c.Reachable) :
    (∀ as, c.Records as ↔ as = c.appearances) ∧
      c.appearances.length = c.countAppearances := by
  have hrecords := (sound_of_reachable h).toValid.records_appearances
  refine ⟨?_, c.length_appearances⟩
  intro as
  constructor
  · intro has
    exact has.eq hrecords
  · rintro rfl
    exact hrecords

/-- Two issues of which the first one has a weekday and both have an addition. -/
def begun.block (first last : Option Date) : Block where
  id := 1
  first := first
  last := last
  issues := [Issue.made "Morning" [.setRegular .tue true, .addAddition ⟨1856, 2, 1, by decide⟩],
    Issue.made "Evening" [.addAddition ⟨1856, 1, 8, by decide⟩]]

/-- A course of a block with an addition after its last day, and one that is only begun. -/
def begun : Course :=
  (empty.perform
    (.add (begun.block (some ⟨1856, 1, 1, by decide⟩) (some ⟨1856, 1, 8, by decide⟩)))).perform
    (.add (begun.block (some ⟨1856, 2, 1, by decide⟩) none))

theorem records_iff_of_reachable_begun :
    begun.Reachable ∧ begun.blocks.length = 2 ∧ begun.Records begun.appearances ∧
      begun.appearances.map Appearance.heading = ["Morning", "Morning", "Evening"] ∧
      begun.appearances.length = begun.countAppearances := by
  have held : ∀ first last, Block.Obtained ⟨1, first, last, []⟩ →
      (begun.block first last).Obtained := by
    intro first last hdated
    exact (hdated.revise (.add "Morning" [.setRegular .tue true,
      .addAddition ⟨1856, 2, 1, by decide⟩])).revise
        (.add "Evening" [.addAddition ⟨1856, 1, 8, by decide⟩])
  have hcomplete : Block.Obtained
      ⟨1, some ⟨1856, 1, 1, by decide⟩, some ⟨1856, 1, 8, by decide⟩, []⟩ :=
    (Block.Obtained.new .empty).withPeriod (by decide)
  have hunfinished : Block.Obtained ⟨1, some ⟨1856, 2, 1, by decide⟩, none, []⟩ :=
    @Block.Obtained.redate (Block.blank 1) _ (.first ⟨1856, 2, 1, by decide⟩) (.new .empty) rfl
  have hreach : begun.Reachable :=
    (Reachable.empty.given (held _ _ hcomplete)).given (held _ _ hunfinished)
  obtain ⟨hrecords, hcount⟩ := records_iff_of_reachable hreach
  exact ⟨hreach, by decide +kernel, (hrecords _).2 rfl, by decide +kernel, hcount⟩

end Course
end PressCalendar
