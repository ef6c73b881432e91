/-
Partitions of a course.

A course in which anything appears can be divided by every granularity, and the
processes are those that the granularity asks for, because the appearances of a course
that can be reached are in chronological order.  Only the imported processes may be
missing.
-/
import PressCalendar.Proofs.Course.Appearances
import PressCalendar.Proofs.Granularity.Group

namespace PressCalendar
namespace Course

variable {c : Course}

theorem partition_of_empty (h : c.appearances = []) (g : Granularity) :
    c.partition g = .error .emptyCourse := by
  rw [partition, h]

theorem partition_of_dated {g : Granularity} (h : c.appearances ≠ []) (hg : g ≠ .asImported) :
    c.partition g = .ok (g.group c.appearances) := by
  unfold partition
  split
  · case h_1 hnone => exact absurd hnone h
  · rw [if_neg hg]

theorem partition_of_imported (h : c.appearances ≠ []) {ps : List Process}
    (himported : c.imported = some ps) : c.partition .asImported = .ok ps := by
  unfold partition
  split
  · case h_1 hnone => exact absurd hnone h
  · simp only [if_true, himported]

theorem partition_of_not_imported (h : c.appearances ≠ []) (himported : c.imported = none) :
    c.partition .asImported =
      .error (.granularityUnavailable "the course carries no imported process boundaries") := by
  unfold partition
  split
  · case h_1 hnone => exact absurd hnone h
  · simp only [if_true, himported]

/-- Only what appears counts, unless it is the imported processes that are asked for. -/
theorem partition_of_appearances {d : Course} {g : Granularity} (hg : g ≠ .asImported)
    (h : d.appearances = c.appearances) : d.partition g = c.partition g := by
  by_cases hempty : c.appearances = []
  · rw [partition_of_empty hempty, partition_of_empty (h.trans hempty)]
  · have hdated : d.appearances ≠ [] := by rwa [h]
    rw [partition_of_dated hempty hg, partition_of_dated hdated hg, h]

/-- Where any other granularity fails, the imported processes cannot be had either. -/
theorem partition_asImported_of_error {g : Granularity} {cause : Error}
    (h : c.partition g = .error cause) : c.partition .asImported = .error cause := by
  by_cases hg : g = .asImported
  · rw [← hg, h]
  · by_cases hempty : c.appearances = []
    · rw [partition_of_empty hempty] at h ⊢
      exact h
    · rw [partition_of_dated hempty hg] at h
      cases h

theorem ne_nil_of_partition {g : Granularity} {ps : List Process}
    (himported : c.imported ≠ some []) (h : c.partition g = .ok ps) :
    c.appearances ≠ [] ∧ ps ≠ [] := by
  obtain ⟨hne, ⟨-, hps⟩ | ⟨-, rfl⟩⟩ := partition_cases h
  · refine ⟨hne, ?_⟩
    intro hnil
    exact himported (hnil ▸ hps)
  · exact ⟨hne, g.group_ne_nil hne⟩

/-- A course that can be reached is divided by every granularity, the imported
processes aside: its processes hold all that appears in its order, and unless each
appearance is to be alone, those of one period are in one process and the periods of
the processes follow each other.  A course in which nothing appears is refused. -/
theorem partition_of_reachable (h : c.Reachable) :
    (c.appearances = [] → ∀ g, c.partition g = .error .emptyCourse) ∧
    (c.appearances ≠ [] →
      (∀ g, g ≠ .asImported → ∃ ps, c.partition g = .ok ps ∧ g.Divides c.appearances ps) ∧
      (∀ ps, c.imported = some ps → c.partition .asImported = .ok ps) ∧
      (c.imported = none → c.partition .asImported =
        .error (.granularityUnavailable "the course carries no imported process boundaries"))) := by
  refine ⟨partition_of_empty, ?_⟩
  intro hne
  refine ⟨?_, ?_, ?_⟩
  · intro g hg
    have hordered := (sound_of_reachable h).toInOrder.pairwise_appearances
    exact ⟨_, partition_of_dated hne hg, Granularity.divides_group hg hordered⟩
  · intro ps himported
    exact partition_of_imported hne himported
  · intro himported
    exact partition_of_not_imported hne himported

/-- A block with an issue on its first and on its last day. -/
def newYear.block (first last : Date) : Block where
  id := 1
  first := some first
  last := some last
  issues := [Issue.made "Daily" [.addAddition first, .addAddition last]]

/-- A course of two blocks that meet within a week. -/
def newYear : Course :=
  (Course.empty.perform
    (.add (newYear.block ⟨2021, 1, 1, by decide⟩ ⟨2021, 1, 4, by decide⟩))).perform
    (.add (newYear.block ⟨2020, 12, 27, by decide⟩ ⟨2020, 12, 31, by decide⟩))

theorem partition_of_reachable_newYear :
    newYear.Reachable ∧ newYear.blocks.length = 2 ∧
      (∃ ps, newYear.partition .weeks = .ok ps ∧ Granularity.weeks.Divides newYear.appearances ps ∧
        ps.length = 3) ∧
      newYear.partition .asImported =
        .error (.granularityUnavailable "the course carries no imported process boundaries") ∧
      empty.partition .weeks = .error .emptyCourse := by
  have held : ∀ first last, first ≤ last → Block.Obtained (newYear.block first last) := by
    intro first last hle
    have hdated : Block.Obtained { newYear.block first last with issues := [] } :=
      (Block.Obtained.new .empty).withPeriod hle
    exact hdated.revise (.add "Daily" [.addAddition first, .addAddition last])
  have hreach : newYear.Reachable :=
    (Reachable.empty.given (held _ _ (by decide))).given (held _ _ (by decide))
  obtain ⟨-, hall⟩ := partition_of_reachable hreach
  obtain ⟨hdated, -, hnone⟩ := hall (by decide +kernel)
  obtain ⟨ps, hps, hdivides⟩ := hdated .weeks (by decide)
  have hlength := (hdivides.byPeriod (by decide)).length
  exact ⟨hreach, by decide +kernel, ⟨ps, hps, hdivides, hlength.trans (by decide +kernel)⟩,
    hnone (by decide +kernel), (partition_of_reachable .empty).1 (by decide +kernel) .weeks⟩

end Course
end PressCalendar
