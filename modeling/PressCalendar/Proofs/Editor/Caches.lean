/-
The processes that an editor carries.

Processes are dropped with every change that could make them wrong, so those an
editor carries always describe its course as it is.  `current_of_reachable` is what
a whole session keeps; from it follows that the document of the course can always be
read again.
-/
import PressCalendar.Proofs.Course.Exchange
import PressCalendar.Proofs.Editor.Transition

namespace PressCalendar
namespace Editor

theorem course_ofCourse (c : Course) (preferences : Preferences) (today : Date) :
    (ofCourse c preferences today).course = c := course_load _ c

theorem current_of_reachable {e : Editor} (h : e.Reachable) :
    e.course.Reachable ∧ e.course.Current := by
  induction h with
  | blank preferences today => exact ⟨.empty, Course.current_forgotten Course.empty⟩
  | opened hread preferences today =>
    rw [course_ofCourse]
    obtain ⟨document, -, hdocument⟩ := Course.ofXml_eq_ok.1 hread
    exact ⟨.read hread, Course.current_of_ofDocument hdocument⟩
  | @perform e _ r ih =>
    have hedited := edited_perform e r
    exact ⟨hedited.reachable ih.1, ih.2.edited hedited⟩

/-- The processes of an editor's course are never out of date: there are none, or they
are the imported ones, or they are those of a partition of the course as it is.  Every
date of theirs lies within a complete block, imported processes come with complete
blocks only, and so the document of the course can be read again. -/
theorem processes_current {e : Editor} (h : e.Reachable) :
    (e.course.processes = [] ∨ e.course.imported = some e.course.processes ∨
      ∃ g, g ≠ .asImported ∧ e.course.partition g = .ok e.course.processes) ∧
    (∀ p, p ∈ e.course.processes ∨ (∃ ps ∈ e.course.imported, p ∈ ps) →
      ∀ a ∈ p, ∃ b ∈ e.course.blocks, b.isComplete = true ∧ b.covers a.date = true) ∧
    (e.course.imported.isSome = true → ∀ b ∈ e.course.blocks, b.isComplete = true) ∧
    ∃ c, Course.ofXml e.course.toXml = .ok c := by
  obtain ⟨hreach, hcurrent⟩ := current_of_reachable h
  refine ⟨hcurrent.derived, ?_, hcurrent.complete, ?_⟩
  · intro p hp
    rcases hp with hp | ⟨ps, hps, hp⟩
    · exact hcurrent.contains p hp
    · exact hcurrent.imported ps hps p hp
  · have hsound := Course.sound_of_reachable hreach
    exact ⟨e.course.exchanged, (Course.ofXml_toXml_eq_ok hsound).2 ⟨hcurrent.contains, rfl⟩⟩

/-- A session in which a block that was only begun is dropped after a split. -/
def neglected : Editor :=
  [.setPeriod "1.1.1850" "14.1.1850", .addIssue "Morning", .setRegular 0 .mon true,
    .startNewBlock, .setFirst "1.2.1851", .split .weeks, .neglect].foldl perform
    (blank .standard ⟨2024, 6, 1, by decide⟩)

theorem processes_current_neglected :
    neglected.Reachable ∧ neglected.course.blocks.length = 1 ∧
      neglected.course.processes.length = 2 ∧
      (∀ p ∈ neglected.course.processes, ∀ a ∈ p,
        ∃ b ∈ neglected.course.blocks, b.isComplete = true ∧ b.covers a.date = true) ∧
      ∃ c, Course.ofXml neglected.course.toXml = .ok c := by
  have hreach : neglected.Reachable := (Reachable.blank _ _).foldl _
  obtain ⟨-, hwithin, -, hread⟩ := processes_current hreach
  exact ⟨hreach, by decide +kernel, by decide +kernel, fun p hp => hwithin p (.inl hp), hread⟩

end Editor
end PressCalendar
