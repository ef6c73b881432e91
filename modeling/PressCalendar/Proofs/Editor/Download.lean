/-
Downloads leave no trace.

A course that is not split goes out split by days, and is split in place for as long as its
document is written.  This has to be undone, whether or not the document could be written,
and it must not be stopped in between.  It is not, because nothing but an empty course can
stop a split by days, and an empty course does not get past the guard.
-/
import PressCalendar.Proofs.Course.Partition
import PressCalendar.Proofs.Editor.Steps

namespace PressCalendar

/-! ## Splits that cannot fail -/

namespace Course

variable {c : Course}

theorem countAppearances_eq_zero_iff : c.countAppearances = 0 ↔ c.appearances = [] := by
  rw [← length_appearances, List.length_eq_zero_iff]

theorem exists_partition_iff {g : Granularity} (hg : g ≠ .asImported) :
    (∃ ps, c.partition g = .ok ps) ↔ c.appearances ≠ [] := by
  constructor
  · intro ⟨ps, hps⟩
    exact (partition_cases hps).1
  · intro hne
    exact ⟨_, partition_of_dated hne hg⟩

theorem split_of_dated {g : Granularity} (h : c.appearances ≠ []) (hg : g ≠ .asImported) :
    c.split g = .ok { c with processes := g.group c.appearances } := by
  rw [split, partition_of_dated h hg]
  rfl

end Course

namespace Editor

variable {e : Editor}

/-- An editor with other processes. -/
def withProcesses (e : Editor) (processes : List Process) : Editor :=
  { e with course := { e.course with processes } }

theorem run_split_of_ok {g : Granularity} {ps : List Process} (h : e.course.partition g = .ok ps) :
    (Edit.split g).run e = (.ok ps, e.withProcesses ps) := by
  have hsplit : e.course.split g = .ok { e.course with processes := ps } := by
    rw [Course.split, h]
    rfl
  exact Edit.run_ask_bind (f := (·.course.split g)) hsplit

theorem run_split_of_error {g : Granularity} {cause : Error}
    (h : e.course.partition g = .error cause) : (Edit.split g).run e = (.error cause, e) := by
  have hsplit : e.course.split g = .error cause := by
    rw [Course.split, h]
    rfl
  exact Edit.run_ask_bind_of_error (f := (·.course.split g)) hsplit

/-! ## The document that goes out -/

theorem checkReady_of_empty (h : e.course.appearances = []) :
    e.checkReady = .error .emptyCourse := by
  rw [checkReady, if_pos (Course.countAppearances_eq_zero_iff.2 h)]

theorem checkReady_of_dated (h : e.course.appearances ≠ []) : e.checkReady = .ok () := by
  rw [checkReady, if_neg (mt Course.countAppearances_eq_zero_iff.1 h)]

/-- The course as it goes out: split by days unless it is split. -/
def outgoing (e : Editor) : Course :=
  if e.course.processes = [] then
    { e.course with processes := Granularity.days.group e.course.appearances }
  else e.course

theorem outgoing_of_split (h : e.course.processes ≠ []) : e.outgoing = e.course := if_neg h

theorem split_days_of_unsplit (hne : e.course.appearances ≠ [])
    (h : e.course.processes = []) : e.course.split .days = .ok e.outgoing := by
  rw [outgoing, if_pos h]
  exact Course.split_of_dated hne (by decide)

theorem run_downloadInPlace_of_empty (write : Course → Except Error String)
    (h : e.course.appearances = []) :
    (Edit.downloadInPlace write).run e = (.error .emptyCourse, e) :=
  Edit.run_ask_bind_of_error (checkReady_of_empty h)

theorem run_downloadInPlace_of_dated (write : Course → Except Error String)
    (h : e.course.appearances ≠ []) :
    (Edit.downloadInPlace write).run e = (write e.outgoing, e) := by
  refine (Edit.run_ask_bind (checkReady_of_dated h)).trans ?_
  rw [Edit.run_get_bind]
  by_cases hprocesses : e.course.processes = []
  · have hunsplit : e.course.processes.isEmpty = true := List.isEmpty_iff.2 hprocesses
    have hsplit := run_split_of_ok (Course.partition_of_dated h (g := .days) (by decide))
    have hclear : (Edit.update fun s => { s with course := s.course.clearProcesses }).run
        (e.withProcesses (Granularity.days.group e.course.appearances)) = (.ok (), e) := by
      show (Except.ok (), e.withProcesses []) = _
      rw [← hprocesses]
      rfl
    simp only [hunsplit, if_true]
    rw [run_bind_ok hsplit, Edit.run_get_bind, run_bind_ok hclear, Edit.run_ask, outgoing,
      if_pos hprocesses]
    rfl
  · have hunsplit : ¬e.course.processes.isEmpty = true := mt List.isEmpty_iff.1 hprocesses
    simp only [if_neg hunsplit]
    rw [Edit.run_get_bind, Edit.run_ask, outgoing_of_split hprocesses]

theorem run_downloadInPlace (write : Course → Except Error String) (e : Editor) :
    (Edit.downloadInPlace write).run e =
      (if e.course.appearances = [] then .error .emptyCourse else write e.outgoing, e) := by
  by_cases hempty : e.course.appearances = []
  · rw [run_downloadInPlace_of_empty write hempty, if_pos hempty]
  · rw [run_downloadInPlace_of_dated write hempty, if_neg hempty]

theorem run_download (e : Editor) : Edit.download.run e =
    (if e.course.appearances = [] then .error .emptyCourse else .ok e.outgoing.toXml, e) :=
  run_downloadInPlace _ e

theorem download_iff (e : Editor) :
    ((∃ xml, (Edit.download.run e).1 = .ok xml) ↔ e.course.appearances ≠ []) ∧
      (∀ xml, (Edit.download.run e).1 = .ok xml → ∃ c, xml = c.toXml ∧
        if e.course.processes = [] then e.course.split .days = .ok c else c = e.course) ∧
      ∀ cause, (Edit.download.run e).1 = .error cause ↔
        e.course.appearances = [] ∧ cause = .emptyCourse := by
  rw [run_download]
  refine outcome_iff ?_ ?_ ?_
  · by_cases hempty : e.course.appearances = []
    · exact .inl ⟨_, hempty, rfl⟩
    · exact .inr hempty
  · intro cause ⟨hempty, hcause⟩
    rw [if_pos hempty, hcause]
  · intro hdated
    refine ⟨e.outgoing.toXml, if_neg hdated, e.outgoing, rfl, ?_⟩
    by_cases hprocesses : e.course.processes = []
    · rw [if_pos hprocesses]
      exact split_days_of_unsplit hdated hprocesses
    · rw [if_neg hprocesses]
      exact outgoing_of_split hprocesses

theorem run_checkReady_eq_ok_iff (e : Editor) :
    (Edit.checkReady.run e).1 = .ok () ↔ e.course.appearances ≠ [] := by
  rw [Edit.checkReady, Edit.run_ask]
  by_cases hempty : e.course.appearances = []
  · simp [checkReady_of_empty hempty, hempty]
  · simp [checkReady_of_dated hempty, hempty]

/-- A download only looks: it succeeds if anything appears in the course, and whatever it
answers, the editor is the one it was, so that the next one answers the same.  The
document is that of the course with its processes or else with those of its days.  The
course is split in place for it, and nothing of that is left behind even where the document
cannot be written.  What the guard lets through is what every
granularity can divide, the imported processes aside. -/
theorem download_observes (e : Editor) :
    ((∃ xml, (Edit.download.run e).1 = .ok xml) ↔ e.course.appearances ≠ []) ∧
      (∀ cause, (Edit.download.run e).1 = .error cause ↔
        e.course.appearances = [] ∧ cause = .emptyCourse) ∧
      (Edit.download.run e).2 = e ∧
      Edit.download.run (Edit.download.run e).2 = Edit.download.run e ∧
      (∀ xml, (Edit.download.run e).1 = .ok xml → ∃ c, xml = c.toXml ∧
        if e.course.processes = [] then e.course.split .days = .ok c else c = e.course) ∧
      (Edit.downloadInPlace fun c => .ok c.toXml).run e = Edit.download.run e ∧
      (∀ write, ((Edit.downloadInPlace write).run e).2 = e) ∧
      ∀ g, g ≠ .asImported →
        ((Edit.checkReady.run e).1 = .ok () ↔ ∃ ps, e.course.partition g = .ok ps) := by
  obtain ⟨hok, hdocument, herror⟩ := download_iff e
  have hkept : (Edit.download.run e).2 = e := congrArg Prod.snd (run_download e)
  refine ⟨hok, herror, hkept, by rw [hkept], hdocument, ?_, ?_, ?_⟩
  · rfl
  · intro write
    rw [run_downloadInPlace]
  · intro g hg
    rw [run_checkReady_eq_ok_iff, Course.exists_partition_iff hg]

end Editor
end PressCalendar
