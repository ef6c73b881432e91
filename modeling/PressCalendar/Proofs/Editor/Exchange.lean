/-
A session that is taken up again from the document it was left in.

What a document carries from one editor to another is the complete blocks and the
processes, and since nothing appears in a block that is not complete, everything that
appears comes along.  `upload_download` is the whole of it: the processes that went out
come in as imported ones, and stay at hand until the course is edited.
-/
import PressCalendar.Proofs.Course.Partition
import PressCalendar.Proofs.Editor.Caches

namespace PressCalendar

/-! ## What appears in a course that was read back -/

namespace Course

theorem flatMap_appearances_renumbered (lastId : Nat) (blocks : List Block) :
    (renumbered lastId blocks).flatMap Block.appearances = blocks.flatMap Block.appearances := by
  induction blocks generalizing lastId with
  | nil => rfl
  | cons b blocks ih =>
    rw [renumbered, List.flatMap_cons, List.flatMap_cons, ih]
    rfl

theorem flatMap_appearances_filter (blocks : List Block) :
    (blocks.filter Block.isComplete).flatMap Block.appearances =
      blocks.flatMap Block.appearances := by
  induction blocks with
  | nil => rfl
  | cons b blocks ih =>
    cases hb : b.isComplete with
    | true => rw [List.filter_cons_of_pos hb, List.flatMap_cons, List.flatMap_cons, ih]
    | false =>
      rw [List.filter_cons_of_neg (by rw [hb]; exact Bool.false_ne_true), List.flatMap_cons,
        Block.appearances_of_not_isComplete hb, List.nil_append, ih]

theorem appearances_exchanged (c : Course) : c.exchanged.appearances = c.appearances := by
  rw [appearances, blocks_exchanged, flatMap_appearances_renumbered, flatMap_appearances_filter]
  rfl

theorem exchanged_of_ne_nil {c : Course} (h : c.processes ≠ []) :
    c.exchanged = c.completed.withImported c.processes := by
  unfold exchanged
  rw [if_neg (by simpa using h)]

end Course

/-! ## Requests that do not edit -/

namespace Editor

/-- Requests after which the course still is the one that was read, however it was
split meanwhile. -/
def Request.isLook : Request → Bool
  | .selectBlock _ => true
  | .selectNumber _ => true
  | .readDate _ _ => true
  | .setYear _ => true
  | .previousYear => true
  | .nextYear => true
  | .download => true
  | .checkReady => true
  | .split _ => true
  | _ => false

/-- What the imported processes depend on. -/
structure SameImport (e after : Editor) : Prop where
  blocks : after.course.blocks = e.course.blocks
  imported : after.course.imported = e.course.imported

theorem SameImport.of_course_eq {e after : Editor} (h : after.course = e.course) :
    e.SameImport after :=
  ⟨by rw [h], by rw [h]⟩

theorem sameImport_selectBlock (e : Editor) (id : Nat) :
    e.SameImport ((Edit.selectBlock id).run e).2 := by
  unfold Edit.selectBlock
  rw [Edit.run_get_bind]
  split
  · exact .of_course_eq rfl
  · split
    · exact .of_course_eq rfl
    · exact .of_course_eq (course_navigate _)

theorem sameImport_split (e : Editor) (g : Granularity) :
    e.SameImport ((Edit.split g).run e).2 := by
  refine Edit.ask_bind_induction (.of_course_eq rfl) ?_
  intro course hsplit
  obtain ⟨ps, -, rfl⟩ := Course.split_cases hsplit
  exact ⟨rfl, rfl⟩

theorem sameImport_ask {α : Type} (e : Editor) (f : Editor → Except Error α) :
    e.SameImport ((Edit.ask f).run e).2 :=
  .of_course_eq rfl

theorem sameImport_perform (e : Editor) {r : Request} (h : r.isLook = true) :
    e.SameImport (e.perform r) := by
  cases r with
  | selectBlock id => exact sameImport_selectBlock e id
  | selectNumber number =>
    show e.SameImport ((Edit.selectNumber number).run e).2
    unfold Edit.selectNumber
    rw [Edit.run_get_bind]
    split
    · exact .of_course_eq rfl
    · split
      · exact sameImport_selectBlock e _
      · exact .of_course_eq rfl
  | readDate input field => exact sameImport_ask e _
  | setYear year => exact .of_course_eq rfl
  | previousYear => exact .of_course_eq rfl
  | nextYear => exact .of_course_eq rfl
  | download => exact .of_course_eq (congrArg (Editor.course ∘ Prod.snd) (run_download e))
  | checkReady => exact sameImport_ask e _
  | split g => exact sameImport_split e g
  | _ => exact absurd h (by simp [Request.isLook])

theorem sameImport_foldl (e : Editor) {requests : List Request}
    (h : ∀ r ∈ requests, r.isLook = true) : e.SameImport (requests.foldl perform e) := by
  induction requests generalizing e with
  | nil => exact .of_course_eq rfl
  | cons r requests ih =>
    have hfirst := e.sameImport_perform (h r List.mem_cons_self)
    have hrest := ih (e.perform r) fun x hx => h x (List.mem_cons_of_mem r hx)
    exact ⟨hrest.blocks.trans hfirst.blocks, hrest.imported.trans hfirst.imported⟩

theorem run_split_imported {e : Editor} {ps : List Process} (hne : e.course.appearances ≠ [])
    (himported : e.course.imported = some ps) :
    (Edit.split .asImported).run e = (.ok ps, e.withProcesses ps) :=
  run_split_of_ok (Course.partition_of_imported hne himported)

/-! ## From one session to another -/

/-- The course whose document goes out: it has processes, and apart from them it is the
course of the editor. -/
structure Outgoing (e : Editor) (c : Course) : Prop where
  reachable : c.Reachable
  current : c.Current
  blocks : c.blocks = e.course.blocks
  nonempty : c.processes ≠ []
  processes : if e.course.processes = [] then e.course.partition .days = .ok c.processes
    else c.processes = e.course.processes

theorem exists_outgoing {e : Editor} {xml : String} (he : e.Reachable)
    (h : (Edit.download.run e).1 = .ok xml) :
    e.course.appearances ≠ [] ∧ ∃ c, xml = c.toXml ∧ e.Outgoing c := by
  obtain ⟨hreach, hcurrent⟩ := current_of_reachable he
  obtain ⟨hok, hdocument, -⟩ := download_iff e
  have hne := hok.1 ⟨xml, h⟩
  obtain ⟨c, hxml, hc⟩ := hdocument xml h
  refine ⟨hne, c, hxml, ?_⟩
  by_cases hprocesses : e.course.processes = []
  · rw [if_pos hprocesses] at hc
    have hedited : e.course.Edited c := .split hc
    obtain ⟨ps, hpartition, rfl⟩ := Course.split_cases hc
    refine ⟨hedited.reachable hreach, hcurrent.edited hedited, rfl, ?_, ?_⟩
    · rw [Course.partition_of_dated hne (by decide)] at hpartition
      cases hpartition
      exact Granularity.group_ne_nil .days hne
    · rw [if_pos hprocesses]
      exact hpartition
  · rw [if_neg hprocesses] at hc
    subst hc
    exact ⟨hreach, hcurrent, rfl, hprocesses, by rw [if_neg hprocesses]⟩

/-- A document that an editor hands out can be taken up by any other one, which then
has the complete blocks of the first in their order, shows the first of them, and counts
the same appearances.  The processes that went out, or those of the days if there were
none, are its processes and its imported ones, and splitting as imported answers them
until the course is edited. -/
theorem upload_download {e : Editor} {xml : String} (he : e.Reachable)
    (h : (Edit.download.run e).1 = .ok xml) (f : Editor) :
    ∃ loaded ps, (Edit.upload xml).run f = (.ok (), loaded) ∧
      loaded.course.blocks.map (fun b => (b.first, b.last, b.issues)) =
        (e.course.blocks.filter Block.isComplete).map (fun b => (b.first, b.last, b.issues)) ∧
      (∃ b, loaded.course.blocks.head? = some b ∧ loaded.showing = some b.id) ∧
      loaded.course.countAppearances = e.course.countAppearances ∧
      (if e.course.processes = [] then e.course.partition .days = .ok ps
        else ps = e.course.processes) ∧
      loaded.course.processes = ps ∧ loaded.course.imported = some ps ∧
      ∀ requests : List Request, (∀ r ∈ requests, r.isLook = true) →
        ((Edit.split .asImported).run (requests.foldl perform loaded)).1 = .ok ps := by
  obtain ⟨hne, c, rfl, hc⟩ := exists_outgoing he h
  have hread : Course.ofXml c.toXml = .ok c.exchanged :=
    (Course.ofXml_toXml_eq_ok (Course.sound_of_reachable hc.reachable)).2
      ⟨hc.current.contains, rfl⟩
  have hcourse : (f.load c.exchanged).course = c.completed.withImported c.processes := by
    rw [course_load, Course.exchanged_of_ne_nil hc.nonempty]
  have happearances : (f.load c.exchanged).course.appearances = e.course.appearances := by
    rw [course_load, Course.appearances_exchanged, Course.appearances, hc.blocks]
    rfl
  have hshown : (f.load c.exchanged).showing = c.exchanged.blocks.head?.map Block.id :=
    showing_navigate _
  have hblocks : (f.load c.exchanged).course.blocks =
      Course.renumbered 0 (e.course.blocks.filter Block.isComplete) := by
    rw [course_load, Course.blocks_exchanged, hc.blocks]
  refine ⟨f.load c.exchanged, c.processes, ?_, ?_, ?_, ?_, hc.processes, ?_, ?_, ?_⟩
  · exact Edit.run_ask_bind (f := fun _ => Course.ofXml c.toXml) hread
  · rw [hblocks]
    exact Course.map_renumbered (fun first last issues => (first, last, issues)) 0 _
  · rw [hshown, course_load]
    cases hhead : c.exchanged.blocks.head? with
    | none =>
      rw [course_load, Course.appearances, List.head?_eq_none_iff.1 hhead] at happearances
      exact absurd happearances.symm hne
    | some b => exact ⟨b, rfl, rfl⟩
  · rw [← Course.length_appearances, happearances, Course.length_appearances]
  · rw [hcourse]
    rfl
  · rw [hcourse]
    rfl
  · intro requests hrequests
    have hsame := (f.load c.exchanged).sameImport_foldl hrequests
    refine congrArg Prod.fst (run_split_imported ?_ ?_)
    · rw [Course.appearances, hsame.blocks, ← Course.appearances, happearances]
      exact hne
    · rw [hsame.imported, hcourse]
      rfl

/-- A session with a block of two Mondays, which is split into weeks while another block
is only begun. -/
def unfinished : Editor :=
  [.setPeriod "1.1.1850" "14.1.1850", .addIssue "Morning", .setRegular 0 .mon true,
    .startNewBlock, .setFirst "1.2.1851", .split .weeks].foldl perform
    (blank .standard ⟨2024, 6, 3, by decide⟩)

theorem upload_download_unfinished :
    unfinished.Reachable ∧ unfinished.course.blocks.length = 2 ∧
      unfinished.course.processes.length = 2 ∧
      ∃ xml loaded, (Edit.download.run unfinished).1 = .ok xml ∧
        (Edit.upload xml).run (blank .standard ⟨2025, 6, 1, by decide⟩) = (.ok (), loaded) ∧
        loaded.course.blocks.length = 1 ∧ loaded.course.processes = unfinished.course.processes ∧
        ((Edit.split .asImported).run (loaded.perform (.split .days))).1 =
          .ok unfinished.course.processes := by
  have hreach : unfinished.Reachable := (Reachable.blank _ _).foldl _
  have hdownload : ((Edit.download.run unfinished).1).isOk = true := by decide +kernel
  obtain ⟨xml, hxml⟩ : ∃ xml, (Edit.download.run unfinished).1 = .ok xml := by
    cases hanswer : (Edit.download.run unfinished).1 with
    | ok xml => exact ⟨xml, rfl⟩
    | error cause =>
      rw [hanswer] at hdownload
      exact absurd hdownload (by simp [Except.isOk, Except.toBool])
  obtain ⟨loaded, ps, hupload, hblocks, -, -, hps, hprocesses, -, hsplit⟩ :=
    upload_download hreach hxml (blank .standard ⟨2025, 6, 1, by decide⟩)
  have hne : unfinished.course.processes ≠ [] := by decide +kernel
  rw [if_neg hne] at hps
  have hlength := congrArg List.length hblocks
  rw [List.length_map, List.length_map] at hlength
  refine ⟨hreach, by decide +kernel, by decide +kernel, xml, loaded, hxml, hupload,
    hlength.trans (by decide +kernel), hprocesses.trans hps, ?_⟩
  rw [← hps]
  exact hsplit [.split .days] (by decide)

end Editor
end PressCalendar
