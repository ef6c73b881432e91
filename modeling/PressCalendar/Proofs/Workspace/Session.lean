/-
Changes one after another, to a stored course and in a session.

A workspace opens its course anew for each change and writes it out after it, which
numbers the blocks again and forgets what was shown.  Nobody can tell: `changes_session`
says that the changes are answered as in a session that goes on without ever storing
anything, and leave the same course.
-/
import PressCalendar.Command.Run
import PressCalendar.Proofs.Command.Change
import PressCalendar.Proofs.Workspace.Store

namespace PressCalendar

/-! ## What a document keeps of a session -/

theorem Course.bare_exchanged {c : Course} (h : ∀ b ∈ c.blocks, b.isComplete = true) :
    c.exchanged.bare = c.bare := by
  have hfilter : c.blocks.filter Block.isComplete = c.blocks := List.filter_eq_self.2 h
  rw [bare, blocks_exchanged, hfilter]
  exact map_renumbered (Block.mk 0) 0 c.blocks

namespace Workspace

variable {w : Workspace} {settings : Settings} {document? : Option String} {today : Date}
  {a b e s : Editor} {t : FileTree}

theorem twins_opened (h : opened settings today document? = .ok e) : Editor.Twins today e e := by
  cases document? with
  | none =>
    cases h
    have hblank := Editor.Reachable.blank settings.toPreferences today
    exact ⟨hblank, hblank, ⟨rfl, fun b hb => absurd hb List.not_mem_nil⟩, rfl, rfl⟩
  | some xml =>
    obtain ⟨c, hread, hok⟩ := bind_eq_ok.1 h
    cases hok
    have hopened := Editor.Reachable.opened hread settings.toPreferences today
    have hcourse := Editor.course_ofCourse c settings.toPreferences today
    refine ⟨hopened, hopened, ⟨rfl, ?_⟩, Editor.today_navigate _, Editor.today_navigate _⟩
    rw [hcourse]
    exact Course.complete_of_ofXml hread

/-- The document of an editor can be opened. -/
theorem opened_toXml (settings : Settings) (today : Date) (h : a.Reachable) :
    Course.ofXml a.course.toXml = .ok a.course.exchanged ∧
      opened settings today (some a.course.toXml) =
        .ok (.ofCourse a.course.exchanged settings.toPreferences today) := by
  obtain ⟨hreach, hcurrent⟩ := Editor.current_of_reachable h
  have hread := (Course.ofXml_toXml_eq_ok (Course.sound_of_reachable hreach)).2
    ⟨hcurrent.contains, rfl⟩
  refine ⟨hread, ?_⟩
  unfold opened
  simp only [hread]
  rfl

/-- A session may be taken up from the document of its twin. -/
theorem exists_reopened (settings : Settings) (h : Editor.Twins today a b) :
    ∃ e, opened settings today (some a.course.toXml) = .ok e ∧ Editor.Twins today e b := by
  obtain ⟨hread, hopened⟩ := opened_toXml settings today h.left
  have hcourse := Editor.course_ofCourse a.course.exchanged settings.toPreferences today
  refine ⟨.ofCourse a.course.exchanged settings.toPreferences today, hopened,
    .opened hread settings.toPreferences today, h.right, ⟨?_, ?_⟩, ?_, h.day'⟩
  · rw [hcourse, Course.bare_exchanged h.course.complete, h.course.bare]
  · rw [hcourse]
    exact Course.complete_of_ofXml hread
  · exact Editor.today_navigate _

/-! ## One change -/

/-- A change of the stored course. -/
def change (w : Workspace) (today : Date) (tag : String) (c : Change) : Filing Change.Outcome := do
  let edit ← step c.edit
  w.edit today tag edit

/-- The command for a change looks for the workspace, and prints what is answered. -/
theorem run_changeCommand (s : Session) (c : Change) :
    ((Command.change c).run s : Filing String) =
      discover s.chosen >>= fun w => Command.outcomeText <$> w.change s.today s.tag c := by
  unfold change
  simp only [Command.run, map_bind, bind_pure_comp]

/-- The course a workspace has stored is the one of a session. -/
structure Mirrors (w : Workspace) (settings : Settings) (today : Date) (t : FileTree) (s : Editor) :
    Prop where
  mirrored : ∃ document? e, w.Holds t settings document? ∧
    opened settings today document? = .ok e ∧ Editor.Twins today e s

/-- What is reported of a change, apart from notices, or why it failed. -/
def report (answer : Except Error Change.Outcome) : Except Error Change.Deed :=
  answer.map Change.Outcome.deed

theorem revise_of_opened {α : Type} (h : opened settings today document? = .ok e) (edit : Edit α) :
    revise settings today document? edit = match edit.run e with
      | (.ok a, edited) => .ok (a, edited.course.toXml)
      | (.error cause, _) => .error cause := by
  unfold revise
  rw [h]
  rfl

theorem Holds.run_edit {α : Type} (h : w.Holds t settings document?) (edit : Edit α)
    (tag : String) :
    (w.edit today tag edit : Filing α).run t = (step (revise settings today document? edit) >>=
      fun answer => w.saveDocument tag answer.2 >>= fun _ => pure answer.1 : Filing α).run t := by
  unfold Workspace.edit
  rw [run_bind_ok h.settings, run_bind_ok h.document]

/-- An edit that succeeds stores the course of the editor it was made in. -/
theorem Holds.run_edit_of_ok {α : Type} {x : Edit α} {u : α} {edited : Editor}
    (h : w.Holds t settings document?) (hopened : opened settings today document? = .ok e)
    (hx : x.run e = (.ok u, edited)) (tag : String) :
    (w.edit today tag x : Filing α).run t =
      (w.saveDocument tag edited.course.toXml >>= fun _ => pure u : Filing α).run t := by
  have hrevise : revise settings today document? x = .ok (u, edited.course.toXml) := by
    rw [revise_of_opened hopened, hx]
  rw [h.run_edit, hrevise, run_bind_ok (run_step (.ok (u, edited.course.toXml)) t)]

/-- An edit that fails leaves the files alone. -/
theorem Holds.run_edit_of_error {α : Type} {x : Edit α} {cause : Error} {edited : Editor}
    (h : w.Holds t settings document?) (hopened : opened settings today document? = .ok e)
    (hx : x.run e = (.error cause, edited)) (tag : String) :
    (w.edit today tag x : Filing α).run t = (.error cause, t) := by
  have hrevise : revise settings today document? x = .error cause := by
    rw [revise_of_opened hopened, hx]
  rw [h.run_edit, hrevise, run_bind_error (run_step (.error cause) t)]

theorem Holds.run_change {tag : String} (h : w.Holds t settings document?)
    (hopened : opened settings today document? = .ok e) (c : Change) :
    (w.change today tag c).run t = match c.perform.run e with
      | (.ok u, edited) =>
        (w.saveDocument tag edited.course.toXml >>= fun _ => pure u : Filing Change.Outcome).run t
      | (.error cause, _) => (.error cause, t) := by
  unfold change Change.perform
  cases c.edit with
  | error cause => exact run_bind_error (run_step (.error cause) t)
  | ok edit =>
    rw [run_bind_ok (run_step (.ok edit) t)]
    cases hx : edit.run e with
    | mk answer edited =>
      cases answer with
      | error cause => exact h.run_edit_of_error hopened hx tag
      | ok u => exact h.run_edit_of_ok hopened hx tag

/-- A change of the stored course is answered as in the session that it mirrors, and
mirrors it again. -/
theorem Mirrors.run_change {document draft : List String} {tag : String}
    (h : w.Mirrors settings today t s) (hdocument : t.writable w.documentPath = .ok document)
    (htag : '/' ∉ tag.toList) (hdraft : t.writable (w.draftPath tag) = .ok draft) (c : Change) :
    report ((w.change today tag c).run t).1 = report (c.perform.run s).1 ∧
      t.KeepsDirectories ((w.change today tag c).run t).2 ∧
      w.Mirrors settings today ((w.change today tag c).run t).2 (c.perform.run s).2 := by
  obtain ⟨document?, e, hholds, hopened, htwins⟩ := h.mirrored
  cases Change.parallel_perform c htwins with
  | @error cause e' s' hx hy hleft =>
    have hrun : (w.change today tag c).run t = (.error cause, t) := by
      rw [hholds.run_change hopened, hx]
    rw [hrun, hy]
    exact ⟨rfl, .refl t, ⟨document?, e, hholds, hopened, hleft⟩⟩
  | @ok u v e' s' hx hy hleft =>
    obtain ⟨htwins', hdeed⟩ := hleft
    obtain ⟨t', hsave, hkeeps, hholds'⟩ :=
      hholds.exists_stored hdocument htag hdraft e'.course.toXml
    -- the blocks are numbered anew when they are read back, so only a twin is opened next
    obtain ⟨reopened, hopened', htwins''⟩ := exists_reopened settings htwins'
    have hrun : (w.change today tag c).run t = (.ok u, t') := by
      rw [hholds.run_change hopened, hx]
      exact run_bind_ok hsave
    rw [hrun, hy]
    exact ⟨congrArg Except.ok hdeed, hkeeps, ⟨_, reopened, hholds', hopened', htwins''⟩⟩

/-! ## All changes -/

/-- Changes of the stored course, each under the tag of its own run. -/
def changes (w : Workspace) (today : Date) (commands : List (String × Change)) :
    StateM FileTree (List (Except Error Change.Deed)) :=
  commands.mapM fun command => report <$> (w.change today command.1 command.2).run

/-- The same changes in one session. -/
def session (commands : List (String × Change)) :
    StateM Editor (List (Except Error Change.Deed)) :=
  commands.mapM fun command => report <$> command.2.perform.run

theorem Mirrors.run_changes {commands : List (String × Change)}
    (h : w.Mirrors settings today t s)
    (hroom : ∀ command ∈ commands, '/' ∉ command.1.toList ∧
      (t.writable w.documentPath).isOk = true ∧ (t.writable (w.draftPath command.1)).isOk = true) :
    ((w.changes today commands).run t).1 = ((session commands).run s).1 ∧
      w.Mirrors settings today ((w.changes today commands).run t).2
        ((session commands).run s).2 := by
  induction commands generalizing t s with
  | nil => exact ⟨rfl, h⟩
  | cons command commands ih =>
    obtain ⟨tag, c⟩ := command
    obtain ⟨htag, hdocument, hdraft⟩ := hroom (tag, c) List.mem_cons_self
    obtain ⟨document, hdocument⟩ := exists_of_isOk hdocument
    obtain ⟨draft, hdraft⟩ := exists_of_isOk hdraft
    obtain ⟨hanswer, hkeeps, hmirrors⟩ := h.run_change hdocument htag hdraft c
    -- what is left stands in a tree with the same directories, which is room for the rest
    obtain ⟨hanswers, hlast⟩ := ih hmirrors fun command hmem =>
      have hroom := hroom command (List.mem_cons_of_mem _ hmem)
      ⟨hroom.1, hkeeps.isOk_writable hroom.2.1, hkeeps.isOk_writable hroom.2.2⟩
    unfold changes session
    rw [run_mapM_cons, run_mapM_cons]
    exact ⟨List.cons_eq_cons.2 ⟨hanswer, hanswers⟩, hlast⟩

/-- Changes of a stored course, of which each opens it, edits it, and stores it again if
the edit succeeds, are answered one by one as by a single session that was opened once:
with the same failure, or the same label, index, heading or mark.  The course that is
opened afterwards is that of the session. -/
theorem changes_session {commands : List (String × Change)}
    (hopen : (w.openEditor today : Filing Editor).run t = (.ok e, t))
    (hroom : ∀ command ∈ commands, '/' ∉ command.1.toList ∧
      (t.writable w.documentPath).isOk = true ∧ (t.writable (w.draftPath command.1)).isOk = true) :
    ((w.changes today commands).run t).1 = ((session commands).run e).1 ∧
      ∃ reopened, (w.openEditor today : Filing Editor).run ((w.changes today commands).run t).2 =
          (.ok reopened, ((w.changes today commands).run t).2) ∧
        reopened.course.alike ((session commands).run e).2.course = true := by
  obtain ⟨settings, document?, hholds, hopened⟩ := exists_holds hopen
  have hmirrors : w.Mirrors settings today t e :=
    ⟨document?, e, hholds, hopened, twins_opened hopened⟩
  obtain ⟨hanswers, document?', reopened, hholds', hopened', htwins⟩ := hmirrors.run_changes hroom
  refine ⟨hanswers, reopened, ?_, Course.alike_iff.2 htwins.course.bare⟩
  rw [hholds'.run_openEditor, hopened']

/-- A workspace in `begun`. -/
def press : Workspace := ⟨"/press"⟩

/-- Settings and no course yet. -/
def begun : FileTree :=
  ⟨[(["press"], .directory), (["press", ".periodical"], .directory),
    (["press", ".periodical", "config.toml"], .text "created = \"2024-06-01T12:00:00Z\"")], []⟩

/-- The day on which `demands` are made. -/
def demandDay : Date := ⟨2024, 6, 4, by decide⟩

/-- Changes of which two fail, one for its dates and one for want of a block. -/
def demands : List (String × Change) :=
  [("101", .addBlock "1.1.1850" "14.1.1850"), ("102", .addIssue 1 "Morning" [.mon, .tue]),
    ("103", .addBlock "10.1.1850" "20.1.1850"), ("104", .copyBlock 1),
    ("105", .toggleIssue 2 1 "15.1.1850"), ("106", .removeIssue 3 1), ("107", .removeBlock 1)]

theorem changes_session_begun :
    ∃ e, (press.openEditor demandDay : Filing Editor).run begun = (.ok e, begun) ∧
      (∀ command ∈ demands, '/' ∉ command.1.toList ∧
        (begun.writable press.documentPath).isOk = true ∧
        (begun.writable (press.draftPath command.1)).isOk = true) ∧
      ((press.changes demandDay demands).run begun).1 =
        [.ok (.blockAdded "01.01.1850 – 14.01.1850"), .ok (.issueAdded 1 1 "Morning"),
          .error (.overlap ⟨1850, 1, 10, by decide⟩ ⟨1850, 1, 20, by decide⟩
            "01.01.1850 – 14.01.1850"),
          .ok (.blockCopied 1 "15.01.1850 – 15.01.1850"),
          .ok (.issueToggled 1 false ⟨1850, 1, 15, by decide⟩), .error (.unknownBlock 3),
          .ok (.blockRemoved 1)] ∧
      ∃ reopened, (press.openEditor demandDay : Filing Editor).run
          ((press.changes demandDay demands).run begun).2 =
            (.ok reopened, ((press.changes demandDay demands).run begun).2) ∧
        reopened.course.alike ((session demands).run e).2.course = true := by
  have hopen : (press.openEditor demandDay : Filing Editor).run begun =
      (.ok (.ofCourse .empty .standard demandDay), begun) :=
    Prod.ext (by decide +kernel) (by decide +kernel)
  have hroom : ∀ command ∈ demands, '/' ∉ command.1.toList ∧
      (begun.writable press.documentPath).isOk = true ∧
      (begun.writable (press.draftPath command.1)).isOk = true := by
    decide +kernel
  obtain ⟨hanswers, hreopened⟩ := changes_session hopen hroom
  exact ⟨_, hopen, hroom, hanswers.trans (by decide +kernel), hreopened⟩

end Workspace
end PressCalendar
