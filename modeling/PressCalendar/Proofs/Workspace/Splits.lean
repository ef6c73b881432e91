/-
Splits one after another, of a stored course and in a session.

A session keeps the processes of the last split apart from the imported ones.  A document
has one place for both: the processes of a split are stored with the course, and the next
one to open it takes them for imported.  So a stored course cannot tell what was imported
once it has been split, and `as-imported` repeats the split before it, which is
`repeating`.  `splits_session` compares the two.
-/
import PressCalendar.Proofs.Editor.Exchange
import PressCalendar.Proofs.Workspace.Session

namespace PressCalendar
namespace Workspace

variable {w : Workspace} {settings : Settings} {document? : Option String} {today : Date}
  {e s : Editor} {t : FileTree} {c : Course} {before : Except Error (List Process)}

/-! ## One split -/

theorem run_splitting (e : Editor) (g : Granularity) :
    (splitting g).run e = (Edit.split g).run e := by
  have hready := Edit.run_ask Editor.checkReady e
  by_cases hcount : e.course.countAppearances = 0
  · have hempty : e.course.appearances = [] := by
      rw [← List.length_eq_zero_iff, Course.length_appearances, hcount]
    have hcheck : e.checkReady = .error .emptyCourse := if_pos hcount
    rw [hcheck] at hready
    exact (run_bind_error hready).trans
      (Editor.run_split_of_error (Course.partition_of_empty hempty g)).symm
  · have hcheck : e.checkReady = .ok () := if_neg hcount
    rw [hcheck] at hready
    exact run_bind_ok hready

theorem run_splitting_fst (e : Editor) (g : Granularity) :
    ((splitting g).run e).1 = e.course.partition g := by
  rw [run_splitting]
  cases h : e.course.partition g with
  | error cause => rw [Editor.run_split_of_error h]
  | ok ps => rw [Editor.run_split_of_ok h]

theorem imported_ne_of_opened (h : opened settings today document? = .ok e) :
    e.course.imported ≠ some [] := by
  cases document? with
  | none =>
    cases h
    simp [Editor.course_ofCourse, Course.empty]
  | some xml =>
    obtain ⟨c, hread, hok⟩ := bind_eq_ok.1 h
    cases hok
    rw [Editor.course_ofCourse]
    exact Course.imported_ne_of_ofXml hread

/-! ## In a session -/

/-- Splits in one session. -/
def splitSession (gs : List Granularity) : StateM Editor (List (Except Error (List Process))) :=
  gs.mapM fun g => (splitting g).run

theorem partition_of_splitting (e : Editor) (g h : Granularity) :
    ((splitting g).run e).2.course.partition h = e.course.partition h := by
  rw [run_splitting]
  cases hp : e.course.partition g with
  | error cause => rw [Editor.run_split_of_error hp]
  | ok ps =>
    rw [Editor.run_split_of_ok hp]
    exact Course.partition_congr rfl rfl h

/-- In a session no split has to do with those before it. -/
theorem run_splitSession (gs : List Granularity) (e : Editor) :
    ((splitSession gs).run e).1 = gs.map e.course.partition := by
  induction gs generalizing e with
  | nil => rfl
  | cons g gs ih =>
    have hrest := ih ((splitting g).run e).2
    have hsame : ((splitting g).run e).2.course.partition = e.course.partition :=
      funext (partition_of_splitting e g)
    rw [hsame] at hrest
    unfold splitSession
    rw [run_mapM_cons]
    exact List.cons_eq_cons.2 ⟨run_splitting_fst e g, hrest⟩

/-! ## Of a stored course -/

/-- Splits of the stored course, each under the tag of its own run. -/
def splits (w : Workspace) (today : Date) (runs : List (String × Granularity)) :
    StateM FileTree (List (Except Error (List Process))) :=
  runs.mapM fun run => (w.split today run.1 (some run.2)).run

/-- Answers of which `as-imported` gets the one before it. -/
def repeating {α : Type} (answer : Granularity → α) (before : α) : List Granularity → List α
  | [] => []
  | g :: gs =>
    let last := if g = .asImported then before else answer g
    last :: repeating answer last gs

theorem repeating_of_not_mem {α : Type} (answer : Granularity → α) {gs : List Granularity}
    (h : Granularity.asImported ∉ gs) (before : α) :
    repeating answer before gs = gs.map answer := by
  induction gs generalizing before with
  | nil => rfl
  | cons g gs ih =>
    rw [List.mem_cons, not_or] at h
    rw [repeating, if_neg (Ne.symm h.1), ih h.2, List.map_cons]

/-- Nothing is repeated unless `as-imported` stands behind another granularity. -/
theorem repeating_eq_map {α : Type} (answer : Granularity → α) {gs : List Granularity}
    (h : ∀ front back, gs = front ++ .asImported :: back → ∀ g ∈ front, g = .asImported) :
    repeating answer (answer .asImported) gs = gs.map answer := by
  induction gs with
  | nil => rfl
  | cons g gs ih =>
    by_cases hg : g = .asImported
    · subst hg
      rw [repeating, if_pos rfl, List.map_cons, ih]
      intro front back heq g hmem
      exact h (.asImported :: front) back (by rw [heq, List.cons_append]) g (by simp [hmem])
    · have hrest : Granularity.asImported ∉ gs := by
        intro hmem
        obtain ⟨front, back, heq⟩ := List.append_of_mem hmem
        exact hg (h (g :: front) back (by rw [heq, List.cons_append]) g (by simp))
      rw [repeating, if_neg hg, repeating_of_not_mem answer hrest, List.map_cons]

/-- In the workspace there is a course in which the same appears, and which answers
`before` to `as-imported`. -/
structure Keeps (w : Workspace) (settings : Settings) (today : Date) (t : FileTree) (c : Course)
    (before : Except Error (List Process)) : Prop where
  kept : ∃ document? e, w.Holds t settings document? ∧
    opened settings today document? = .ok e ∧ e.course.appearances = c.appearances ∧
    e.course.partition .asImported = before

theorem exists_keeps (hopen : (w.openEditor today : Filing Editor).run t = (.ok e, t)) :
    ∃ settings, w.Keeps settings today t e.course (e.course.partition .asImported) := by
  obtain ⟨settings, document?, hholds, hopened⟩ := exists_holds hopen
  exact ⟨settings, document?, e, hholds, hopened, rfl, rfl⟩

theorem Keeps.run_split {document draft : List String} {tag : String}
    (h : w.Keeps settings today t c before) (hdocument : t.writable w.documentPath = .ok document)
    (htag : '/' ∉ tag.toList) (hdraft : t.writable (w.draftPath tag) = .ok draft)
    (g : Granularity) :
    ∃ answer t', (w.split today tag (some g) : Filing (List Process)).run t = (answer, t') ∧
      answer = (if g = .asImported then before else c.partition g) ∧ t.KeepsDirectories t' ∧
      w.Keeps settings today t' c answer := by
  obtain ⟨document?, e, hholds, hopened, happearances, hbefore⟩ := h.kept
  have hanswer : e.course.partition g = if g = .asImported then before else c.partition g := by
    by_cases hg : g = .asImported
    · rw [if_pos hg, hg, hbefore]
    · rw [if_neg hg, Course.partition_of_appearances hg happearances]
  have hrun : (w.split today tag (some g) : Filing (List Process)).run t =
      (w.edit today tag (splitting g) : Filing (List Process)).run t := rfl
  cases hp : e.course.partition g with
  | error cause =>
    have hsplit := (run_splitting e g).trans (Editor.run_split_of_error hp)
    exact ⟨.error cause, t, hrun.trans (hholds.run_edit_of_error hopened hsplit tag), hp ▸ hanswer,
      .refl t, ⟨document?, e, hholds, hopened, happearances,
        Course.partition_asImported_of_error hp⟩⟩
  | ok ps =>
    have hsplit := (run_splitting e g).trans (Editor.run_split_of_ok hp)
    obtain ⟨t', hsave, hkeeps, hholds'⟩ :=
      hholds.exists_stored hdocument htag hdraft (e.withProcesses ps).course.toXml
    have hstored := (hholds.run_edit_of_ok hopened hsplit tag).trans (run_bind_ok hsave)
    refine ⟨.ok ps, t', hrun.trans hstored, hp ▸ hanswer, hkeeps, ?_⟩
    -- the processes of this split are what the next one finds imported
    obtain ⟨hne, hps⟩ := Course.ne_nil_of_partition (imported_ne_of_opened hopened) hp
    have hreach : (e.withProcesses ps).Reachable := by
      have hperform := (twins_opened hopened).left.perform (.split g)
      rwa [show e.perform (.split g) = e.withProcesses ps from
        congrArg Prod.snd (Editor.run_split_of_ok hp)] at hperform
    obtain ⟨-, hopened'⟩ := opened_toXml settings today hreach
    refine ⟨_, _, hholds', hopened', ?_, ?_⟩
    · rw [Editor.course_ofCourse, Course.appearances_exchanged]
      exact happearances
    · rw [Editor.course_ofCourse]
      refine Course.partition_of_imported ?_ ?_
      · rw [Course.appearances_exchanged]
        exact hne
      · rw [Course.exchanged_of_ne_nil hps]
        rfl

theorem Keeps.run_splits {runs : List (String × Granularity)}
    (h : w.Keeps settings today t c before)
    (hroom : ∀ run ∈ runs, '/' ∉ run.1.toList ∧ (t.writable w.documentPath).isOk = true ∧
      (t.writable (w.draftPath run.1)).isOk = true) :
    ((w.splits today runs).run t).1 = repeating c.partition before (runs.map Prod.snd) := by
  induction runs generalizing t before with
  | nil => rfl
  | cons run runs ih =>
    obtain ⟨tag, g⟩ := run
    obtain ⟨htag, hdocument, hdraft⟩ := hroom (tag, g) List.mem_cons_self
    obtain ⟨document, hdocument⟩ := exists_of_isOk hdocument
    obtain ⟨draft, hdraft⟩ := exists_of_isOk hdraft
    obtain ⟨answer, t', hrun, rfl, hkeeps, hkept⟩ := h.run_split hdocument htag hdraft g
    have hrest := ih hkept fun run hmem =>
      have hroom := hroom run (List.mem_cons_of_mem _ hmem)
      ⟨hroom.1, hkeeps.isOk_writable hroom.2.1, hkeeps.isOk_writable hroom.2.2⟩
    unfold splits
    rw [run_mapM_cons]
    have hfirst : StateT.run (w.split today tag (some g) : Filing (List Process)).run t = _ := hrun
    rw [hfirst]
    exact List.cons_eq_cons.2 ⟨rfl, hrest⟩

/-- Splits in a session each answer what the course gives.  Of a stored course they answer
the same, except that `as-imported` repeats the answer of the split before it.  The two
agree if `as-imported` never stands behind another granularity. -/
theorem splits_session {runs : List (String × Granularity)}
    (hopen : (w.openEditor today : Filing Editor).run t = (.ok e, t))
    (hroom : ∀ run ∈ runs, '/' ∉ run.1.toList ∧ (t.writable w.documentPath).isOk = true ∧
      (t.writable (w.draftPath run.1)).isOk = true) :
    ((splitSession (runs.map Prod.snd)).run e).1 = (runs.map Prod.snd).map e.course.partition ∧
    ((w.splits today runs).run t).1 =
      repeating e.course.partition (e.course.partition .asImported) (runs.map Prod.snd) ∧
    ((∀ front back, runs.map Prod.snd = front ++ .asImported :: back →
        ∀ g ∈ front, g = .asImported) →
      ((w.splits today runs).run t).1 = ((splitSession (runs.map Prod.snd)).run e).1) := by
  obtain ⟨settings, hkeeps⟩ := exists_keeps hopen
  have hstored := hkeeps.run_splits hroom
  have hsession := run_splitSession (runs.map Prod.snd) e
  refine ⟨hsession, hstored, ?_⟩
  intro hbehind
  rw [hstored, hsession, repeating_eq_map e.course.partition hbehind]

/-- A newspaper of two Mondays, which was not imported. -/
def mondays : Course :=
  ⟨[⟨1, some ⟨1855, 1, 1, by decide⟩, some ⟨1855, 1, 14, by decide⟩, [.weekly "Morning" [.mon]]⟩],
    1, [], none⟩

/-- The files of `begun` with the document of `mondays`. -/
def kept : FileTree :=
  ⟨begun.entries ++ [(["press", "course.xml"], .text mondays.toXml)], []⟩

theorem openEditor_kept : (press.openEditor demandDay : Filing Editor).run kept =
    (.ok (.ofCourse mondays .standard demandDay), kept) :=
  Prod.ext (by decide +kernel) (by decide +kernel)

theorem room_kept : ∀ run ∈ [("101", Granularity.weeks), ("102", .asImported)],
    '/' ∉ run.1.toList ∧ (kept.writable press.documentPath).isOk = true ∧
      (kept.writable (press.draftPath run.1)).isOk = true := by
  decide +kernel

/-- The weeks of a split are answered again to `as-imported`. -/
theorem splits_session_kept :
    ((press.splits demandDay [("101", .weeks), ("102", .asImported)]).run kept).1 =
        [mondays.partition .weeks, mondays.partition .weeks] ∧
      (mondays.partition .weeks).map List.length = .ok 2 := by
  obtain ⟨-, hstored, -⟩ := splits_session openEditor_kept room_kept
  exact ⟨hstored, by decide +kernel⟩

/-- In a session the same question fails. -/
theorem splits_ne_splitSession :
    (press.openEditor demandDay : Filing Editor).run kept =
        (.ok (.ofCourse mondays .standard demandDay), kept) ∧
      ((splitSession [.weeks, .asImported]).run (.ofCourse mondays .standard demandDay)).1 =
        [mondays.partition .weeks, .error (.granularityUnavailable
          "the course carries no imported process boundaries")] ∧
      ((press.splits demandDay [("101", .weeks), ("102", .asImported)]).run kept).1 ≠
        ((splitSession [.weeks, .asImported]).run (.ofCourse mondays .standard demandDay)).1 := by
  obtain ⟨settings, hkeeps⟩ := exists_keeps openEditor_kept
  have hstored := hkeeps.run_splits room_kept
  have hsession := run_splitSession [.weeks, .asImported] (.ofCourse mondays .standard demandDay)
  have hunavailable : mondays.partition .asImported = .error (.granularityUnavailable
      "the course carries no imported process boundaries") := by
    decide +kernel
  have hlast : (mondays.partition .weeks).isOk = true := by
    decide +kernel
  refine ⟨openEditor_kept, hsession.trans (by rw [← hunavailable]; rfl), ?_⟩
  intro heq
  have hsecond : mondays.partition .weeks = mondays.partition .asImported :=
    congrArg (·.getD 1 (mondays.partition .weeks)) ((hstored.symm.trans heq).trans hsession)
  rw [hsecond, hunavailable] at hlast
  cases hlast

end Workspace
end PressCalendar
