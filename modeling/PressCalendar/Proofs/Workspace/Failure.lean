/-
What commands leave of the files.

A command first asks, of the files and of the editor that is opened from them, and stores
something only after nothing can be wrong with it any more.  So the commands that only
show something, and all commands that fail, leave the files as they are.  `Asks` and
`Spares` say this of the parts of a command, and both go from the parts to the whole.

A document is stored in three steps, and the last two would leave something behind if
they failed.  They cannot: the document that was looked for stands beside the draft, so
where the draft can be written, the document can be replaced.
-/
import PressCalendar.Proofs.Workspace.Splits

namespace PressCalendar
namespace Workspace

variable {α β : Type} {w : Workspace} {t t' : FileTree} {tag xml : String}

/-! ## Asking and sparing -/

/-- The files stay as they are, whatever the answer is. -/
def Asks (x : Filing α) : Prop := ∀ t, (x.run t).2 = t

/-- The files stay as they are unless all goes well. -/
def Spares (x : Filing α) (t : FileTree) : Prop :=
  ∀ cause t', x.run t = (.error cause, t') → t' = t

theorem Asks.exists_run {x : Filing α} (h : Asks x) (t : FileTree) :
    ∃ answer, x.run t = (answer, t) :=
  ⟨(x.run t).1, Prod.ext rfl (h t)⟩

theorem Asks.spares {x : Filing α} (h : Asks x) (t : FileTree) : Spares x t := by
  intro cause t' hrun
  rw [← h t, hrun]

theorem Asks.bind {x : Filing α} {k : α → Filing β} (hx : Asks x) (hk : ∀ a, Asks (k a)) :
    Asks (x >>= k) := by
  intro t
  obtain ⟨answer, hrun⟩ := hx.exists_run t
  cases answer with
  | error cause => rw [run_bind_error hrun]
  | ok a =>
    rw [run_bind_ok hrun]
    exact hk a t

/-- What was asked before is known when it comes to storing. -/
theorem Asks.bind_spares {x : Filing α} {k : α → Filing β} (hx : Asks x)
    (hk : ∀ a, x.run t = (.ok a, t) → Spares (k a) t) : Spares (x >>= k) t := by
  intro cause t' h
  obtain ⟨answer, hrun⟩ := hx.exists_run t
  cases answer with
  | error cause' =>
    rw [run_bind_error hrun] at h
    cases h
    rfl
  | ok a =>
    rw [run_bind_ok hrun] at h
    exact hk a hrun cause t' h

theorem Asks.bind_eq_ok {x : Filing α} {k : α → Filing β} {b : β} (hx : Asks x)
    (h : (x >>= k).run t = (.ok b, t')) :
    ∃ a, x.run t = (.ok a, t) ∧ (k a).run t = (.ok b, t') := by
  obtain ⟨a, t₁, hrun, hrest⟩ := run_bind_eq_ok h
  obtain rfl : t = t₁ := by rw [← hx t, hrun]
  exact ⟨a, hrun, hrest⟩

/-- Nothing goes wrong after the storing. -/
theorem Spares.bind_pure {x : Filing α} (hx : Spares x t) (f : α → β) :
    Spares (x >>= fun a => pure (f a)) t := by
  intro cause t' h
  cases hrun : x.run t with
  | mk answer t₁ =>
    cases answer with
    | error cause' =>
      rw [run_bind_error hrun] at h
      cases h
      exact hx cause t' hrun
    | ok a =>
      rw [run_bind_ok hrun] at h
      cases h

theorem asks_pure (a : α) : Asks (pure a) := fun _ => rfl

theorem asks_throw (cause : Error) : Asks (throw cause : Filing α) := fun _ => rfl

theorem asks_step (answer : Except Error α) : Asks (step answer) := fun _ => rfl

theorem asks_lift {x : StateM FileTree α} (h : ∀ t, (x.run t).2 = t) :
    Asks (ExceptT.lift x) := by
  intro t
  exact h t

theorem asks_read (path : String) : Asks (request (Files.read path)) := fun _ => rfl

/-- A change that is made as a whole or not at all. -/
theorem spares_changing (f : FileTree → Except FileFault FileTree) (t : FileTree) :
    Spares (request (FileTree.changing f)) t := by
  intro cause t' h
  cases hf : f t with
  | ok changed =>
    rw [run_changing hf] at h
    cases h
  | error fault =>
    rw [run_changing_of_error hf] at h
    cases h
    rfl

/-! ## Looking for a workspace and opening it -/

theorem run_findAmong (roots : List String) (t : FileTree) :
    ((findAmong roots : StateM FileTree (Option Workspace)).run t).2 = t := by
  induction roots with
  | nil => rfl
  | cons root roots ih =>
    have hrun : (findAmong (root :: roots) : StateM FileTree (Option Workspace)).run t =
        if t.isDirectory (marker root) then (some ⟨root⟩, t)
        else (findAmong roots : StateM FileTree (Option Workspace)).run t := by
      have hasks : (Files.isDirectory (marker root) : StateM FileTree Bool).run t =
          (t.isDirectory (marker root), t) := rfl
      rw [findAmong, StateT.run_bind, hasks]
      show StateT.run (if t.isDirectory (marker root) then _ else _) t = _
      split <;> rfl
    rw [hrun]
    split
    · rfl
    · exact ih

theorem asks_discover (chosen : Option String) : Asks (discover chosen) := by
  unfold discover
  cases chosen with
  | some root =>
    apply (asks_lift (run_findAmong [root])).bind
    intro found?
    cases found? with
    | some w => exact asks_pure w
    | none => exact asks_throw _
  | none =>
    apply Asks.bind (fun _ => rfl)
    intro start
    apply (asks_lift (run_findAmong (start :: Path.parents start))).bind
    intro found?
    cases found? with
    | some w => exact asks_pure w
    | none => exact asks_throw _

theorem asks_loadSettings (w : Workspace) : Asks w.loadSettings := by
  intro t
  rw [run_loadSettings]

theorem asks_loadDocument (w : Workspace) : Asks w.loadDocument := by
  intro t
  rw [run_loadDocument]

theorem asks_openEditor (w : Workspace) (today : Date) : Asks (w.openEditor today) :=
  (asks_loadSettings w).bind fun _ => (asks_loadDocument w).bind fun _ => asks_step _

/-! ## Storing -/

/-- Where a draft can be written beside the document that was looked for, the document can
be replaced. -/
theorem exists_writable_document {document? : Option String} {draft : List String}
    (hload : (w.loadDocument : Filing (Option String)).run t = (.ok document?, t))
    (htag : '/' ∉ tag.toList) (hdraft : t.writable (w.draftPath tag) = .ok draft) :
    ∃ document, t.writable w.documentPath = .ok document := by
  obtain ⟨-, hplace, -⟩ := FileTree.writable_eq_ok.1 hdraft
  obtain ⟨hlong, -, root, hroot, -⟩ := (FileTree.place_join_eq_ok (isName_draft htag)).1 hplace
  have hsize : "course.xml".utf8ByteSize ≤ s!"course.xml.tmp-{tag}".utf8ByteSize := by
    have hdraftSize : s!"course.xml.tmp-{tag}".utf8ByteSize =
        "course.xml.tmp-".utf8ByteSize + tag.utf8ByteSize := String.utf8ByteSize_append
    have hless : "course.xml".utf8ByteSize ≤ "course.xml.tmp-".utf8ByteSize := by decide
    omega
  have hdocument : t.place w.documentPath = .ok (root ++ ["course.xml"]) :=
    (FileTree.place_join_eq_ok isName_document).2
      ⟨Path.isTooLong_join (isName_draft htag) isName_document hsize hlong, by decide, root, hroot,
        rfl⟩
  refine ⟨_, FileTree.writable_eq_ok.2 ⟨Path.wantsDirectory_join isName_document, hdocument, ?_⟩⟩
  intro hdirectory
  -- a directory in the place of the document could not have been read
  have hfind := FileTree.find_of_directory hdocument hdirectory
  have hread : t.read w.documentPath = .error .isDirectory := by
    simp only [FileTree.read, hfind, bind, Except.bind]
  rw [run_loadDocument, FileTree.isPresent, hfind, hread] at hload
  cases hload

theorem run_saveDocument_of_error {fault : FileFault}
    (hdraft : t.writable (w.draftPath tag) = .error fault) (xml : String) :
    (w.saveDocument tag xml : Filing Unit).run t = (.error (.io fault.text), t) := by
  have hfails : t.write (w.draftPath tag) xml = .error fault := by
    unfold FileTree.write
    rw [hdraft]
    rfl
  have hwrite : (request (Files.write (w.draftPath tag) xml) : Filing Unit).run t =
      (.error (.io fault.text), t) :=
    run_changing_of_error (f := (·.write (w.draftPath tag) xml)) hfails
  unfold saveDocument
  rw [run_bind_error hwrite]

theorem spares_saveDocument {document? : Option String}
    (hload : (w.loadDocument : Filing (Option String)).run t = (.ok document?, t))
    (htag : '/' ∉ tag.toList) (xml : String) : Spares (w.saveDocument tag xml) t := by
  intro cause t' h
  cases hdraft : t.writable (w.draftPath tag) with
  | error fault =>
    rw [run_saveDocument_of_error hdraft] at h
    cases h
    rfl
  | ok draft =>
    obtain ⟨document, hdocument⟩ := exists_writable_document hload htag hdraft
    obtain ⟨-, hdraftPlace, -⟩ := FileTree.writable_eq_ok.1 hdraft
    obtain ⟨-, hdocumentPlace, -⟩ := FileTree.writable_eq_ok.1 hdocument
    have hne : draft ≠ document :=
      FileTree.place_join_ne (isName_draft htag) isName_document (draftName_ne tag (by decide)).symm
        hdraftPlace hdocumentPlace
    obtain ⟨saved, hrun, -⟩ := run_saveDocument hdraft hdocument hne xml
    rw [hrun] at h
    cases h

theorem spares_edit (htag : '/' ∉ tag.toList) (today : Date) (x : Edit α) :
    Spares (w.edit today tag x) t := by
  apply (asks_loadSettings w).bind_spares
  intro settings _
  apply (asks_loadDocument w).bind_spares
  intro document? hload
  apply (asks_step (revise settings today document? x)).bind_spares
  intro answer _
  exact (spares_saveDocument hload htag answer.2).bind_pure fun _ => answer.1

theorem spares_split (htag : '/' ∉ tag.toList) (today : Date) (given : Option Granularity) :
    Spares (w.split today tag given) t := by
  unfold Workspace.split
  cases given with
  | some g => exact (asks_pure g).bind_spares fun g _ => spares_edit htag today (splitting g)
  | none =>
    have hasks : Asks (Settings.granularity <$> w.loadSettings) := by
      rw [map_eq_pure_bind]
      exact (asks_loadSettings w).bind fun settings => asks_pure settings.granularity
    exact hasks.bind_spares fun g _ => spares_edit htag today (splitting g)

/-- Where settings were read, there is a directory for them. -/
theorem isPresent_marker {settings : Settings}
    (hload : (w.loadSettings : Filing Settings).run t = (.ok settings, t)) :
    t.isPresent (marker w.root) = true := by
  obtain ⟨text, hread, -⟩ := exists_read_settings hload
  obtain ⟨-, p, hplace, -⟩ := FileTree.read_eq_ok.1 hread
  have hmarker : marker w.root ≠ "" := Path.join_ne_empty isName_marker
  rw [FileTree.isPresent, FileTree.find_of_place_join isName_settings hmarker hplace]
  rfl

theorem spares_changeSetting (w : Workspace) (key value : String) (t : FileTree) :
    Spares (w.changeSetting key value) t := by
  apply (asks_loadSettings w).bind_spares
  intro settings hload
  apply (asks_step (settings.set key value)).bind_spares
  intro changed _
  have hwrite : (w.saveSettings changed : Filing Unit).run t =
      (request (Files.write w.settingsPath changed.text) : Filing Unit).run t := by
    unfold saveSettings
    rw [run_bind_ok (run_isPresent (marker w.root) t), isPresent_marker hload]
    rfl
  intro cause t' h
  rw [hwrite] at h
  exact spares_changing (·.write w.settingsPath changed.text) t cause t' h

/-- Where settings were read, the paths of the workspace lead somewhere. -/
theorem exists_places {settings : Settings}
    (hload : (w.loadSettings : Filing Settings).run t = (.ok settings, t)) :
    (∃ p, t.place w.settingsPath = .ok p) ∧ ∃ p, t.place w.documentPath = .ok p := by
  obtain ⟨text, hread, -⟩ := exists_read_settings hload
  obtain ⟨-, p, hplace, -⟩ := FileTree.read_eq_ok.1 hread
  obtain ⟨hlong, -, q, hmarker, -⟩ := (FileTree.place_join_eq_ok isName_settings).1 hplace
  obtain ⟨-, root, hroot, -⟩ := (FileTree.walk_join isName_marker).1 hmarker.walk
  have hdocumentLong : Path.isTooLong w.documentPath = false :=
    Path.isTooLong_join isName_marker isName_document (by decide)
      (Path.isTooLong_of_join isName_settings hlong)
  exact ⟨⟨p, hplace⟩, root ++ ["course.xml"],
    (FileTree.place_join_eq_ok isName_document).2 ⟨hdocumentLong, by decide, root, hroot, rfl⟩⟩

end Workspace

/-! ## Commands -/

namespace Command

open Workspace

variable {s : Session} {t t' : FileTree}

/-- Commands that show something and store nothing. -/
def onlyShows : Command → Bool
  | listSettings | showSetting _ | explainSettings | listBlocks | showSheet .. | count => true
  | _ => false

theorem asks_run (s : Session) {c : Command} (h : c.onlyShows = true) : Asks (c.run s) := by
  cases c with
  | listSettings =>
    exact (asks_discover _).bind fun w => (asks_loadSettings w).bind fun _ => asks_pure _
  | showSetting key =>
    exact (asks_discover _).bind fun w => (asks_loadSettings w).bind fun settings =>
      (asks_step (settings.get key)).bind fun _ => asks_pure _
  | explainSettings => exact (asks_discover _).bind fun _ => asks_pure _
  | listBlocks =>
    exact (asks_discover _).bind fun w => (asks_openEditor w _).bind fun _ => asks_pure _
  | showSheet year block =>
    exact (asks_discover _).bind fun w => (asks_openEditor w _).bind fun e =>
      (asks_step (turnTo year block e)).bind fun _ => asks_pure _
  | count => exact (asks_discover _).bind fun w => (asks_openEditor w _).bind fun _ => asks_pure _
  | _ => cases h

/-- A command that stores something does so last. -/
theorem spares_run (htag : '/' ∉ s.tag.toList) (c : Command) (hstart : ∀ path, c ≠ start path)
    (t : FileTree) : Spares (c.run s) t := by
  by_cases hshows : c.onlyShows = true
  · exact (asks_run s hshows).spares t
  · cases c with
    | start path => exact absurd rfl (hstart path)
    | changeSetting key value =>
      apply (asks_discover _).bind_spares
      intro w _
      exact (spares_changeSetting w key value t).bind_pure fun _ => s!"Set {key} = {value}\n"
    | change c =>
      apply (asks_discover _).bind_spares
      intro w _
      apply (asks_step c.edit).bind_spares
      intro edit _
      exact (spares_edit htag s.today edit).bind_pure outcomeText
    | split granularity =>
      apply (asks_step (readGranularity granularity)).bind_spares
      intro g _
      apply (asks_discover _).bind_spares
      intro w _
      exact (spares_split htag s.today g).bind_pure Report.processList
    | importFrom file =>
      apply (asks_read file).bind_spares
      intro xml _
      apply (asks_discover _).bind_spares
      intro w _
      exact (spares_edit htag s.today (importing xml)).bind_pure fun number =>
        s!"Imported {number} blocks from {file}\n"
    | exportTo file =>
      apply (asks_discover _).bind_spares
      intro w _
      apply (asks_openEditor w _).bind_spares
      intro e _
      apply (asks_step (Edit.download.run e).1).bind_spares
      intro xml _
      exact (spares_changing (·.write file xml) t).bind_pure fun _ =>
        s!"Exported course to {file}\n"
    | _ => exact absurd rfl hshows

theorem exists_write_of_export {file output : String}
    (hrun : ((exportTo file).run s : Filing String).run t = (.ok output, t')) :
    ∃ w settings xml, (discover s.chosen : Filing Workspace).run t = (.ok w, t) ∧
      (w.loadSettings : Filing Settings).run t = (.ok settings, t) ∧
      t.write file xml = .ok t' := by
  obtain ⟨w, hdiscover, hrun⟩ := (asks_discover _).bind_eq_ok hrun
  obtain ⟨e, hopen, hrun⟩ := (asks_openEditor w _).bind_eq_ok hrun
  obtain ⟨xml, -, hrun⟩ := (asks_step (Edit.download.run e).1).bind_eq_ok hrun
  obtain ⟨_, t₁, hwrite, hrun⟩ := run_bind_eq_ok hrun
  cases hrun
  obtain ⟨settings, document?, hholds, -⟩ := exists_holds hopen
  refine ⟨w, settings, xml, hdiscover, hholds.settings, ?_⟩
  change (request (FileTree.changing (·.write file xml)) : Filing Unit).run t = _ at hwrite
  cases hstored : t.write file xml with
  | error fault =>
    rw [run_changing_of_error hstored] at hwrite
    cases hwrite
  | ok stored =>
    rw [run_changing hstored] at hwrite
    cases hwrite
    rfl

/-- An export changes nothing but what stands where its file goes. -/
theorem find_of_export {w : Workspace} {file output : String}
    (hw : (discover s.chosen : Filing Workspace).run t = (.ok w, t))
    (hrun : ((exportTo file).run s : Filing String).run t = (.ok output, t'))
    (hdocument : t.place file ≠ t.place w.documentPath)
    (hsettings : t.place file ≠ t.place w.settingsPath) :
    t'.find w.documentPath = t.find w.documentPath ∧
      t'.find w.settingsPath = t.find w.settingsPath := by
  obtain ⟨w', settings, xml, hw', hload, hwrite⟩ := exists_write_of_export hrun
  cases hw.symm.trans hw'
  obtain ⟨⟨p, hp⟩, ⟨q, hq⟩⟩ := exists_places hload
  obtain ⟨place, hwritable, rfl⟩ := FileTree.write_eq_ok.1 hwrite
  obtain ⟨-, hfile, hold⟩ := FileTree.writable_eq_ok.1 hwritable
  rw [hfile, hq] at hdocument
  rw [hfile, hp] at hsettings
  exact ⟨FileTree.find_put hq hold (fun heq => hdocument (congrArg _ heq.symm)) (by simp),
    FileTree.find_put hp hold (fun heq => hsettings (congrArg _ heq.symm)) (by simp)⟩

end Command

namespace Reply

open Workspace

variable {s : Session} {words : List String} {t t' : FileTree} {reply : Reply}

theorem run_ofWords {c : Command} (h : Command.read words = .ok c) (t : FileTree) :
    (ofWords s words : StateM FileTree Reply).run t =
      (ofResult ((c.run s : Filing String).run t).1, ((c.run s : Filing String).run t).2) := by
  unfold ofWords
  rw [h]
  rfl

/-- A run that fails, or that says anything of an error, leaves the files as they are, and
so does any run that only shows something.  An export leaves the settings and the document
as they are unless it goes there.  Only the start of a workspace is not spoken of. -/
theorem ofWords_keeps_files (htag : '/' ∉ s.tag.toList)
    (hrun : (ofWords s words : StateM FileTree Reply).run t = (reply, t')) :
    ((∀ path, Command.read words ≠ .ok (.start path)) →
      reply.code ≠ 0 ∨ reply.complaint ≠ "" → t' = t) ∧
    (∀ c, Command.read words = .ok c → c.onlyShows = true → t' = t) ∧
    (∀ file w, Command.read words = .ok (.exportTo file) →
      (discover s.chosen : Filing Workspace).run t = (.ok w, t) →
      t.place file ≠ t.place w.documentPath → t.place file ≠ t.place w.settingsPath →
      t'.find w.documentPath = t.find w.documentPath ∧
        t'.find w.settingsPath = t.find w.settingsPath) := by
  cases hread : Command.read words with
  | error cause =>
    have hsame : t' = t := by
      unfold ofWords at hrun
      rw [hread] at hrun
      exact (congrArg Prod.snd hrun).symm
    exact ⟨fun _ _ => hsame, fun _ h => (nomatch h), fun _ _ h => (nomatch h)⟩
  | ok c =>
    rw [run_ofWords hread] at hrun
    obtain ⟨hreply, hafter⟩ := Prod.mk.inj hrun
    refine ⟨?_, ?_, ?_⟩
    · intro hstart hfailed
      have hnever : ∀ path, c ≠ .start path := by
        intro path heq
        exact hstart path (congrArg _ heq)
      cases hanswer : ((c.run s : Filing String).run t).1 with
      | error cause =>
        exact Command.spares_run htag c hnever t cause t' (Prod.ext hanswer hafter)
      | ok output =>
        rw [hanswer] at hreply
        subst hreply
        exact absurd rfl (hfailed.resolve_left (fun hcode => hcode rfl))
    · intro c' heq hshows
      cases heq
      rw [← hafter]
      exact Command.asks_run s hshows t
    · intro file w heq hdiscover hdocument hsettings
      cases heq
      cases hanswer : ((Command.run s (.exportTo file) : Filing String).run t).1 with
      | error cause =>
        have hsame : t' = t :=
          Command.spares_run htag (.exportTo file) (fun _ => nofun) t cause t'
            (Prod.ext hanswer hafter)
        rw [hsame]
        exact ⟨rfl, rfl⟩
      | ok output =>
        exact Command.find_of_export hdiscover (Prod.ext hanswer hafter) hdocument hsettings

def demandNoon : Moment := ⟨demandDay, ⟨720, by decide⟩, ⟨0, by decide⟩, ⟨0, by decide⟩⟩

/-- A run in `press`. -/
def demand (words : List String) : StateM FileTree Reply :=
  ofWords ⟨some "/press", demandDay, demandNoon, "101"⟩ words

/-- Words for a block that would share a day with the one of `mondays`. -/
def meeting : List String := ["block", "add", "--first", "14.1.1855", "--last", "20.1.1855"]

/-- Words for a copy beside the document. -/
def copying : List String := ["export", "/press/copy.xml"]

theorem ofWords_keeps_files_kept :
    ((demand meeting).run kept).1.code = 4 ∧ ((demand meeting).run kept).2 = kept ∧
      (demand ["count"]).run begun = (⟨0, "0\n", ""⟩, begun) ∧
      ((demand copying).run kept).1.code = 0 ∧
      ((demand copying).run kept).2.find press.documentPath = kept.find press.documentPath := by
  obtain ⟨hfails, -, -⟩ :=
    ofWords_keeps_files (by decide) (Prod.eta ((demand meeting).run kept)).symm
  obtain ⟨-, hshows, -⟩ :=
    ofWords_keeps_files (by decide) (Prod.eta ((demand ["count"]).run begun)).symm
  obtain ⟨-, -, hexports⟩ :=
    ofWords_keeps_files (by decide) (Prod.eta ((demand copying).run kept)).symm
  have hread : Command.read meeting = .ok (.change (.addBlock "14.1.1855" "20.1.1855")) := by
    decide +kernel
  have hcode : ((demand meeting).run kept).1.code = 4 := by
    decide +kernel
  have hcount : ((demand ["count"]).run begun).1 = ⟨0, "0\n", ""⟩ := by
    decide +kernel
  have hcopied : ((demand copying).run kept).1.code = 0 := by
    decide +kernel
  have hdiscover : (discover (some "/press") : Filing Workspace).run kept = (.ok press, kept) :=
    Prod.ext (by decide +kernel) rfl
  refine ⟨hcode, hfails ?_ (.inl ?_), Prod.ext hcount (hshows .count (by decide +kernel) rfl),
    hcopied, ?_⟩
  · intro path
    rw [hread]
    exact nofun
  · rw [hcode]
    decide
  · exact (hexports "/press/copy.xml" press (by decide +kernel) hdiscover (by decide +kernel)
      (by decide +kernel)).1

end Reply
end PressCalendar
