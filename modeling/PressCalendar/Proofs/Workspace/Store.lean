/-
What a workspace leaves in the files.

A document is stored in three steps, over a draft beside it.  `run_saveDocument` says
what is there afterwards: the document is the new one, the draft is gone, and everything
else is as it was.  So what was read before is read again, and the next document can be
stored in the same way.
-/
import PressCalendar.Proofs.Storage.Tree
import PressCalendar.Workspace

namespace PressCalendar
namespace Workspace

variable {α : Type} {w : Workspace} {t t' : FileTree} {path tag : String} {p : List String}

/-- What is done with a tree and may fail. -/
abbrev Filing := ExceptT Error (StateM FileTree)

/-! ## Requests to a tree -/

theorem run_request (ask : StateM FileTree (Except FileFault α)) (t : FileTree) :
    (request ask).run t = ((ask t).1.mapError fun fault => .io fault.text, (ask t).2) := rfl

theorem run_step (answer : Except Error α) (t : FileTree) :
    (step answer : Filing α).run t = (answer, t) := rfl

theorem run_changing {f : FileTree → Except FileFault FileTree} (h : f t = .ok t') :
    (request (FileTree.changing f)).run t = (.ok (), t') := by
  have hchanging : FileTree.changing f t = (.ok (), t') := by
    simp only [FileTree.changing, h]
  rw [run_request, hchanging]
  rfl

theorem run_changing_of_error {f : FileTree → Except FileFault FileTree} {fault : FileFault}
    (h : f t = .error fault) :
    (request (FileTree.changing f)).run t = (.error (.io fault.text), t) := by
  have hchanging : FileTree.changing f t = (.error fault, t) := by
    simp only [FileTree.changing, h]
  rw [run_request, hchanging]
  rfl

theorem run_isPresent (path : String) (t : FileTree) :
    (isPresent path : Filing Bool).run t = (.ok (t.isPresent path), t) :=
  rfl

/-- A file is removed if there is one. -/
theorem run_removeIfPresent (h : t.writable path = .ok p) (k : Filing α) :
    ∃ t', (isPresent path >>= fun present =>
        if present then request (Files.remove path) >>= fun _ => k else k).run t = k.run t' ∧
      t.KeepsDirectories t' ∧ ∀ q, t'.get? q = if q = p then none else t.get? q := by
  obtain ⟨hpath, hplace, hfile⟩ := FileTree.writable_eq_ok.1 h
  cases hget : t.get? p with
  | none =>
    have habsent : t.isPresent path = false := by
      rw [FileTree.isPresent, FileTree.find_eq_notFound hplace hget]
      rfl
    refine ⟨t, ?_, .refl t, ?_⟩
    · rw [run_bind_ok (run_isPresent path t), habsent, if_neg Bool.false_ne_true]
    · intro q
      split
      · case isTrue hq => rw [hq, hget]
      · rfl
  | some entry =>
    have hentry : entry ≠ .directory := fun heq => hfile (heq ▸ hget)
    have hfind := (FileTree.find_eq_ok hentry).2 ⟨hpath, p, hplace, hget⟩
    have hpresent : t.isPresent path = true := by
      rw [FileTree.isPresent, hfind]
      rfl
    have hremove := FileTree.remove_of_find hentry hfind hplace
    refine ⟨t.erase p, ?_, FileTree.keepsDirectories_erase hfile, ?_⟩
    · rw [run_bind_ok (run_isPresent path t), hpresent, if_pos rfl]
      exact run_bind_ok (run_changing hremove)
    · exact FileTree.get?_erase t (FileTree.ne_nil_of_get?_ne hfile)

/-- The document that is stored is the new one, and nothing but the draft is missing
afterwards. -/
theorem run_saveDocument {draft document : List String}
    (hdraft : t.writable (w.draftPath tag) = .ok draft)
    (hdocument : t.writable w.documentPath = .ok document) (hne : draft ≠ document)
    (xml : String) :
    ∃ t', (w.saveDocument tag xml : Filing Unit).run t = (.ok (), t') ∧ t.KeepsDirectories t' ∧
      ∀ p, t'.get? p = if p = document then some (.text xml) else if p = draft then none
        else t.get? p := by
  obtain ⟨hdraftPath, hdraftPlace, hdraftFile⟩ := FileTree.writable_eq_ok.1 hdraft
  have hwritten : t.KeepsDirectories (t.put draft (.text xml)) :=
    FileTree.keepsDirectories_put hdraftFile (by simp)
  obtain ⟨cleared, hclear, hkeeps, hget⟩ := run_removeIfPresent (hwritten.writable hdocument)
    (request (Files.move (w.draftPath tag) w.documentPath))
  have hplace := hkeeps.place (hwritten.place hdraftPlace)
  have hfind : cleared.find (w.draftPath tag) = .ok (.text xml) := by
    refine (FileTree.find_eq_ok (by simp)).2 ⟨hdraftPath, draft, hplace, ?_⟩
    rw [hget, if_neg hne, FileTree.get?_put t (FileTree.ne_nil_of_get?_ne hdraftFile), if_pos rfl]
  have hgoal := hkeeps.writable (hwritten.writable hdocument)
  have hmove := FileTree.move_of_find (by simp) hfind hplace hgoal
  have hdraftLast : cleared.get? draft ≠ some .directory := by
    rw [hget, if_neg hne, FileTree.get?_put t (FileTree.ne_nil_of_get?_ne hdraftFile), if_pos rfl]
    simp
  have herased := FileTree.keepsDirectories_erase hdraftLast
  obtain ⟨-, -, hdocumentFile⟩ := FileTree.writable_eq_ok.1 (herased.writable hgoal)
  refine ⟨(cleared.erase draft).put document (.text xml), ?_, ?_, ?_⟩
  · have hwrite : (request (Files.write (w.draftPath tag) xml) : Filing Unit).run t =
        (.ok (), t.put draft (.text xml)) :=
      run_changing (f := (·.write (w.draftPath tag) xml)) (FileTree.write_of_writable hdraft xml)
    have hmoved :
        (request (Files.move (w.draftPath tag) w.documentPath) : Filing Unit).run cleared =
          (.ok (), (cleared.erase draft).put document (.text xml)) :=
      run_changing (f := (·.move (w.draftPath tag) w.documentPath)) hmove
    exact (run_bind_ok hwrite).trans (hclear.trans hmoved)
  · exact ((hwritten.trans hkeeps).trans herased).trans
      (FileTree.keepsDirectories_put hdocumentFile (by simp))
  · intro p
    rw [FileTree.get?_put _ (FileTree.ne_nil_of_get?_ne hdocumentFile),
      FileTree.get?_erase _ (FileTree.ne_nil_of_get?_ne hdraftLast), hget,
      FileTree.get?_put t (FileTree.ne_nil_of_get?_ne hdraftFile)]
    by_cases hp : p = document
    · rw [if_pos hp, if_pos hp]
    · rw [if_neg hp, if_neg hp, if_neg hp]
      by_cases hp' : p = draft
      · rw [if_pos hp', if_pos hp']
      · rw [if_neg hp', if_neg hp', if_neg hp']

/-! ## What is read -/

/-- The settings and the document that a workspace has in a tree. -/
structure Holds (w : Workspace) (t : FileTree) (settings : Settings) (document? : Option String) :
    Prop where
  settings : (w.loadSettings : Filing Settings).run t = (.ok settings, t)
  document : (w.loadDocument : Filing (Option String)).run t = (.ok document?, t)

theorem run_loadSettings (w : Workspace) (t : FileTree) :
    (w.loadSettings : Filing Settings).run t =
      (match t.read w.settingsPath with
        | .ok text => Settings.read text
        | .error .notFound => .error (.notWorkspace w.root)
        | .error fault => .error (.io fault.text), t) := by
  have hread : (ExceptT.lift (Files.read w.settingsPath) : Filing (Except FileFault String)).run t =
      (.ok (t.read w.settingsPath), t) := rfl
  unfold loadSettings
  rw [run_bind_ok hread]
  cases t.read w.settingsPath with
  | ok text => rfl
  | error fault => cases fault <;> rfl

theorem exists_read_settings {settings : Settings}
    (h : (w.loadSettings : Filing Settings).run t = (.ok settings, t')) :
    ∃ text, t.read w.settingsPath = .ok text ∧ Settings.read text = .ok settings := by
  have hanswer := congrArg Prod.fst ((run_loadSettings w t).symm.trans h)
  cases hread : t.read w.settingsPath with
  | ok text =>
    rw [hread] at hanswer
    exact ⟨text, rfl, hanswer⟩
  | error fault =>
    rw [hread] at hanswer
    cases fault <;> cases hanswer

theorem run_loadDocument (w : Workspace) (t : FileTree) :
    (w.loadDocument : Filing (Option String)).run t =
      (if t.isPresent w.documentPath then
          ((t.read w.documentPath).mapError fun fault => .io fault.text).map some
        else .ok none, t) := by
  unfold loadDocument
  rw [run_bind_ok (run_isPresent w.documentPath t)]
  split
  · rw [ExceptT.run_map]
    rfl
  · rfl

/-- Opening changes nothing, and goes by what the workspace has. -/
theorem exists_holds {today : Date} {e : Editor}
    (h : (w.openEditor today : Filing Editor).run t = (.ok e, t')) :
    ∃ settings document?, w.Holds t settings document? ∧
      opened settings today document? = .ok e := by
  obtain ⟨settings, t₁, hsettings, h⟩ := run_bind_eq_ok h
  obtain ⟨document?, t₂, hdocument, h⟩ := run_bind_eq_ok h
  obtain rfl : t = t₁ := by
    rw [run_loadSettings] at hsettings
    exact congrArg Prod.snd hsettings
  obtain rfl : t = t₂ := by
    rw [run_loadDocument] at hdocument
    exact congrArg Prod.snd hdocument
  exact ⟨settings, document?, ⟨hsettings, hdocument⟩, congrArg Prod.fst h⟩

theorem Holds.run_openEditor {settings : Settings} {document? : Option String}
    (h : w.Holds t settings document?) (today : Date) :
    (w.openEditor today : Filing Editor).run t = (opened settings today document?, t) := by
  unfold openEditor
  rw [run_bind_ok h.settings, run_bind_ok h.document]
  rfl

/-! ## What was stored -/

theorem toList_draftName (tag : String) :
    s!"course.xml.tmp-{tag}".toList = "course.xml.tmp-".toList ++ tag.toList :=
  String.toList_append

theorem isName_marker : Path.IsName ".periodical" :=
  ⟨by decide, by decide, by decide, by decide⟩

theorem isName_settings : Path.IsName "config.toml" :=
  ⟨by decide, by decide, by decide, by decide⟩

theorem isName_document : Path.IsName "course.xml" :=
  ⟨by decide, by decide, by decide, by decide⟩

theorem draftName_ne {name : String} (tag : String)
    (h : ("course.xml.tmp-".toList.isPrefixOf name.toList) = false) :
    name ≠ s!"course.xml.tmp-{tag}" := by
  rintro rfl
  rw [toList_draftName, List.isPrefixOf_iff_prefix.2 (List.prefix_append _ _)] at h
  cases h

theorem isName_draft (htag : '/' ∉ tag.toList) : Path.IsName s!"course.xml.tmp-{tag}" where
  ne_empty := (draftName_ne tag (by decide)).symm
  no_slash := by
    rw [toList_draftName, List.mem_append, not_or]
    exact ⟨by decide, htag⟩
  ne_dot := (draftName_ne tag (by decide)).symm
  ne_dots := (draftName_ne tag (by decide)).symm

/-- The settings, the document and its drafts never stand at the same place. -/
theorem places_ne {settings document draft : List String} (htag : '/' ∉ tag.toList)
    (hsettings : t.place w.settingsPath = .ok settings)
    (hdocument : t.place w.documentPath = .ok document)
    (hdraft : t.place (w.draftPath tag) = .ok draft) :
    settings ≠ document ∧ settings ≠ draft ∧ draft ≠ document :=
  ⟨FileTree.place_join_ne isName_settings isName_document (by decide) hsettings hdocument,
    FileTree.place_join_ne isName_settings (isName_draft htag) (draftName_ne tag (by decide))
      hsettings hdraft,
    FileTree.place_join_ne (isName_draft htag) isName_document (draftName_ne tag (by decide)).symm
      hdraft hdocument⟩

/-- A document that was stored is read again, with the settings as they were. -/
theorem Holds.exists_stored {settings : Settings} {document? : Option String}
    {draft document : List String} (h : w.Holds t settings document?)
    (hdocument : t.writable w.documentPath = .ok document) (htag : '/' ∉ tag.toList)
    (hdraft : t.writable (w.draftPath tag) = .ok draft) (xml : String) :
    ∃ t', (w.saveDocument tag xml : Filing Unit).run t = (.ok (), t') ∧ t.KeepsDirectories t' ∧
      w.Holds t' settings (some xml) := by
  obtain ⟨hpath, hplace, -⟩ := FileTree.writable_eq_ok.1 hdocument
  obtain ⟨-, hdraftPlace, -⟩ := FileTree.writable_eq_ok.1 hdraft
  obtain ⟨text, hread, hmeaning⟩ := exists_read_settings h.settings
  obtain ⟨hsettingsPath, p, hsettingsPlace, hget⟩ := FileTree.read_eq_ok.1 hread
  obtain ⟨hp, hp', hne⟩ := places_ne htag hsettingsPlace hplace hdraftPlace
  obtain ⟨t', hrun, hkeeps, hafter⟩ := run_saveDocument hdraft hdocument hne xml
  refine ⟨t', hrun, hkeeps, ?_, ?_⟩
  · have hreadAfter : t'.read w.settingsPath = .ok text := by
      refine FileTree.read_eq_ok.2 ⟨hsettingsPath, p, hkeeps.place hsettingsPlace, ?_⟩
      rw [hafter, if_neg hp, if_neg hp', hget]
    rw [run_loadSettings, hreadAfter]
    exact congrArg (·, t') hmeaning
  · have hfind : t'.find w.documentPath = .ok (.text xml) := by
      refine (FileTree.find_eq_ok (by simp)).2 ⟨hpath, document, hkeeps.place hplace, ?_⟩
      rw [hafter, if_pos rfl]
    have hpresent : t'.isPresent w.documentPath = true := by
      rw [FileTree.isPresent, hfind]
      rfl
    have hreadAfter : t'.read w.documentPath = .ok xml := by
      refine FileTree.read_eq_ok.2 ⟨hpath, document, hkeeps.place hplace, ?_⟩
      rw [hafter, if_pos rfl]
    rw [run_loadDocument, hpresent, if_pos rfl, hreadAfter]
    rfl

end Workspace
end PressCalendar
