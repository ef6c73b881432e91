/-
Storing a document when any step of it may fail.

The document is written beside the stored one, the stored one is removed, and the new one is
moved into its place.  What is stored survives a failure of the first two steps.  Between the
second and the third there is no document, and a workspace without one counts as having an
empty course: `Loses` says when it comes to that, and `saveDocument_interrupted` that this is
the only way to lose a document.  It then stands whole in the draft.
-/
import PressCalendar.Proofs.Storage.Faulty
import PressCalendar.Proofs.Workspace.Failure

namespace PressCalendar

namespace Workspace

variable {α : Type} {w : Workspace} {s s' : FaultyTree} {t : FileTree}
  {path source target tag xml : String} {document? : Option String} {draft document : List String}

/-- What is done with a tree on which requests may fail. -/
abbrev Risking := ExceptT Error (StateM FaultyTree)

/-! ## Requests that may fail -/

theorem run_faulty (ask : StateM FaultyTree (Except FileFault α)) (s : FaultyTree) :
    (request ask : Risking α).run s = ((ask s).1.mapError fun fault => .io fault.text, (ask s).2) :=
  rfl

variable {f : FileTree → Except FileFault FileTree} {spoil : Remnant → FileTree → FileTree}

theorem run_granted (hfate : s.fate 0 = .granted) (hf : f s.tree = .ok t) :
    (request (FaultyTree.changing f spoil) : Risking Unit).run s = (.ok (), s.after t) := by
  rw [run_faulty, FaultyTree.changing_of_granted hfate, FileTree.changing, hf]
  rfl

/-- A request that fails of itself changes nothing even if it is granted. -/
theorem run_granted_of_error {fault : FileFault} (hfate : s.fate 0 = .granted)
    (hf : f s.tree = .error fault) :
    (request (FaultyTree.changing f spoil) : Risking Unit).run s =
      (.error (.io fault.text), s.after s.tree) := by
  rw [run_faulty, FaultyTree.changing_of_granted hfate, FileTree.changing, hf]
  rfl

theorem exists_run_of_ne (hfate : s.fate 0 ≠ .granted)
    (f : FileTree → Except FileFault FileTree) (spoil : Remnant → FileTree → FileTree) :
    ∃ cause t, (request (FaultyTree.changing f spoil) : Risking Unit).run s =
        (.error cause, s.after t) ∧ (t = s.tree ∨ ∃ remnant, t = spoil remnant s.tree) := by
  obtain ⟨fault, t, hfails, ht⟩ := FaultyTree.exists_changing_of_ne hfate f spoil
  refine ⟨.io fault.text, t, ?_, ht⟩
  rw [run_faulty, hfails]
  rfl

theorem eq_ok_of_run
    (h : (request (FaultyTree.changing f spoil) : Risking Unit).run s = (.ok (), s')) :
    f s.tree = .ok s'.tree := by
  rw [run_faulty] at h
  obtain ⟨hanswer, hafter⟩ := Prod.mk.inj h
  exact FaultyTree.eq_ok_of_changing (Prod.ext (mapError_eq_ok.1 hanswer) hafter)

variable (ask : StateM FaultyTree (Except FileFault Unit))

/-- A request that is granted leaves the others with the fates they had. -/
theorem exists_run_granted (hask : ask = FaultyTree.changing f spoil) (hfate : s.fate 0 = .granted)
    (hf : f s.tree = .ok t) :
    ∃ s', (request ask : Risking Unit).run s = (.ok (), s') ∧ s'.tree = t ∧
      ∀ index, s'.fate index = s.fate (index + 1) := by
  subst hask
  exact ⟨s.after t, run_granted hfate hf, FaultyTree.tree_after, FaultyTree.fate_after⟩

/-- A request that leaves nothing half done, like a removal or a move, changes nothing if it
fails. -/
theorem exists_run_unspoilt (hask : ask = FaultyTree.changing f fun _ t => t)
    (hfate : s.fate 0 ≠ .granted) :
    ∃ cause, (request ask : Risking Unit).run s = (.error cause, s.after s.tree) := by
  subst hask
  obtain ⟨cause, t, hrun, rfl | ⟨_, rfl⟩⟩ := exists_run_of_ne hfate f fun _ t => t
  · exact ⟨cause, hrun⟩
  · exact ⟨cause, hrun⟩

theorem run_move (hfate : s.fate 0 = .granted) (h : s.tree.move source target = .ok t) :
    (request (Files.move source target) : Risking Unit).run s = (.ok (), s.after t) :=
  run_granted (f := (·.move source target)) hfate h

theorem run_move_cases (source target : String) (s : FaultyTree) :
    (∃ t, (request (Files.move source target) : Risking Unit).run s = (.ok (), s.after t)) ∨
      ∃ cause, (request (Files.move source target) : Risking Unit).run s =
        (.error cause, s.after s.tree) := by
  by_cases hfate : s.fate 0 = .granted
  · cases hmove : s.tree.move source target with
    | ok t => exact .inl ⟨t, run_move hfate hmove⟩
    | error fault =>
      exact .inr ⟨_, run_granted_of_error (f := (·.move source target)) hfate hmove⟩
  · exact .inr (exists_run_unspoilt (Files.move source target) rfl hfate)

/-! ## The document -/

/-- Whoever only asks gets the answers of the tree. -/
theorem run_loadDocument_faulty (w : Workspace) (s : FaultyTree) :
    (w.loadDocument : Risking (Option String)).run s =
      (((w.loadDocument : Filing (Option String)).run s.tree).1, s) := by
  have hasks : (isPresent w.documentPath : Risking Bool).run s =
      (.ok (s.tree.isPresent w.documentPath), s) := rfl
  rw [run_loadDocument]
  unfold loadDocument
  rw [run_bind_ok hasks]
  split
  · rw [ExceptT.run_map]
    rfl
  · rfl

theorem run_loadDocument_eq_ok_iff :
    (w.loadDocument : Risking (Option String)).run s = (.ok document?, s) ↔
      ((w.loadDocument : Filing (Option String)).run s.tree).1 = .ok document? := by
  rw [run_loadDocument_faulty]
  exact ⟨congrArg Prod.fst, fun h => Prod.ext h rfl⟩

/-- What is loaded goes by what is found at the path of the document. -/
theorem loadDocument_congr {t' : FileTree} (h : t'.find w.documentPath = t.find w.documentPath) :
    ((w.loadDocument : Filing (Option String)).run t').1 =
      ((w.loadDocument : Filing (Option String)).run t).1 := by
  rw [run_loadDocument, run_loadDocument, FileTree.isPresent, FileTree.isPresent, FileTree.read,
    FileTree.read, h]

/-- Where there is no document, none is loaded, and nothing is said of it. -/
theorem loadDocument_of_notFound (h : t.find w.documentPath = .error .notFound) :
    ((w.loadDocument : Filing (Option String)).run t).1 = .ok none := by
  rw [run_loadDocument, FileTree.isPresent, h]
  rfl

theorem loadDocument_of_text (h : t.find w.documentPath = .ok (.text xml)) :
    ((w.loadDocument : Filing (Option String)).run t).1 = .ok (some xml) := by
  rw [run_loadDocument, FileTree.isPresent, FileTree.read, h]
  rfl

theorem isPresent_of_loadDocument
    (h : ((w.loadDocument : Filing (Option String)).run t).1 = .ok document?) :
    document?.isSome = t.isPresent w.documentPath := by
  rw [run_loadDocument] at h
  cases hpresent : t.isPresent w.documentPath with
  | false =>
    rw [hpresent] at h
    cases h
    rfl
  | true =>
    rw [hpresent, if_pos rfl] at h
    cases hread : t.read w.documentPath with
    | ok text =>
      rw [hread] at h
      cases h
      rfl
    | error fault =>
      rw [hread] at h
      cases h

/-! ## Between the steps -/

/-- Neither the writing of a draft nor the removal of the document after it concerns a
directory. -/
theorem keeps_between (hdraft : t.writable (w.draftPath tag) = .ok draft)
    (hdocument : t.writable w.documentPath = .ok document) (xml : String) :
    t.KeepsDirectories (t.put draft (.text xml)) ∧
      t.KeepsDirectories ((t.put draft (.text xml)).erase document) := by
  obtain ⟨-, -, hfile⟩ := FileTree.writable_eq_ok.1 hdraft
  have hwritten : t.KeepsDirectories (t.put draft (.text xml)) :=
    FileTree.keepsDirectories_put hfile (by simp)
  obtain ⟨-, -, hold⟩ := FileTree.writable_eq_ok.1 (hwritten.writable hdocument)
  exact ⟨hwritten, hwritten.trans (FileTree.keepsDirectories_erase hold)⟩

/-- A draft that was written stays where it is when the document is removed. -/
theorem find_draft (hdraft : t.writable (w.draftPath tag) = .ok draft)
    (hdocument : t.writable w.documentPath = .ok document) (hne : draft ≠ document) (xml : String) :
    ((t.put draft (.text xml)).erase document).find (w.draftPath tag) = .ok (.text xml) := by
  obtain ⟨hpath, hplace, hfile⟩ := FileTree.writable_eq_ok.1 hdraft
  obtain ⟨-, -, hold⟩ := FileTree.writable_eq_ok.1 hdocument
  obtain ⟨-, hremoved⟩ := keeps_between hdraft hdocument xml
  refine (FileTree.find_eq_ok (by simp)).2 ⟨hpath, draft, hremoved.place hplace, ?_⟩
  rw [FileTree.get?_erase _ (FileTree.ne_nil_of_get?_ne hold), if_neg hne,
    FileTree.get?_put t (FileTree.ne_nil_of_get?_ne hfile), if_pos rfl]

/-- A document that is there can be removed. -/
theorem remove_of_written (hdraft : t.writable (w.draftPath tag) = .ok draft)
    (hdocument : t.writable w.documentPath = .ok document) (hne : draft ≠ document)
    (hpresent : t.isPresent w.documentPath = true) (xml : String) :
    (t.put draft (.text xml)).remove w.documentPath =
      .ok ((t.put draft (.text xml)).erase document) := by
  obtain ⟨hpath, hplace, hold⟩ := FileTree.writable_eq_ok.1 hdocument
  obtain ⟨-, -, hfile⟩ := FileTree.writable_eq_ok.1 hdraft
  obtain ⟨hwritten, -⟩ := keeps_between hdraft hdocument xml
  cases hget : t.get? document with
  | none =>
    rw [FileTree.isPresent, FileTree.find_eq_notFound hplace hget] at hpresent
    cases hpresent
  | some entry =>
    have hentry : entry ≠ .directory := fun heq => hold (heq ▸ hget)
    have hfind := (FileTree.find_eq_ok hentry).2 ⟨hpath, document, hplace, hget⟩
    have hkept : (t.put draft (.text xml)).find w.documentPath = .ok entry :=
      (FileTree.find_put hplace hfile hne.symm (by simp)).trans hfind
    exact FileTree.remove_of_find hentry hkept (hwritten.place hplace)

/-- The removal leaves nothing in the place of the document, into which the draft can go. -/
theorem removed_of_written (hdraft : t.writable (w.draftPath tag) = .ok draft)
    (hdocument : t.writable w.documentPath = .ok document) (hne : draft ≠ document) (xml : String) :
    ((t.put draft (.text xml)).erase document).find w.documentPath = .error .notFound ∧
      ∃ t', ((t.put draft (.text xml)).erase document).move (w.draftPath tag) w.documentPath =
        .ok t' := by
  have hfind := find_draft hdraft hdocument hne xml
  obtain ⟨-, hplace, -⟩ := FileTree.writable_eq_ok.1 hdraft
  obtain ⟨-, hdocumentPlace, hold⟩ := FileTree.writable_eq_ok.1 hdocument
  obtain ⟨-, hremoved⟩ := keeps_between hdraft hdocument xml
  have hgone : ((t.put draft (.text xml)).erase document).get? document = none := by
    rw [FileTree.get?_erase _ (FileTree.ne_nil_of_get?_ne hold), if_pos rfl]
  exact ⟨FileTree.find_eq_notFound (hremoved.place hdocumentPlace) hgone, _,
    FileTree.move_of_find (by simp) hfind (hremoved.place hplace) (hremoved.writable hdocument)⟩

/-! ## How storing ends -/

/-- The stored document is lost: the draft is written, the document removed, and then the
draft is not moved into its place. -/
structure Loses (w : Workspace) (tag : String) (s : FaultyTree) : Prop where
  present : s.tree.isPresent w.documentPath = true
  writable : (s.tree.writable (w.draftPath tag)).isOk = true
  written : s.fate 0 = .granted
  removed : s.fate 1 = .granted
  not_moved : s.fate 2 ≠ .granted

/-- The three ways in which storing a document can end. -/
inductive Ends (w : Workspace) (tag xml : String) (s : FaultyTree) :
    Except Error Unit × FaultyTree → Prop
  | replaced {s' : FaultyTree} (h : ¬w.Loses tag s) : Ends w tag xml s (.ok (), s')
  | kept {cause : Error} {s' : FaultyTree} (h : ¬w.Loses tag s)
      (hfind : s'.tree.find w.documentPath = s.tree.find w.documentPath) :
      Ends w tag xml s (.error cause, s')
  | lost {cause : Error} {s' : FaultyTree} (h : w.Loses tag s)
      (hdocument : s'.tree.find w.documentPath = .error .notFound)
      (hdraft : s'.tree.find (w.draftPath tag) = .ok (.text xml)) :
      Ends w tag xml s (.error cause, s')

/-- Storing goes on from a draft that was written. -/
theorem run_saveDocument_of_write
    (hwrite : (request (Files.write (w.draftPath tag) xml) : Risking Unit).run s = (.ok (), s')) :
    (w.saveDocument tag xml : Risking Unit).run s =
      if s'.tree.isPresent w.documentPath then
        (request (Files.remove w.documentPath) >>= fun _ =>
          request (Files.move (w.draftPath tag) w.documentPath) : Risking Unit).run s'
      else (request (Files.move (w.draftPath tag) w.documentPath) : Risking Unit).run s' := by
  have hasks : (isPresent w.documentPath : Risking Bool).run s' =
      (.ok (s'.tree.isPresent w.documentPath), s') := rfl
  unfold saveDocument
  rw [run_bind_ok hwrite, run_bind_ok hasks]
  split <;> rfl

/-- Where a draft can be written, the document has a place of its own. -/
theorem exists_document (htag : '/' ∉ tag.toList)
    (hload : ((w.loadDocument : Filing (Option String)).run t).1 = .ok document?)
    (hdraft : t.writable (w.draftPath tag) = .ok draft) :
    ∃ document, t.writable w.documentPath = .ok document ∧ draft ≠ document := by
  have hrun : (w.loadDocument : Filing (Option String)).run t = (.ok document?, t) :=
    Prod.ext hload (asks_loadDocument w t)
  obtain ⟨document, hdocument⟩ := exists_writable_document hrun htag hdraft
  obtain ⟨-, hdraftPlace, -⟩ := FileTree.writable_eq_ok.1 hdraft
  obtain ⟨-, hdocumentPlace, -⟩ := FileTree.writable_eq_ok.1 hdocument
  exact ⟨document, hdocument, FileTree.place_join_ne (isName_draft htag) isName_document
    (draftName_ne tag (by decide)).symm hdraftPlace hdocumentPlace⟩

/-- Whatever is written to the draft, the document stays as it is. -/
theorem find_document_put {entry : Entry} (hdraft : t.writable (w.draftPath tag) = .ok draft)
    (hdocument : t.writable w.documentPath = .ok document) (hne : draft ≠ document)
    (hfile : entry ≠ .directory) :
    (t.put draft entry).find w.documentPath = t.find w.documentPath := by
  obtain ⟨-, -, hold⟩ := FileTree.writable_eq_ok.1 hdraft
  obtain ⟨-, hplace, -⟩ := FileTree.writable_eq_ok.1 hdocument
  exact FileTree.find_put hplace hold hne.symm hfile

theorem find_document_spoilt (htag : '/' ∉ tag.toList)
    (hload : ((w.loadDocument : Filing (Option String)).run t).1 = .ok document?)
    (remnant : Remnant) :
    (FaultyTree.spoilt (w.draftPath tag) remnant t).find w.documentPath =
      t.find w.documentPath := by
  unfold FaultyTree.spoilt
  split
  · case h_1 draft hdraft =>
    obtain ⟨document, hdocument, hne⟩ := exists_document htag hload hdraft
    exact find_document_put hdraft hdocument hne remnant.2
  · rfl

/-- A failure of the first step. -/
theorem ends_of_unwritten (htag : '/' ∉ tag.toList)
    (hload : ((w.loadDocument : Filing (Option String)).run s.tree).1 = .ok document?)
    (hfails : s.fate 0 ≠ .granted ∨ (s.tree.writable (w.draftPath tag)).isOk = false)
    (xml : String) : w.Ends tag xml s ((w.saveDocument tag xml : Risking Unit).run s) := by
  have hkept : ¬w.Loses tag s := by
    intro hloses
    rcases hfails with hfate | hdraft
    · exact hfate hloses.written
    · exact absurd hloses.writable (by rw [hdraft]; exact Bool.false_ne_true)
  have hwrite : ∃ cause t, (request (Files.write (w.draftPath tag) xml) : Risking Unit).run s =
      (.error cause, s.after t) ∧ t.find w.documentPath = s.tree.find w.documentPath := by
    by_cases hfate : s.fate 0 = .granted
    · have hdraft := hfails.resolve_left (fun hne => hne hfate)
      cases hwritable : s.tree.writable (w.draftPath tag) with
      | ok draft =>
        rw [hwritable] at hdraft
        cases hdraft
      | error fault =>
        have hfault : s.tree.write (w.draftPath tag) xml = .error fault := by
          unfold FileTree.write
          rw [hwritable]
          rfl
        exact ⟨.io fault.text, s.tree,
          run_granted_of_error (f := (·.write (w.draftPath tag) xml)) hfate hfault, rfl⟩
    · obtain ⟨cause, t, hrun, rfl | ⟨remnant, rfl⟩⟩ := exists_run_of_ne hfate
        (·.write (w.draftPath tag) xml) (FaultyTree.spoilt (w.draftPath tag))
      · exact ⟨cause, s.tree, hrun, rfl⟩
      · exact ⟨cause, _, hrun, find_document_spoilt htag hload remnant⟩
  obtain ⟨cause, t, hrun, hfind⟩ := hwrite
  unfold saveDocument
  rw [run_bind_error hrun]
  exact .kept hkept hfind

/-- A draft that takes no other file's place. -/
theorem ends_of_absent (hwritten : s.fate 0 = .granted)
    (hwrite : s.tree.write (w.draftPath tag) xml = .ok t)
    (hfind : t.find w.documentPath = s.tree.find w.documentPath)
    (habsent : s.tree.isPresent w.documentPath = false) :
    w.Ends tag xml s ((w.saveDocument tag xml : Risking Unit).run s) := by
  have hkept : ¬w.Loses tag s := by
    intro hloses
    rw [hloses.present] at habsent
    cases habsent
  obtain ⟨s₁, hrun₁, rfl, -⟩ :=
    exists_run_granted (Files.write (w.draftPath tag) xml) rfl hwritten hwrite
  have hpresent : s₁.tree.isPresent w.documentPath = false := by
    rw [FileTree.isPresent, hfind]
    exact habsent
  rw [run_saveDocument_of_write hrun₁, hpresent, if_neg Bool.false_ne_true]
  obtain ⟨t', hrun⟩ | ⟨cause, hrun⟩ := run_move_cases (w.draftPath tag) w.documentPath s₁
  · rw [hrun]
    exact .replaced hkept
  · rw [hrun]
    exact .kept hkept hfind

/-- A draft that is to take the place of the stored document. -/
theorem ends_of_present (hdraft : s.tree.writable (w.draftPath tag) = .ok draft)
    (hdocument : s.tree.writable w.documentPath = .ok document) (hne : draft ≠ document)
    (hwritten : s.fate 0 = .granted) (hpresent : s.tree.isPresent w.documentPath = true)
    (xml : String) :
    w.Ends tag xml s ((w.saveDocument tag xml : Risking Unit).run s) := by
  have hwrite := FileTree.write_of_writable hdraft xml
  obtain ⟨s₁, hrun₁, htree₁, hfate₁⟩ :=
    exists_run_granted (Files.write (w.draftPath tag) xml) rfl hwritten hwrite
  have hfind₁ : s₁.tree.find w.documentPath = s.tree.find w.documentPath := by
    rw [htree₁]
    exact find_document_put hdraft hdocument hne (by simp)
  have hpresent₁ : s₁.tree.isPresent w.documentPath = true := by
    rw [FileTree.isPresent, hfind₁]
    exact hpresent
  rw [run_saveDocument_of_write hrun₁, hpresent₁, if_pos rfl]
  by_cases hremoved : s.fate 1 = .granted
  · have hremove := remove_of_written hdraft hdocument hne hpresent xml
    rw [← htree₁] at hremove
    obtain ⟨s₂, hrun₂, htree₂, hfate₂⟩ := exists_run_granted (Files.remove w.documentPath) rfl
      ((hfate₁ 0).trans hremoved) hremove
    obtain ⟨hgone, t, hmove⟩ := removed_of_written hdraft hdocument hne xml
    have hwhole := find_draft hdraft hdocument hne xml
    rw [← htree₁, ← htree₂] at hgone hmove hwhole
    have hlast : s₂.fate 0 = s.fate 2 := (hfate₂ 0).trans (hfate₁ 1)
    rw [run_bind_ok hrun₂]
    by_cases hmoved : s.fate 2 = .granted
    · rw [run_move (hlast.trans hmoved) hmove]
      exact .replaced fun hloses => hloses.not_moved hmoved
    · obtain ⟨cause, hrun⟩ := exists_run_unspoilt (Files.move (w.draftPath tag) w.documentPath)
        rfl fun h => hmoved (hlast.symm.trans h)
      rw [hrun]
      refine .lost ⟨hpresent, ?_, hwritten, hremoved, hmoved⟩ hgone hwhole
      rw [hdraft]
      rfl
  · obtain ⟨cause, hrun⟩ := exists_run_unspoilt (Files.remove w.documentPath) rfl
      fun h => hremoved ((hfate₁ 0).symm.trans h)
    rw [run_bind_error hrun]
    exact .kept (fun hloses => hremoved hloses.removed) hfind₁

/-- Storing ends in one of three ways, whatever fails. -/
theorem ends_saveDocument (htag : '/' ∉ tag.toList)
    (hload : ((w.loadDocument : Filing (Option String)).run s.tree).1 = .ok document?)
    (xml : String) : w.Ends tag xml s ((w.saveDocument tag xml : Risking Unit).run s) := by
  by_cases hwritten : s.fate 0 = .granted
  · cases hdraft : s.tree.writable (w.draftPath tag) with
    | error fault => exact ends_of_unwritten htag hload (.inr (by rw [hdraft]; rfl)) xml
    | ok draft =>
      obtain ⟨document, hdocument, hne⟩ := exists_document htag hload hdraft
      cases hpresent : s.tree.isPresent w.documentPath with
      | true => exact ends_of_present hdraft hdocument hne hwritten hpresent xml
      | false =>
        exact ends_of_absent hwritten (FileTree.write_of_writable hdraft xml)
          (find_document_put hdraft hdocument hne (by simp)) hpresent
  · exact ends_of_unwritten htag hload (.inl hwritten) xml

/-- If no step fails, the files are left as they would be if none could. -/
theorem run_saveDocument_of_ok
    (h : (w.saveDocument tag xml : Risking Unit).run s = (.ok (), s')) :
    (w.saveDocument tag xml : Filing Unit).run s.tree = (.ok (), s'.tree) := by
  obtain ⟨⟨⟩, s₁, hwrite, -⟩ := run_bind_eq_ok h
  have hwritten := run_changing (f := (·.write (w.draftPath tag) xml)) (eq_ok_of_run hwrite)
  rw [run_saveDocument_of_write hwrite] at h
  have hasked := run_isPresent w.documentPath s₁.tree
  refine (run_bind_ok hwritten).trans ((run_bind_ok hasked).trans ?_)
  split at h
  · case isTrue hpresent =>
    obtain ⟨⟨⟩, s₂, hremove, hmove⟩ := run_bind_eq_ok h
    have hremoved := run_changing (f := (·.remove w.documentPath)) (eq_ok_of_run hremove)
    rw [if_pos hpresent]
    exact (run_bind_ok hremoved).trans
      (run_changing (f := (·.move (w.draftPath tag) w.documentPath)) (eq_ok_of_run hmove))
  · case isFalse habsent =>
    rw [if_neg habsent]
    exact run_changing (f := (·.move (w.draftPath tag) w.documentPath)) (eq_ok_of_run h)

/-- A document that was stored is found again, and its draft is gone. -/
theorem stored_of_ok (htag : '/' ∉ tag.toList)
    (hload : ((w.loadDocument : Filing (Option String)).run s.tree).1 = .ok document?)
    (h : (w.saveDocument tag xml : Risking Unit).run s = (.ok (), s')) :
    s'.tree.find w.documentPath = .ok (.text xml) ∧
      s'.tree.find (w.draftPath tag) = .error .notFound := by
  have hplain := run_saveDocument_of_ok h
  cases hdraft : s.tree.writable (w.draftPath tag) with
  | error fault =>
    rw [run_saveDocument_of_error hdraft] at hplain
    cases hplain
  | ok draft =>
    obtain ⟨document, hdocument, hne⟩ := exists_document htag hload hdraft
    obtain ⟨t, hrun, hkeeps, hget⟩ := run_saveDocument hdraft hdocument hne xml
    obtain rfl : t = s'.tree := congrArg Prod.snd (hrun.symm.trans hplain)
    obtain ⟨hpath, hplace, -⟩ := FileTree.writable_eq_ok.1 hdocument
    obtain ⟨-, hdraftPlace, -⟩ := FileTree.writable_eq_ok.1 hdraft
    constructor
    · refine (FileTree.find_eq_ok (by simp)).2 ⟨hpath, document, hkeeps.place hplace, ?_⟩
      rw [hget, if_pos rfl]
    · refine FileTree.find_eq_notFound (hkeeps.place hdraftPlace) ?_
      rw [hget, if_neg hne, if_pos rfl]

/-- If storing goes well, the new document is loaded from then on, and no draft is left.  If it
fails, the old one is, unless it was removed and the draft then not moved: then there is no
document any more, which is not even noticed on loading, and the new one stands in the draft. -/
theorem saveDocument_interrupted {answer : Except Error Unit} (htag : '/' ∉ tag.toList)
    (hload : (w.loadDocument : Risking (Option String)).run s = (.ok document?, s))
    (hrun : (w.saveDocument tag xml : Risking Unit).run s = (answer, s')) :
    (answer = .ok () → (w.loadDocument : Risking (Option String)).run s' = (.ok (some xml), s') ∧
      s'.tree.isPresent (w.draftPath tag) = false) ∧
    (∀ cause, answer = .error cause → ¬w.Loses tag s →
      (w.loadDocument : Risking (Option String)).run s' = (.ok document?, s')) ∧
    (w.Loses tag s → (∃ cause, answer = .error cause) ∧ document?.isSome = true ∧
      (w.loadDocument : Risking (Option String)).run s' = (.ok none, s') ∧
      s'.tree.read (w.draftPath tag) = .ok xml) := by
  have hfirst := run_loadDocument_eq_ok_iff.1 hload
  have hends := ends_saveDocument htag hfirst xml
  rw [hrun] at hends
  simp only [run_loadDocument_eq_ok_iff]
  cases hends with
  | replaced hkept =>
    obtain ⟨hdocument, hdraft⟩ := stored_of_ok htag hfirst hrun
    refine ⟨fun _ => ⟨loadDocument_of_text hdocument, ?_⟩, ?_, fun hloses => absurd hloses hkept⟩
    · rw [FileTree.isPresent, hdraft]
      rfl
    · intro _ herror
      cases herror
  | kept hkept hfind =>
    refine ⟨?_, fun _ _ _ => (loadDocument_congr hfind).trans hfirst,
      fun hloses => absurd hloses hkept⟩
    intro hok
    cases hok
  | lost hloses hdocument hdraft =>
    refine ⟨?_, fun _ _ hkept => absurd hloses hkept, fun _ =>
      ⟨⟨_, rfl⟩, ?_, loadDocument_of_notFound hdocument, ?_⟩⟩
    · intro hok
      cases hok
    · rw [isPresent_of_loadDocument hfirst]
      exact hloses.present
    · rw [FileTree.read, hdraft]
      rfl

/-- The newspaper of `mondays` under another heading. -/
def evenings : Course :=
  { mondays with blocks := mondays.blocks.map fun b =>
      { b with issues := [.weekly "Evening" [.mon]] } }

/-- The files of `kept`, when the third request from now will fail. -/
def unlucky : FaultyTree :=
  ⟨kept, [.granted, .granted, .refused (.other "Input/output error (os error 5)")]⟩

/-- The files of `kept`, when the next request will break off. -/
def crowded : FaultyTree :=
  ⟨kept, [.brokenOff (.other "No space left on device (os error 28)")
    ⟨.text "<?xml version", by decide⟩]⟩

theorem run_loadDocument_kept (fates : List Fate) :
    (press.loadDocument : Risking (Option String)).run ⟨kept, fates⟩ =
      (.ok (some mondays.toXml), ⟨kept, fates⟩) := by
  have hload : ((press.loadDocument : Filing (Option String)).run kept).1 =
      .ok (some mondays.toXml) := by
    decide +kernel
  exact run_loadDocument_eq_ok_iff.2 hload

theorem loses_unlucky : press.Loses "101" unlucky :=
  ⟨by decide +kernel, by decide +kernel, rfl, rfl, by decide⟩

theorem saveDocument_interrupted_midway :
    (∃ cause s', (press.saveDocument "101" evenings.toXml : Risking Unit).run unlucky =
        (.error cause, s') ∧
      (press.loadDocument : Risking (Option String)).run s' = (.ok none, s') ∧
      s'.tree.read (press.draftPath "101") = .ok evenings.toXml) ∧
    (∃ cause s', (press.saveDocument "101" evenings.toXml : Risking Unit).run crowded =
        (.error cause, s') ∧
      (press.loadDocument : Risking (Option String)).run s' = (.ok (some mondays.toXml), s')) ∧
    ∃ s', (press.saveDocument "101" evenings.toXml : Risking Unit).run ⟨kept, []⟩ =
        (.ok (), s') ∧
      (press.loadDocument : Risking (Option String)).run s' =
        (.ok (some evenings.toXml), s') ∧
      s'.tree.isPresent (press.draftPath "101") = false := by
  have htag : '/' ∉ "101".toList := by decide
  obtain ⟨-, -, hlost⟩ := saveDocument_interrupted htag
    (run_loadDocument_kept unlucky.fates) (Prod.eta
      ((press.saveDocument "101" evenings.toXml : Risking Unit).run unlucky)).symm
  obtain ⟨-, hkept, -⟩ := saveDocument_interrupted htag
    (run_loadDocument_kept crowded.fates) (Prod.eta
      ((press.saveDocument "101" evenings.toXml : Risking Unit).run crowded)).symm
  obtain ⟨hstored, -, -⟩ := saveDocument_interrupted htag
    (run_loadDocument_kept []) (Prod.eta
      ((press.saveDocument "101" evenings.toXml : Risking Unit).run ⟨kept, []⟩)).symm
  obtain ⟨⟨cause, hcause⟩, -, hnone, hdraft⟩ := hlost loses_unlucky
  have hspared : ¬press.Loses "101" crowded := fun hloses => absurd hloses.written (by decide)
  have hfails : ((press.saveDocument "101" evenings.toXml : Risking Unit).run crowded).1 =
      .error (.io "No space left on device (os error 28)") := rfl
  have hsucceeds : ((press.saveDocument "101" evenings.toXml : Risking Unit).run ⟨kept, []⟩).1 =
      .ok () := by
    decide +kernel
  exact ⟨⟨cause, _, Prod.ext hcause rfl, hnone, hdraft⟩,
    ⟨_, _, Prod.ext hfails rfl, hkept _ hfails hspared⟩,
    ⟨_, Prod.ext hsucceeds rfl, hstored hsucceeds⟩⟩

/-- A document can be lost by storing another one, which only is said to have failed. -/
theorem saveDocument_not_atomic :
    (press.loadDocument : Risking (Option String)).run unlucky =
        (.ok (some mondays.toXml), unlucky) ∧
      ∃ cause s', (press.saveDocument "101" evenings.toXml : Risking Unit).run unlucky =
          (.error cause, s') ∧
        (press.loadDocument : Risking (Option String)).run s' = (.ok none, s') ∧
        (press.loadDocument : Risking (Option String)).run s' ≠
          (.ok (some mondays.toXml), s') := by
  have hload := run_loadDocument_kept unlucky.fates
  have hends := ends_saveDocument (w := press) (by decide : '/' ∉ "101".toList)
    (run_loadDocument_eq_ok_iff.1 hload) evenings.toXml
  refine ⟨hload, ?_⟩
  cases hrun : (press.saveDocument "101" evenings.toXml : Risking Unit).run unlucky with
  | mk answer s' =>
    have hends' : press.Ends "101" evenings.toXml unlucky (answer, s') := hrun ▸ hends
    cases hends' with
    | replaced hkept => exact absurd loses_unlucky hkept
    | kept hkept => exact absurd loses_unlucky hkept
    | lost _ hgone =>
      have hnone : (press.loadDocument : Risking (Option String)).run s' = (.ok none, s') :=
        run_loadDocument_eq_ok_iff.2 (loadDocument_of_notFound hgone)
      refine ⟨_, s', rfl, hnone, ?_⟩
      rw [hnone]
      exact nofun

end Workspace
end PressCalendar
