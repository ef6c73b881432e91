/-
One change of a stored course.

A change ends as it does in the editor that is opened for it.  If it fails there, nothing is
stored; if it succeeds, the course it leaves is the one that is opened next.  Only storing
can come in between, and that depends on one thing alone, whether the draft can be written.
-/
import PressCalendar.Proofs.Workspace.Failure

namespace PressCalendar
namespace Workspace

variable {w : Workspace} {settings : Settings} {document? : Option String} {today : Date}
  {e after : Editor} {t t' : FileTree} {tag : String} {c : Change} {u : Change.Outcome}
  {cause : Error}

theorem change_of_error (hopen : (w.openEditor today : Filing Editor).run t = (.ok e, t))
    (hx : c.perform.run e = (.error cause, after)) :
    (w.change today tag c).run t = (.error cause, t) := by
  obtain ⟨settings, document?, hholds, hopened⟩ := exists_holds hopen
  rw [hholds.run_change hopened, hx]

/-- What is stored is read again, for its draft must have been written. -/
theorem Holds.of_saved {xml : String} (h : w.Holds t settings document?) (htag : '/' ∉ tag.toList)
    (hsave : (w.saveDocument tag xml : Filing Unit).run t = (.ok (), t')) :
    w.Holds t' settings (some xml) := by
  cases hdraft : t.writable (w.draftPath tag) with
  | error fault =>
    rw [run_saveDocument_of_error hdraft] at hsave
    cases hsave
  | ok draft =>
    obtain ⟨document, hdocument⟩ := exists_writable_document h.document htag hdraft
    obtain ⟨stored, hrun, -, hholds⟩ := h.exists_stored hdocument htag hdraft xml
    cases hrun.symm.trans hsave
    exact hholds

theorem exists_reopened_of_change
    (hopen : (w.openEditor today : Filing Editor).run t = (.ok e, t)) (htag : '/' ∉ tag.toList)
    (hu : (w.change today tag c).run t = (.ok u, t')) :
    ∃ after reopened, c.perform.run e = (.ok u, after) ∧
      (w.openEditor today : Filing Editor).run t' = (.ok reopened, t') ∧
      reopened.course.bare = after.course.bare := by
  obtain ⟨settings, document?, hholds, hopened⟩ := exists_holds hopen
  rw [hholds.run_change hopened] at hu
  cases Change.parallel_perform c (twins_opened hopened) with
  | @error cause after _ hx _ _ =>
    rw [hx] at hu
    cases hu
  | @ok v v' after after' hx hy hleft =>
    -- the editor is its own twin, so what both leave is the same
    cases hx.symm.trans hy
    rw [hx] at hu
    obtain ⟨_, stored, hsave, hpure⟩ := run_bind_eq_ok hu
    cases hpure
    have hstored := hholds.of_saved htag hsave
    obtain ⟨reopened, hopened', htwins⟩ := exists_reopened settings hleft.1
    refine ⟨after, reopened, hx, ?_, htwins.course.bare⟩
    rw [hstored.run_openEditor, hopened']

theorem exists_run_change (hopen : (w.openEditor today : Filing Editor).run t = (.ok e, t))
    (htag : '/' ∉ tag.toList) (hdraft : (t.writable (w.draftPath tag)).isOk = true)
    (hx : (c.perform.run e).1 = .ok u) : ∃ t', (w.change today tag c).run t = (.ok u, t') := by
  obtain ⟨settings, document?, hholds, hopened⟩ := exists_holds hopen
  obtain ⟨draft, hdraft⟩ := exists_of_isOk hdraft
  obtain ⟨document, hdocument⟩ := exists_writable_document hholds.document htag hdraft
  cases hrun : c.perform.run e with
  | mk answer after =>
    rw [hrun] at hx
    cases hx
    obtain ⟨t', hsave, -, -⟩ := hholds.exists_stored hdocument htag hdraft after.course.toXml
    refine ⟨t', ?_⟩
    rw [hholds.run_change hopened, hrun]
    exact run_bind_ok hsave

end Workspace
end PressCalendar
