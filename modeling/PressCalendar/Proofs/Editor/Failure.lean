/-
Requests that fail.

A request that fails leaves the editor as it was, except that numbers may have been
drawn for blocks that were refused.  `Edit.Atomic` says this of one edit in one editor.
Nothing takes a change back, so it has to follow from the order of the steps: a question
may come in front of anything that is atomic (`atomic_ask_bind`), but behind a change that
can be seen there is room only for what succeeds (`Atomic.bind_succeeds`).
-/
import PressCalendar.Proofs.Editor.Transition

namespace PressCalendar
namespace Editor

/-- Nothing has happened but that numbers were drawn. -/
def Drawn (e after : Editor) : Prop :=
  ∃ lastId, e.course.lastId ≤ lastId ∧ after = { e with course := { e.course with lastId } }

variable {e after last : Editor}

theorem Drawn.refl (e : Editor) : e.Drawn e := ⟨e.course.lastId, Nat.le_refl _, rfl⟩

theorem Drawn.trans (h : e.Drawn after) (h' : after.Drawn last) : e.Drawn last := by
  obtain ⟨id, hle, rfl⟩ := h
  obtain ⟨id', hle', rfl⟩ := h'
  exact ⟨id', Nat.le_trans hle hle', rfl⟩

end Editor

namespace Edit

variable {α β : Type} {e : Editor}

/-- If it fails, nothing has happened but that numbers were drawn. -/
def Atomic (x : Edit α) (e : Editor) : Prop :=
  ∀ cause after, x.run e = (.error cause, after) → e.Drawn after

/-- It does not fail. -/
def Succeeds (x : Edit α) (e : Editor) : Prop := ∃ a after, x.run e = (.ok a, after)

theorem Atomic.of_eq {x : Edit α} (h : (x.run e).2 = e) : x.Atomic e := by
  intro cause after hfail
  rw [hfail] at h
  exact h ▸ .refl e

theorem atomic_ask (f : Editor → Except Error α) (e : Editor) : (ask f).Atomic e := .of_eq rfl

theorem Succeeds.atomic {x : Edit α} (h : x.Succeeds e) : x.Atomic e := by
  intro cause after hfail
  obtain ⟨a, last, hok⟩ := h
  rw [hok] at hfail
  cases hfail

theorem succeeds_update (f : Editor → Editor) (e : Editor) : (update f).Succeeds e := ⟨(), f e, rfl⟩

theorem Atomic.bind {x : Edit α} {f : α → Edit β} (hx : x.Atomic e)
    (hf : ∀ a after, x.run e = (.ok a, after) →
      ∀ cause last, (f a).run after = (.error cause, last) → e.Drawn last) :
    (x >>= f).Atomic e := by
  intro cause last h
  cases hrun : x.run e with
  | mk answer after =>
    cases answer with
    | error other =>
      rw [run_bind_error hrun] at h
      cases h
      exact hx cause last hrun
    | ok a =>
      rw [run_bind_ok hrun] at h
      exact hf a after hrun cause last h

/-- A question changes nothing, so what follows it may fail. -/
theorem atomic_ask_bind {f : Editor → Except Error α} {k : α → Edit β}
    (h : ∀ a, f e = .ok a → (k a).Atomic e) : (ask f >>= k).Atomic e := by
  intro cause after hfail
  cases hf : f e with
  | error other =>
    rw [run_ask_bind_of_error hf] at hfail
    cases hfail
    exact .refl e
  | ok a =>
    rw [run_ask_bind hf] at hfail
    exact h a hf cause after hfail

theorem atomic_get_bind {k : Editor → Edit β} (h : (k e).Atomic e) : (get >>= k).Atomic e := h

theorem atomic_throw (cause : Error) : (throw cause : Edit α).Atomic e := .of_eq rfl

/-- Behind something that can be seen nothing may fail. -/
theorem Atomic.bind_succeeds {x : Edit α} {f : α → Edit β} (hx : x.Atomic e)
    (hf : ∀ a after, x.run e = (.ok a, after) → (f a).Succeeds after) : (x >>= f).Atomic e := by
  refine hx.bind ?_
  intro a after hrun cause last hfail
  obtain ⟨b, final, hok⟩ := hf a after hrun
  rw [hok] at hfail
  cases hfail

theorem Atomic.drawn {x : Edit α} (hx : x.Atomic e) {cause : Error}
    (h : x.outcome e = .error cause) : e.Drawn (x.run e).2 := by
  unfold outcome at h
  cases hrun : x.run e with
  | mk answer after =>
    rw [hrun] at h
    cases answer with
    | error other => exact hx other after hrun
    | ok a => exact absurd h (by simp [Except.map])

/-! ## Choosing a block -/

theorem atomic_selectBlock (id : Nat) : (selectBlock id).Atomic e := by
  unfold selectBlock
  refine atomic_get_bind ?_
  split
  · exact atomic_throw _
  · split
    · exact Succeeds.atomic ⟨_, _, rfl⟩
    · exact Succeeds.atomic ⟨_, _, rfl⟩

theorem atomic_selectNumber (number : Nat) : (selectNumber number).Atomic e := by
  unfold selectNumber
  refine atomic_get_bind ?_
  split
  · exact atomic_throw _
  · split
    · exact atomic_selectBlock _
    · exact atomic_throw _

theorem succeeds_neglect (e : Editor) : neglect.Succeeds e := succeeds_update _ e

theorem succeeds_startNewBlock (e : Editor) : startNewBlock.Succeeds e := ⟨(), _, rfl⟩

/-! ## Dates -/

theorem succeeds_settleDates (notices : List Notice) (e : Editor) :
    (settleDates notices).Succeeds e :=
  ⟨notices ++ e.implausibilities, e.navigate.touch, rfl⟩

theorem atomic_beginBlock (dated : Except Error Block) : (beginBlock dated).Atomic e := by
  refine atomic_ask_bind ?_
  intro block _
  refine atomic_ask_bind ?_
  rintro ⟨id, course⟩ -
  exact Succeeds.atomic ⟨id, _, rfl⟩

/-- A block that is refused was not to be seen yet, but its number stays drawn. -/
theorem atomic_begin {f : Block → Except Error Block} {k : Nat → Edit α}
    (hk : ∀ id begun, (k id).Succeeds begun) :
    (drawBlock >>= fun blank => beginBlock (f blank) >>= k).Atomic e := by
  intro cause last h
  rw [run_bind_ok (run_drawBlock e)] at h
  have hdrawn : e.Drawn { e with course := e.course.newBlock.2 } :=
    ⟨e.course.lastId + 1, Nat.le_succ _, rfl⟩
  have hrest : (beginBlock (f e.course.newBlock.1) >>= k).Atomic
      { e with course := e.course.newBlock.2 } :=
    (atomic_beginBlock _).bind_succeeds fun id begun _ => hk id begun
  exact hdrawn.trans (hrest cause last h)

theorem atomic_changeCourse (f : Course → Except Error Course) : (changeCourse f).Atomic e := by
  refine atomic_ask_bind ?_
  intro course _
  exact (succeeds_update _ e).atomic

theorem atomic_giveDates (dating : Block.Dating) (notices : List Notice) :
    (giveDates dating notices).Atomic e := by
  unfold giveDates
  refine atomic_get_bind ?_
  split
  · exact atomic_begin fun _ => succeeds_settleDates notices
  · exact (atomic_changeCourse _).bind_succeeds fun _ after _ => succeeds_settleDates notices after

theorem atomic_setDate (field : DateField) (dateOf : Block → Option Date)
    (dating : Date → Block.Dating) (input : String) :
    (setDate field dateOf dating input).Atomic e := by
  refine atomic_ask_bind ?_
  rintro ⟨date, notices⟩ -
  refine atomic_get_bind ?_
  split
  · exact Succeeds.atomic ⟨notices, e, rfl⟩
  · exact atomic_giveDates (dating date) notices

theorem atomic_setPeriod (firstInput lastInput : String) :
    (setPeriod firstInput lastInput).Atomic e := by
  refine atomic_ask_bind ?_
  rintro ⟨first, firstNotices⟩ -
  refine atomic_ask_bind ?_
  rintro ⟨last, lastNotices⟩ -
  exact atomic_giveDates (.period first last) (firstNotices ++ lastNotices)

/-! ## Blocks -/

theorem atomic_copyBlock : copyBlock.Atomic e := by
  refine atomic_ask_bind ?_
  rintro ⟨source, start⟩ -
  exact atomic_begin fun id begun => ⟨id, begun.navigate.touch, rfl⟩

theorem atomic_removeBlock : removeBlock.Atomic e := by
  refine atomic_ask_bind ?_
  intro id _
  refine atomic_get_bind ?_
  split
  · exact Succeeds.atomic ⟨(), _, rfl⟩
  · refine atomic_ask_bind ?_
    intro index _
    exact Succeeds.atomic ⟨(), _, rfl⟩

/-! ## Issues -/

theorem succeeds_replaceBlock (id : Nat) (block : Block) (e : Editor) :
    (replaceBlock id block).Succeeds e :=
  ⟨(), _, rfl⟩

theorem atomic_changeBlock (f : Block → Except Error (α × Block)) : (changeBlock f).Atomic e := by
  refine atomic_ask_bind ?_
  intro block _
  refine atomic_ask_bind ?_
  rintro ⟨a, changed⟩ -
  exact Succeeds.atomic ⟨a, _, rfl⟩

theorem atomic_changeIssueOn (id index : Nat) (date : Date) (f : Issue → Issue) :
    (changeIssueOn id index date f).Atomic e := by
  refine atomic_ask_bind ?_
  rintro ⟨block, issue⟩ -
  exact (succeeds_replaceBlock id _ e).atomic

/-- The issue is looked up twice, but only then is it changed. -/
theorem atomic_toggleIssue (id index : Nat) (date : Date) :
    (toggleIssue id index date).Atomic e := by
  refine atomic_ask_bind ?_
  rintro ⟨block, issue⟩ -
  dsimp only
  split
  · exact (atomic_changeIssueOn id index date (·.unselect date)).bind_succeeds
      fun _ after _ => ⟨false, after, rfl⟩
  · exact (atomic_changeIssueOn id index date (·.select date)).bind_succeeds
      fun _ after _ => ⟨true, after, rfl⟩

/-! ## The course as a whole -/

theorem atomic_upload (xml : String) : (upload xml).Atomic e := by
  refine atomic_ask_bind ?_
  intro course _
  exact (succeeds_update _ e).atomic

theorem atomic_split (g : Granularity) : (split g).Atomic e := by
  refine atomic_ask_bind ?_
  intro course _
  exact Succeeds.atomic ⟨course.processes, _, rfl⟩

/-- The processes of the days are gone again when the document turns out not to be written. -/
theorem atomic_downloadInPlace (write : Course → Except Error String) :
    (downloadInPlace write).Atomic e :=
  .of_eq (congrArg Prod.snd (Editor.run_downloadInPlace write e))

end Edit

namespace Editor

theorem atomic_edit (r : Request) (e : Editor) : r.edit.2.Atomic e := by
  cases r with
  | selectBlock id => exact Edit.atomic_selectBlock id
  | selectNumber number => exact Edit.atomic_selectNumber number
  | neglect => exact (Edit.succeeds_neglect e).atomic
  | startNewBlock => exact (Edit.succeeds_startNewBlock e).atomic
  | readDate input field => exact Edit.atomic_ask _ e
  | setFirst input => exact Edit.atomic_setDate .firstAppearance Block.first .first input
  | setLast input => exact Edit.atomic_setDate .lastAppearance Block.last .last input
  | setPeriod firstInput lastInput => exact Edit.atomic_setPeriod firstInput lastInput
  | copyBlock => exact Edit.atomic_copyBlock
  | removeBlock => exact Edit.atomic_removeBlock
  | addIssue heading => exact Edit.atomic_changeBlock _
  | removeIssue index => exact Edit.atomic_changeBlock _
  | setHeading index heading => exact Edit.atomic_changeBlock _
  | setRegular index day appears => exact Edit.atomic_changeBlock _
  | selectIssue id index date => exact Edit.atomic_changeIssueOn id index date (·.select date)
  | unselectIssue id index date => exact Edit.atomic_changeIssueOn id index date (·.unselect date)
  | toggleIssue id index date => exact Edit.atomic_toggleIssue id index date
  | setYear year => exact (Edit.succeeds_update _ e).atomic
  | previousYear => exact (Edit.succeeds_update _ e).atomic
  | nextYear => exact (Edit.succeeds_update _ e).atomic
  | upload xml => exact Edit.atomic_upload xml
  | download => exact Edit.atomic_downloadInPlace fun c => .ok c.toXml
  | checkReady => exact Edit.atomic_ask _ e
  | split g => exact Edit.atomic_split g

/-- A request that fails leaves behind the blocks, the processes, the block being edited
and the displayed year that were there before; no more than numbers for new blocks may
be used up.  A download does not use up even these, also where it fails because the
document cannot be written. -/
theorem perform_of_error (e : Editor) :
    (∀ r cause, e.outcome r = .error cause → ∃ lastId, e.course.lastId ≤ lastId ∧
      e.perform r = { e with course := { e.course with lastId } }) ∧
    ∀ write cause after, (Edit.downloadInPlace write).run e = (.error cause, after) →
      after = e := by
  constructor
  · intro r cause h
    exact (atomic_edit r e).drawn h
  · intro write cause after h
    rw [run_downloadInPlace] at h
    exact (congrArg Prod.snd h).symm

/-- A session with two Mondays that is about to begin a second block. -/
def resumed : Editor :=
  [.setPeriod "1.1.1850" "14.1.1850", .addIssue "Morning", .setRegular 0 .mon true,
    .startNewBlock].foldl perform (blank .standard ⟨2024, 6, 2, by decide⟩)

theorem perform_of_error_resumed :
    (resumed.outcome (.setPeriod "14.1.1850" "1.6.1851") =
        .error (.overlap ⟨1850, 1, 14, by decide⟩ ⟨1851, 6, 1, by decide⟩
          "01.01.1850 – 14.01.1850") ∧
      (∃ lastId, resumed.course.lastId ≤ lastId ∧
        resumed.perform (.setPeriod "14.1.1850" "1.6.1851") =
          { resumed with course := { resumed.course with lastId } }) ∧
      resumed.course.lastId = 1 ∧
      (resumed.perform (.setPeriod "14.1.1850" "1.6.1851")).course.lastId = 2) ∧
    ∃ after, (Edit.downloadInPlace fun _ => .error (.unwritableCourse "full")).run resumed =
        (.error (.unwritableCourse "full"), after) ∧
      after = resumed := by
  have hrefused : resumed.outcome (.setPeriod "14.1.1850" "1.6.1851") =
      .error (.overlap ⟨1850, 1, 14, by decide⟩ ⟨1851, 6, 1, by decide⟩
        "01.01.1850 – 14.01.1850") := by decide +kernel
  have hunwritten : ((Edit.downloadInPlace fun _ => .error (.unwritableCourse "full")).run
      resumed).1 = .error (.unwritableCourse "full") := by decide +kernel
  obtain ⟨hkept, hdownload⟩ := perform_of_error resumed
  refine ⟨⟨hrefused, hkept _ _ hrefused, by decide +kernel, by decide +kernel⟩, _,
    Prod.ext hunwritten rfl, ?_⟩
  exact hdownload _ _ _ (Prod.ext hunwritten rfl)

end Editor
end PressCalendar
