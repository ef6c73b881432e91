/-
Changes in two editors over the same course.

A change names its block and its issue by their places, so editors whose courses differ
in nothing but numbers carry it out alike.  A change that fails has moved no block before,
so the editor it failed in need not be thrown away.
-/
import PressCalendar.Command.Change
import PressCalendar.Proofs.Editor.Twins

namespace PressCalendar
namespace Change

open Edit (Parallel)
open Editor (Facing Twins)

variable {α β : Type} {today : Date} {o a b : Editor} {x y : Block}

/-- A change as an edit.  One that is refused before a course is looked at fails in every
editor. -/
def perform (c : Change) : Edit Outcome :=
  match c.edit with
  | .ok edit => edit
  | .error cause => throw cause

/-- What twins do with the blocks at the same place. -/
theorem parallel_onBlock {Q : α → β → Editor → Editor → Prop} (h : Twins today a b) (number : Nat)
    {k : List Notice → Edit α} {k' : List Notice → Edit β}
    (hk : ∀ notices notices' a' b' x y, Twins today a' b' → Twins today a b' →
      Facing today a' b' x y → (k notices).Parallel (k' notices') a' b' (Twins today a) Q) :
    (Edit.selectNumber number >>= k).Parallel (Edit.selectNumber number >>= k') a b
      (Twins today a) Q := by
  refine (Edit.parallel_selectNumber h h number).bind ?_
  rintro notices notices' a' b' ⟨htwins, ho, x, y, hfacing⟩
  exact hk notices notices' a' b' x y htwins ho hfacing

/-- What is left by the same change of twins: the notices aside, the same is reported. -/
def Matching (today : Date) (u v : Outcome) (a b : Editor) : Prop :=
  Twins today a b ∧ u.deed = v.deed

/-- The block being edited is reported by its label. -/
theorem parallel_report (h : Twins today a b) (hfacing : Facing today a b x y)
    {notices notices' : List Notice} (deed : String → Deed) {E : Editor → Prop} :
    (get >>= fun e => pure ⟨notices, deed e.showingLabel⟩ : Edit Outcome).Parallel
      (get >>= fun e => pure ⟨notices', deed e.showingLabel⟩) a b E (Matching today) := by
  refine .get_bind (.pure ⟨h, ?_⟩)
  rw [hfacing.label_eq h]

theorem parallel_addBlockEdit (h : Twins today a b) (first last : String) :
    (addBlockEdit first last).Parallel (addBlockEdit first last) a b (Twins today a)
      (Matching today) := by
  refine (Edit.parallel_startNewBlock h h).bind ?_
  rintro _ _ a' b' ⟨htwins, ho, hshowing⟩
  refine (Edit.parallel_setPeriod htwins ho (.inl hshowing) first last).bind ?_
  rintro notices notices' a'' b'' ⟨htwins', x, y, hfacing⟩
  exact parallel_report htwins' hfacing .blockAdded

theorem parallel_setBlockEdit (h : Twins today a b) (block : Nat) (first? last? : Option String) :
    (setBlockEdit block first? last?).Parallel (setBlockEdit block first? last?) a b
      (Twins today a) (Matching today) := by
  refine parallel_onBlock h block ?_
  intro selected selected' a' b' x y htwins ho hfacing
  have hreport : ∀ {changed : Edit (List Notice)}, changed.Parallel changed a' b' (Twins today a)
      (fun _ _ a'' b'' => Twins today a'' b'' ∧ ∃ x y, Facing today a'' b'' x y) →
      (changed >>= fun changed => get >>= fun e =>
        pure ⟨selected ++ changed, .blockSet block e.showingLabel⟩ : Edit Outcome).Parallel
      (changed >>= fun changed => get >>= fun e =>
        pure ⟨selected' ++ changed, .blockSet block e.showingLabel⟩) a' b' (Twins today a)
        (Matching today) := by
    intro changed hchanged
    refine hchanged.bind ?_
    rintro notices notices' a'' b'' ⟨htwins', x, y, hfacing'⟩
    exact parallel_report htwins' hfacing' (.blockSet block)
  cases first? with
  | none =>
    cases last? with
    | none => exact hreport (.throw _ ho)
    | some last =>
      exact hreport (Edit.parallel_setDate htwins ho hfacing (.setLast last) .lastAppearance
        Block.last .last last (fun _ => rfl) fun _ _ => rfl)
  | some first =>
    cases last? with
    | none =>
      exact hreport (Edit.parallel_setDate htwins ho hfacing (.setFirst first) .firstAppearance
        Block.first .first first (fun _ => rfl) fun _ _ => rfl)
    | some last =>
      exact hreport (Edit.parallel_setPeriod htwins ho (.inr ⟨x, y, hfacing⟩) first last)

theorem parallel_copyBlockEdit (h : Twins today a b) (block : Nat) :
    (copyBlockEdit block).Parallel (copyBlockEdit block) a b (Twins today a) (Matching today) := by
  refine parallel_onBlock h block ?_
  intro _ _ a' b' x y htwins ho hfacing
  refine (Edit.parallel_copyBlock htwins ho hfacing).bind ?_
  rintro _ _ a'' b'' ⟨htwins', x', y', hfacing'⟩
  exact parallel_report htwins' hfacing' (.blockCopied block)

theorem parallel_removeBlockEdit (h : Twins today a b) (block : Nat) :
    (removeBlockEdit block).Parallel (removeBlockEdit block) a b (Twins today a)
      (Matching today) := by
  refine parallel_onBlock h block ?_
  intro _ _ a' b' x y htwins ho hfacing
  refine (Edit.parallel_removeBlock htwins ho hfacing).bind ?_
  intro _ _ a'' b'' htwins'
  exact .pure ⟨htwins', rfl⟩

theorem parallel_addIssueEdit (h : Twins today a b) (block : Nat) (heading : String)
    (days : List Weekday) :
    (addIssueEdit block heading days).Parallel (addIssueEdit block heading days) a b
      (Twins today a) (Matching today) := by
  refine parallel_onBlock h block ?_
  intro _ _ a' b' x y htwins ho hfacing
  refine (Edit.parallel_addIssue htwins hfacing heading).bind ?_
  rintro index _ a'' b'' ⟨htwins', rfl, x', y', hfacing', hindex⟩
  refine (Edit.parallel_setRegularEach htwins' hfacing' hindex (fun _ => true) days).bind ?_
  intro _ _ a''' b''' htwins''
  exact .pure ⟨htwins'', rfl⟩

theorem parallel_setDaysOf (h : Twins today a b) (ho : Twins today o b)
    (hfacing : Facing today a b x y) (index : Nat) (days : List Weekday) :
    (setDaysOf index days).Parallel (setDaysOf index days) a b (Twins today o)
      fun _ _ a' b' => Twins today a' b' := by
  by_cases hindex : index < x.issues.length
  · exact Edit.parallel_setRegularEach h hfacing hindex (days.contains ·) Weekday.all
  · -- without the issue the first day fails already
    have hnone : x.issues[index]? = none := List.getElem?_eq_none_iff.2 (Nat.not_lt.1 hindex)
    refine (Edit.parallel_changeIssue h hfacing index _ fun _ => ho).bind ?_
    rintro _ _ a' b' ⟨issue, x', y', hissue, -, -⟩
    rw [hnone] at hissue
    cases hissue

theorem parallel_toggleOn (h : Twins today a b) (ho : Twins today o b)
    (hfacing : Facing today a b x y) (index : Nat) (input : String) :
    (toggleOn index input).Parallel (toggleOn index input) a b (Twins today o) fun u v a' b' =>
      Twins today a' b' ∧ u.1 = v.1 ∧ u.2.1 = v.2.1 := by
  refine Edit.parallel_readDate_bind (h.day.trans h.day'.symm) input _ ho ?_
  rintro ⟨date, notices⟩
  refine .get_bind ?_
  rw [hfacing.showing, hfacing.showing']
  refine (Edit.parallel_toggleIssue h ho hfacing index date).bind ?_
  rintro appeared _ a' b' ⟨htwins, rfl⟩
  exact .pure ⟨htwins, rfl, rfl⟩

/-- An issue is named by its number, and the number in a failure is the same. -/
theorem parallel_onIssue (h : Twins today a b) (block issue : Nat) {edit : Nat → Edit Outcome}
    (hedit : ∀ index a' b' x y, Twins today a' b' → Twins today a b' → Facing today a' b' x y →
      (edit index).Parallel (edit index) a' b' (Twins today a) (Matching today)) :
    (match onIssue block issue edit with
      | .ok edit => edit
      | .error cause => throw cause : Edit Outcome).Parallel
    (match onIssue block issue edit with
      | .ok edit => edit
      | .error cause => throw cause) a b (Twins today a) (Matching today) := by
  cases issue with
  | zero => exact .throw _ h
  | succ index =>
    refine .adapt numbered (parallel_onBlock h block ?_)
    intro _ _ a' b' x y htwins ho hfacing
    exact hedit index a' b' x y htwins ho hfacing

/-- Twins carry out a change alike: they report the same, or fail for the same reason, and
are twins then again.  The one in which the change failed is a twin even of the other as
it was before. -/
theorem parallel_perform (c : Change) (h : Twins today a b) :
    c.perform.Parallel c.perform a b (Twins today a) (Matching today) := by
  cases c with
  | addBlock first last => exact parallel_addBlockEdit h first last
  | setBlock block first last => exact parallel_setBlockEdit h block first last
  | copyBlock block => exact parallel_copyBlockEdit h block
  | removeBlock block => exact parallel_removeBlockEdit h block
  | addIssue block heading days => exact parallel_addIssueEdit h block heading days
  | removeIssue block issue =>
    refine parallel_onIssue h block issue ?_
    intro index a' b' x y htwins ho hfacing
    refine (Edit.parallel_removeIssue htwins ho hfacing index).bind ?_
    rintro removed _ a'' b'' ⟨htwins', rfl⟩
    exact .pure ⟨htwins', rfl⟩
  | setDays block issue days =>
    refine parallel_onIssue h block issue ?_
    intro index a' b' x y htwins ho hfacing
    refine (parallel_setDaysOf htwins ho hfacing index days).bind ?_
    intro _ _ a'' b'' htwins'
    exact .pure ⟨htwins', rfl⟩
  | renameIssue block issue heading =>
    refine parallel_onIssue h block issue ?_
    intro index a' b' x y htwins ho hfacing
    refine (Edit.parallel_setHeading htwins ho hfacing index heading).bind ?_
    intro _ _ a'' b'' htwins'
    exact .pure ⟨htwins', rfl⟩
  | toggleIssue block issue date =>
    refine parallel_onIssue h block issue ?_
    intro index a' b' x y htwins ho hfacing
    refine (parallel_toggleOn htwins ho hfacing index date).bind ?_
    rintro ⟨day, appeared, notices⟩ ⟨_, _, notices'⟩ a'' b'' ⟨htwins', rfl, rfl⟩
    exact .pure ⟨htwins', rfl⟩

end Change
end PressCalendar
