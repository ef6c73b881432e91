/-
What one edit leaves behind.

`Edit.Leaves` is a judgement on the run of one edit in one editor: it succeeds, and then
something holds of the editor it leaves, or it fails, and then something holds of the
cause.  There is one rule for each way in which edits are put together.  Since what a
failing edit leaves is known from `Atomic`, the judgement says nothing about that.
-/
import PressCalendar.Proofs.Editor.Failure

namespace PressCalendar
namespace Edit

variable {α β : Type} {e : Editor} {E E' : Error → Prop} {Q R : Editor → Prop}

/-- The edit succeeds and leaves an editor with `Q`, or fails for a cause with `E`. -/
inductive Leaves (x : Edit α) (e : Editor) (E : Error → Prop) (Q : Editor → Prop) : Prop
  | ok {a : α} {after : Editor} (h : x.run e = (.ok a, after)) (hQ : Q after)
  | error {cause : Error} {after : Editor} (h : x.run e = (.error cause, after)) (hE : E cause)

/-- The same of a request: whether it succeeds, and the editor that is left behind. -/
inductive Ends (e : Editor) (E : Error → Prop) (Q : Editor → Prop) (outcome : Except Error Unit)
    (after : Editor) : Prop
  | ok (h : outcome = .ok ()) (hQ : Q after)
  | error {cause : Error} (h : outcome = .error cause) (hE : E cause) (hdrawn : e.Drawn after)

namespace Leaves

theorem mono {x : Edit α} (h : x.Leaves e E R) (hE : ∀ cause, E cause → E' cause)
    (hQ : ∀ after, R after → Q after) : x.Leaves e E' Q := by
  cases h with
  | ok h hR => exact .ok h (hQ _ hR)
  | error h hcause => exact .error h (hE _ hcause)

theorem bind {x : Edit α} {f : α → Edit β} (h : x.Leaves e E R)
    (hf : ∀ a after, R after → (f a).Leaves after E Q) : (x >>= f).Leaves e E Q := by
  cases h with
  | error h hE => exact .error (run_bind_error h) hE
  | ok h hR =>
    cases hf _ _ hR with
    | ok h' hQ => exact .ok ((run_bind_ok h).trans h') hQ
    | error h' hE => exact .error ((run_bind_ok h).trans h') hE

theorem update {f : Editor → Editor} (h : Q (f e)) : (Edit.update f).Leaves e E Q := .ok rfl h

theorem ask {f : Editor → Except Error α} (h : Q e)
    (herror : ∀ cause, f e = .error cause → E cause) : (Edit.ask f).Leaves e E Q := by
  have hrun := run_ask f e
  cases hf : f e with
  | ok a =>
    rw [hf] at hrun
    exact .ok hrun h
  | error cause =>
    rw [hf] at hrun
    exact .error hrun (herror cause hf)

/-- A question first, and then the rest in the same editor. -/
theorem ask_bind {f : Editor → Except Error α} {k : α → Edit β}
    (herror : ∀ cause, f e = .error cause → E cause)
    (h : ∀ a, f e = .ok a → (k a).Leaves e E Q) : (Edit.ask f >>= k).Leaves e E Q := by
  cases hf : f e with
  | error cause => exact .error (run_ask_bind_of_error hf) (herror cause hf)
  | ok a =>
    cases h a hf with
    | ok h' hQ => exact .ok ((run_ask_bind hf).trans h') hQ
    | error h' hE => exact .error ((run_ask_bind hf).trans h') hE

theorem get_bind {f : Editor → Edit α} (h : (f e).Leaves e E Q) : (get >>= f).Leaves e E Q := by
  cases h with
  | ok h hQ => exact .ok ((run_get_bind f e).trans h) hQ
  | error h hE => exact .error ((run_get_bind f e).trans h) hE

theorem ends {x : Edit α} (h : x.Leaves e E Q) (hatomic : x.Atomic e)
    (hE : ∀ cause, E cause → E' cause) : Ends e E' Q (x.outcome e) (x.run e).2 := by
  cases h with
  | ok h hQ =>
    refine .ok ?_ ?_
    · rw [outcome, h]
      rfl
    · rw [h]
      exact hQ
  | @error cause after h hcause =>
    have houtcome : x.outcome e = .error cause := by
      rw [outcome, h]
      rfl
    exact .error houtcome (hE cause hcause) (hatomic.drawn houtcome)

end Leaves
end Edit
end PressCalendar
