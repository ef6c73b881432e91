/-
What the steps of a request do.

A question that is answered leaves the editor as it is, and the rest goes on from there; a
question that fails is the end of the request.  So of a question only the answer counts,
and everything about the editor that is left comes from the changes behind it.
-/
import PressCalendar.Editor.Edit
import PressCalendar.Proofs.Outcome

namespace PressCalendar
namespace Edit

variable {α β : Type} {e after : Editor} {f : Editor → Except Error α} {k : α → Edit β}

theorem run_get_bind (k : Editor → Edit β) (e : Editor) : (get >>= k).run e = (k e).run e := rfl

theorem run_ask (f : Editor → Except Error α) (e : Editor) : (ask f).run e = (f e, e) := rfl

theorem run_ask_bind {a : α} (h : f e = .ok a) : (ask f >>= k).run e = (k a).run e := by
  refine run_bind_ok ?_
  rw [run_ask, h]

theorem run_ask_bind_of_error {cause : Error} (h : f e = .error cause) :
    (ask f >>= k).run e = (.error cause, e) := by
  refine run_bind_error ?_
  rw [run_ask, h]

theorem exists_of_run_ask_bind {b : β} (h : (ask f >>= k).run e = (.ok b, after)) :
    ∃ a, f e = .ok a ∧ (k a).run e = (.ok b, after) := by
  cases hf : f e with
  | error cause =>
    rw [run_ask_bind_of_error hf] at h
    cases h
  | ok a =>
    rw [run_ask_bind hf] at h
    exact ⟨a, rfl, h⟩

/-- What holds of the editor is lost at most behind an answer. -/
theorem ask_bind_induction {P : Editor → Prop} (hsame : P e)
    (h : ∀ a, f e = .ok a → P ((k a).run e).2) : P ((ask f >>= k).run e).2 := by
  cases hf : f e with
  | error cause =>
    rw [run_ask_bind_of_error hf]
    exact hsame
  | ok a =>
    rw [run_ask_bind hf]
    exact h a hf

/-- An answer of its own does not make an edit leave anything else. -/
theorem run_bind_pure (x : Edit α) (b : β) (e : Editor) :
    ((x >>= fun _ => pure b).run e).2 = (x.run e).2 := by
  cases hx : x.run e with
  | mk answer after =>
    cases answer with
    | error cause => rw [run_bind_error hx]
    | ok a =>
      rw [run_bind_ok hx]
      rfl

end Edit
end PressCalendar
