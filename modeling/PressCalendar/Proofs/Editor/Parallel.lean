/-
Edits side by side.

`Edit.Parallel` compares the runs of two edits in two editors: both succeed, and leave
what was promised, or both fail for the same reason.  The rules follow the ways in which
edits are put together, so that a long edit is compared step by step.
-/
import PressCalendar.Proofs.Editor.Transition

namespace PressCalendar
namespace Edit

variable {α β α' β' : Type} {a b : Editor} {x : Edit α} {y : Edit β} {E : Editor → Prop}
  {Q : α → β → Editor → Editor → Prop} {Q' : α' → β' → Editor → Editor → Prop}

/-- Two edits succeed and leave answers and editors with `Q`, or fail for the same reason,
and then `E` holds of the second editor. -/
inductive Parallel (x : Edit α) (y : Edit β) (a b : Editor) (E : Editor → Prop)
    (Q : α → β → Editor → Editor → Prop) : Prop
  | ok {u : α} {v : β} {a' b' : Editor} (hx : x.run a = (.ok u, a')) (hy : y.run b = (.ok v, b'))
    (h : Q u v a' b')
  | error {cause : Error} {a' b' : Editor} (hx : x.run a = (.error cause, a'))
    (hy : y.run b = (.error cause, b')) (h : E b')

namespace Parallel

theorem mono {E' : Editor → Prop} {R : α → β → Editor → Editor → Prop}
    (h : Parallel x y a b E Q) (hE : ∀ cause b', y.run b = (.error cause, b') → E b' → E' b')
    (hQ : ∀ u v a' b', x.run a = (.ok u, a') → y.run b = (.ok v, b') → Q u v a' b' → R u v a' b') :
    Parallel x y a b E' R := by
  cases h with
  | ok hx hy h => exact .ok hx hy (hQ _ _ _ _ hx hy h)
  | error hx hy h => exact .error hx hy (hE _ _ hy h)

theorem imp {R : α → β → Editor → Editor → Prop} (h : Parallel x y a b E Q)
    (hQ : ∀ u v a' b', Q u v a' b' → R u v a' b') : Parallel x y a b E R :=
  h.mono (fun _ _ _ hb => hb) fun u v a' b' _ _ => hQ u v a' b'

theorem bind {f : α → Edit α'} {g : β → Edit β'} (h : Parallel x y a b E Q)
    (hf : ∀ u v a' b', Q u v a' b' → Parallel (f u) (g v) a' b' E Q') :
    Parallel (x >>= f) (y >>= g) a b E Q' := by
  cases h with
  | error hx hy h => exact .error (run_bind_error hx) (run_bind_error hy) h
  | ok hx hy h =>
    cases hf _ _ _ _ h with
    | ok hx' hy' h' => exact .ok ((run_bind_ok hx).trans hx') ((run_bind_ok hy).trans hy') h'
    | error hx' hy' h' => exact .error ((run_bind_ok hx).trans hx') ((run_bind_ok hy).trans hy') h'

theorem pure {u : α} {v : β} (h : Q u v a b) :
    Parallel (Pure.pure u : Edit α) (Pure.pure v : Edit β) a b E Q :=
  .ok rfl rfl h

theorem throw (cause : Error) (h : E b) :
    Parallel (MonadExcept.throw cause : Edit α) (MonadExcept.throw cause : Edit β) a b E Q :=
  .error rfl rfl h

theorem get_bind {f g : Editor → Edit α'} {R : α' → α' → Editor → Editor → Prop}
    (h : Parallel (f a) (g b) a b E R) : Parallel (get >>= f) (get >>= g) a b E R := by
  cases h with
  | ok hx hy h => exact .ok hx hy h
  | error hx hy h => exact .error hx hy h

theorem run_adapt (f : Error → Error) (x : Edit α) (e : Editor) :
    (ExceptT.adapt f x).run e = ((x.run e).1.mapError f, (x.run e).2) := rfl

theorem adapt (f : Error → Error) (h : Parallel x y a b E Q) :
    Parallel (ExceptT.adapt f x) (ExceptT.adapt f y) a b E Q := by
  cases h with
  | @ok u v a' b' hx hy h =>
    have hx' : (ExceptT.adapt f x).run a = (.ok u, a') := by
      rw [run_adapt, hx]
      rfl
    have hy' : (ExceptT.adapt f y).run b = (.ok v, b') := by
      rw [run_adapt, hy]
      rfl
    exact .ok hx' hy' h
  | @error cause a' b' hx hy h =>
    have hx' : (ExceptT.adapt f x).run a = (.error (f cause), a') := by
      rw [run_adapt, hx]
      rfl
    have hy' : (ExceptT.adapt f y).run b = (.error (f cause), b') := by
      rw [run_adapt, hy]
      rfl
    exact .error hx' hy' h

theorem ask_bind {γ γ' : Type} {r : γ → γ' → Prop} {f : Editor → Except Error γ}
    {g : Editor → Except Error γ'} {k : γ → Edit α'} {k' : γ' → Edit β'}
    (h : Agree r (f a) (g b)) (hE : ∀ cause, f a = .error cause → E b)
    (hk : ∀ u v, r u v → Parallel (k u) (k' v) a b E Q') :
    Parallel (ask f >>= k) (ask g >>= k') a b E Q' := by
  generalize hp : f a = p at h
  generalize hq : g b = q at h
  cases h with
  | error cause =>
    exact .error (run_ask_bind_of_error hp) (run_ask_bind_of_error hq) (hE cause hp)
  | @ok u v h =>
    cases hk u v h with
    | ok hx hy h => exact .ok ((run_ask_bind hp).trans hx) ((run_ask_bind hq).trans hy) h
    | error hx hy h => exact .error ((run_ask_bind hp).trans hx) ((run_ask_bind hq).trans hy) h

end Parallel
end Edit
end PressCalendar
