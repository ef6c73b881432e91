/-
Computations that may fail, opened step by step.
-/

namespace PressCalendar

variable {ε α β : Type}

theorem bind_eq_ok {x : Except ε α} {f : α → Except ε β} {b : β} :
    (x >>= f) = .ok b ↔ ∃ a, x = .ok a ∧ f a = .ok b := by
  cases x with
  | error e =>
    constructor
    · intro h
      exact absurd h (by simp [bind, Except.bind])
    · rintro ⟨a, ha, -⟩
      exact absurd ha (by simp)
  | ok a =>
    constructor
    · intro h
      exact ⟨a, rfl, h⟩
    · rintro ⟨a', ha, h⟩
      cases ha
      exact h

theorem bind_eq_error {x : Except ε α} {f : α → Except ε β} {cause : ε} :
    (x >>= f) = .error cause ↔ x = .error cause ∨ ∃ a, x = .ok a ∧ f a = .error cause := by
  cases x with
  | error other =>
    show Except.error other = .error cause ↔ _
    simp
  | ok a =>
    show f a = .error cause ↔ _
    simp

/-- What cannot fail later has failed at first. -/
theorem error_of_bind {x : Except ε α} {f : α → Except ε β} {cause : ε}
    (h : (x >>= f) = .error cause) (hf : ∀ a, (f a).isOk = true) : x = .error cause := by
  rcases bind_eq_error.1 h with hx | ⟨a, -, hfail⟩
  · exact hx
  · have hok := hf a
    rw [hfail] at hok
    cases hok

theorem mapError_eq_ok {ε' : Type} {x : Except ε α} {f : ε → ε'} {a : α} :
    x.mapError f = .ok a ↔ x = .ok a := by
  cases x with
  | error e =>
    show Except.error (f e) = .ok a ↔ Except.error e = .ok a
    simp only [reduceCtorEq]
  | ok a' =>
    show Except.ok a' = .ok a ↔ Except.ok a' = .ok a
    simp only [Except.ok.injEq]

theorem exists_of_isOk {x : Except ε α} (h : x.isOk = true) : ∃ a, x = .ok a := by
  cases x with
  | error e => cases h
  | ok a => exact ⟨a, rfl⟩

/-- What every step of a fold keeps, the fold keeps. -/
theorem foldlM_invariant {P : α → Prop} {f : α → β → Except ε α} {xs : List β} {a c : α}
    (hstep : ∀ a, ∀ x ∈ xs, ∀ c, P a → f a x = .ok c → P c) (ha : P a)
    (h : xs.foldlM f a = .ok c) : P c := by
  induction xs generalizing a with
  | nil =>
    cases h
    exact ha
  | cons x xs ih =>
    rw [List.foldlM_cons] at h
    obtain ⟨b, hb, hrest⟩ := bind_eq_ok.1 h
    exact ih (fun a y hy => hstep a y (List.mem_cons_of_mem x hy))
      (hstep a x List.mem_cons_self b ha hb) hrest

theorem forM_eq_ok {f : α → Except ε Unit} {xs : List α} :
    xs.forM f = .ok () ↔ ∀ x ∈ xs, f x = .ok () := by
  induction xs with
  | nil => simp [pure, Except.pure]
  | cons x xs ih =>
    show (f x >>= fun _ => xs.forM f) = _ ↔ _
    rw [bind_eq_ok]
    simp only [List.mem_cons, forall_eq_or_imp, ← ih]
    constructor
    · rintro ⟨_, hx, hxs⟩
      exact ⟨hx, hxs⟩
    · rintro ⟨hx, hxs⟩
      exact ⟨(), hx, hxs⟩

theorem exists_of_forM_eq_error {f : α → Except ε Unit} {xs : List α} {cause : ε}
    (h : xs.forM f = .error cause) : ∃ x ∈ xs, f x = .error cause := by
  induction xs with
  | nil => exact absurd h (by simp [pure, Except.pure])
  | cons x xs ih =>
    change (f x >>= fun _ => xs.forM f) = _ at h
    cases hx : f x with
    | ok _ =>
      rw [hx] at h
      obtain ⟨y, hy, herror⟩ := ih h
      exact ⟨y, List.mem_cons_of_mem x hy, herror⟩
    | error other =>
      rw [hx] at h
      cases h
      exact ⟨x, List.mem_cons_self, hx⟩

/-- What is made of a list item by item is what is made of its items. -/
theorem mem_of_mapM_eq_ok {f : α → Except ε β} {xs : List α} {ys : List β}
    (h : xs.mapM f = .ok ys) {y : β} : y ∈ ys ↔ ∃ x ∈ xs, f x = .ok y := by
  induction xs generalizing ys with
  | nil =>
    cases h
    simp
  | cons x xs ih =>
    rw [List.mapM_cons] at h
    obtain ⟨first, hfirst, h⟩ := bind_eq_ok.1 h
    obtain ⟨rest, hrest, h⟩ := bind_eq_ok.1 h
    cases h
    rw [List.mem_cons, ih hrest, eq_comm]
    simp only [List.mem_cons, exists_eq_or_imp, hfirst, Except.ok.injEq]

/-- Conditions of which one always holds, each of which decides how a computation ends,
say exactly when it ends so. -/
theorem outcome_iff {x : Except ε α} {Refused : ε → Prop} {Free : Prop} {Effect : α → Prop}
    (hcover : (∃ cause, Refused cause) ∨ Free)
    (hrefused : ∀ cause, Refused cause → x = .error cause)
    (hfree : Free → ∃ a, x = .ok a ∧ Effect a) :
    ((∃ a, x = .ok a) ↔ Free) ∧ (∀ a, x = .ok a → Effect a) ∧
      ∀ cause, x = .error cause ↔ Refused cause := by
  have hnever : ∀ cause, Refused cause → ∀ a, x ≠ .ok a := by
    intro cause hcause a ha
    rw [hrefused cause hcause] at ha
    cases ha
  rcases hcover with ⟨cause, hcause⟩ | hf
  · have hno := hnever cause hcause
    refine ⟨⟨fun ⟨a, ha⟩ => absurd ha (hno a), ?_⟩, fun a ha => absurd ha (hno a), ?_⟩
    · intro hf
      obtain ⟨a, ha, -⟩ := hfree hf
      exact absurd ha (hno a)
    · intro other
      refine ⟨?_, hrefused other⟩
      intro h
      cases (hrefused cause hcause).symm.trans h
      exact hcause
  · obtain ⟨a, ha, heffect⟩ := hfree hf
    refine ⟨⟨fun _ => hf, fun _ => ⟨a, ha⟩⟩, ?_, ?_⟩
    · intro b hb
      cases ha.symm.trans hb
      exact heffect
    · intro cause
      refine ⟨?_, hrefused cause⟩
      intro h
      cases ha.symm.trans h

/-! ## Two computations side by side -/

/-- Two outcomes agree: both are right and related, or both fail for the same reason. -/
inductive Agree (r : α → β → Prop) : Except ε α → Except ε β → Prop
  | ok {a : α} {b : β} (h : r a b) : Agree r (.ok a) (.ok b)
  | error (cause : ε) : Agree r (.error cause) (.error cause)

theorem Agree.of_eq {x y : Except ε α} (h : x = y) : Agree Eq x y := by
  subst h
  cases x with
  | error cause => exact .error cause
  | ok a => exact .ok rfl

theorem Agree.bind {α' β' : Type} {r : α → β → Prop} {r' : α' → β' → Prop} {x : Except ε α}
    {y : Except ε β} {f : α → Except ε α'} {g : β → Except ε β'} (h : Agree r x y)
    (hf : ∀ a b, r a b → Agree r' (f a) (g b)) : Agree r' (x >>= f) (y >>= g) := by
  cases h with
  | ok h => exact hf _ _ h
  | error cause => exact .error cause

/-! ## Computations that also have a state -/

variable {σ : Type} {s s' : σ}

theorem run_bind_ok {x : ExceptT ε (StateM σ) α} {f : α → ExceptT ε (StateM σ) β} {a : α}
    (h : x.run s = (.ok a, s')) : (x >>= f).run s = (f a).run s' := by
  simp only [bind, ExceptT.bind, ExceptT.mk, ExceptT.run, StateT.bind, ExceptT.bindCont] at h ⊢
  rw [h]

theorem run_bind_error {x : ExceptT ε (StateM σ) α} {f : α → ExceptT ε (StateM σ) β} {cause : ε}
    (h : x.run s = (.error cause, s')) : (x >>= f).run s = (.error cause, s') := by
  simp only [bind, ExceptT.bind, ExceptT.mk, ExceptT.run, StateT.bind, ExceptT.bindCont] at h ⊢
  rw [h]
  rfl

theorem run_bind_eq_ok {x : ExceptT ε (StateM σ) α} {f : α → ExceptT ε (StateM σ) β} {b : β}
    (h : (x >>= f).run s = (.ok b, s')) :
    ∃ a t, x.run s = (.ok a, t) ∧ (f a).run t = (.ok b, s') := by
  cases hx : x.run s with
  | mk answer t =>
    cases answer with
    | error cause =>
      rw [run_bind_error hx] at h
      cases h
    | ok a =>
      rw [run_bind_ok hx] at h
      exact ⟨a, t, rfl, h⟩

/-- What is done for each item of a list is done for one after the other. -/
theorem run_mapM_cons (f : α → StateM σ β) (x : α) (xs : List α) (s : σ) :
    ((x :: xs).mapM f).run s = (((f x).run s).1 :: ((xs.mapM f).run ((f x).run s).2).1,
      ((xs.mapM f).run ((f x).run s).2).2) := by
  rw [List.mapM_cons]
  rfl

end PressCalendar
