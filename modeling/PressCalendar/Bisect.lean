/-
Search by halving.

`bisect p xs` looks for the place in `xs` where `p` stops holding, by testing
the element in the middle.  The statement about it is `bisect_append`: on a list
whose elements satisfy `p` up to some place and fail it from there on, it finds
that place.
-/

namespace PressCalendar

def bisect {α : Type} (p : α → Bool) (xs : List α) : Nat :=
  match h : xs[xs.length / 2]? with
  | none => 0
  | some x =>
    if p x then xs.length / 2 + 1 + bisect p (xs.drop (xs.length / 2 + 1))
    else bisect p (xs.take (xs.length / 2))
termination_by xs.length
decreasing_by
  all_goals
    have hlt := (List.getElem?_eq_some_iff.1 h).1
    simp only [List.length_drop, List.length_take]
    omega

theorem bisect_append {α : Type} {p : α → Bool} {ys zs : List α} (hys : ∀ y ∈ ys, p y = true)
    (hzs : ∀ z ∈ zs, p z = false) : bisect p (ys ++ zs) = ys.length := by
  generalize hn : (ys ++ zs).length = n
  induction n using Nat.strongRecOn generalizing ys zs with
  | ind n ih =>
    rw [bisect]
    split
    · case h_1 h =>
      have hlen := List.getElem?_eq_none_iff.1 h
      rw [List.length_append] at hlen
      omega
    · case h_2 x h =>
      obtain ⟨hlt, hx⟩ := List.getElem?_eq_some_iff.1 h
      have hlt' := hlt
      rw [List.length_append] at hlt'
      rcases Nat.lt_or_ge ((ys ++ zs).length / 2) ys.length with hm | hm
      · have hp : p x = true := by
          rw [← hx, List.getElem_append_left hm]
          exact hys _ (List.getElem_mem hm)
        have hdrop : (ys ++ zs).drop ((ys ++ zs).length / 2 + 1) =
            ys.drop ((ys ++ zs).length / 2 + 1) ++ zs :=
          List.drop_append_of_le_length hm
        rw [if_pos hp, hdrop, ih _ ?_ (fun y hy => hys y (List.mem_of_mem_drop hy)) hzs rfl,
          List.length_drop]
        · omega
        · rw [List.length_append, List.length_drop, ← hn, List.length_append]
          omega
      · have hp : p x = false := by
          rw [← hx, List.getElem_append_right hm]
          exact hzs _ (List.getElem_mem _)
        have htake : (ys ++ zs).take ((ys ++ zs).length / 2) =
            ys ++ zs.take ((ys ++ zs).length / 2 - ys.length) := by
          rw [List.take_append, List.take_of_length_le hm]
        rw [hp, htake]
        refine ih _ ?_ hys (fun z hz => hzs z (List.mem_of_mem_take hz)) rfl
        have hlen : (ys ++ zs).length = ys.length + zs.length := List.length_append
        rw [List.length_append, List.length_take]
        omega

end PressCalendar
