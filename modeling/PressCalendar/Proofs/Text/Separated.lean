/-
Texts between separators, and what is left of them without the blanks at their ends.

The items of a line are the pieces that hold anything but blanks, trimmed.  Joined again
they are a line of the same items (`items_join`), for an item holds no separator and no
blank at either end.
-/
import Mathlib.Data.List.DropRight
import Mathlib.Data.List.TakeWhile
import PressCalendar.Text.Separated

namespace PressCalendar
namespace Text

/-! ## Between separators -/

theorem pieces_ne_nil (sep : Char) (cs : List Char) : pieces sep cs ≠ [] := by
  cases cs with
  | nil => simp [pieces]
  | cons c cs =>
    rw [pieces]
    split
    · simp
    · split <;> simp

theorem pieces_append (sep : Char) (xs ys : List Char) :
    pieces sep (xs ++ sep :: ys) = pieces sep xs ++ pieces sep ys := by
  induction xs with
  | nil => simp [pieces]
  | cons x xs ih =>
    rw [List.cons_append, pieces, pieces, ih]
    split
    · rfl
    · cases hxs : pieces sep xs with
      | nil => exact absurd hxs (pieces_ne_nil sep xs)
      | cons p ps => rfl

theorem pieces_of_not_mem {sep : Char} {cs : List Char} (h : sep ∉ cs) : pieces sep cs = [cs] := by
  induction cs with
  | nil => rfl
  | cons c cs ih =>
    obtain ⟨hc, hcs⟩ := not_or.1 (mt List.mem_cons.2 h)
    rw [pieces, if_neg (Ne.symm hc), ih hcs]

/-- The pieces are those of the library, so its lemmas hold of them. -/
theorem pieces_eq_splitOn (sep : Char) (cs : List Char) : pieces sep cs = cs.splitOn sep := by
  induction cs with
  | nil => rfl
  | cons c cs ih =>
    rw [pieces, List.splitOn_cons_eq_if_modifyHead, ← ih]
    simp only [beq_iff_eq]
    split
    · rfl
    · cases hcs : pieces sep cs with
      | nil => exact absurd hcs (pieces_ne_nil sep cs)
      | cons p ps => rfl

theorem not_mem_of_mem_pieces {sep : Char} {cs piece : List Char} (h : piece ∈ pieces sep cs) :
    sep ∉ piece := by
  induction cs generalizing piece with
  | nil =>
    rw [pieces, List.mem_singleton] at h
    simp [h]
  | cons c cs ih =>
    rw [pieces] at h
    split at h
    · rcases List.mem_cons.1 h with rfl | h
      · simp
      · exact ih h
    · case isFalse hc =>
      split at h
      · case h_1 hcs => exact absurd hcs (pieces_ne_nil sep cs)
      · case h_2 p ps hcs =>
        rw [hcs] at ih
        rcases List.mem_cons.1 h with rfl | h
        · simp only [List.mem_cons, not_or]
          exact ⟨Ne.symm hc, ih List.mem_cons_self⟩
        · exact ih (List.mem_cons_of_mem p h)

/-! ## Without blanks at the ends -/

variable {cs : List Char}

theorem exists_eq_append_trim (cs : List Char) : ∃ lead trail, cs = lead ++ trim cs ++ trail ∧
    (∀ c ∈ lead, isBlank c = true) ∧ ∀ c ∈ trail, isBlank c = true := by
  refine ⟨cs.takeWhile isBlank, ((trimStart cs).reverse.takeWhile isBlank).reverse, ?_, ?_, ?_⟩
  · have htrail : trim cs ++ ((trimStart cs).reverse.takeWhile isBlank).reverse = trimStart cs := by
      rw [trim, trimEnd, trimStart, ← List.reverse_append, List.takeWhile_append_dropWhile,
        List.reverse_reverse]
    rw [List.append_assoc, htrail, trimStart, List.takeWhile_append_dropWhile]
  · exact fun c hc => List.mem_takeWhile_imp hc
  · exact fun c hc => List.mem_takeWhile_imp (List.mem_reverse.1 hc)

theorem mem_of_mem_trim {c : Char} (h : c ∈ trim cs) : c ∈ cs := by
  obtain ⟨lead, trail, hcs, -⟩ := exists_eq_append_trim cs
  rw [hcs]
  exact List.mem_append_left _ (List.mem_append_right _ h)

theorem trim_eq_nil_iff : trim cs = [] ↔ ∀ c ∈ cs, isBlank c = true := by
  constructor
  · intro h
    obtain ⟨lead, trail, hcs, hlead, htrail⟩ := exists_eq_append_trim cs
    rw [h, List.append_nil] at hcs
    rw [hcs]
    exact List.forall_mem_append.2 ⟨hlead, htrail⟩
  · intro h
    rw [trim, trimStart, List.dropWhile_eq_nil_iff.2 h]
    rfl

theorem isEmpty_trim (cs : List Char) : (trim cs).isEmpty = cs.all isBlank := by
  rw [Bool.eq_iff_iff, List.isEmpty_iff, trim_eq_nil_iff, List.all_eq_true]

theorem trim_trim (cs : List Char) : trim (trim cs) = trim cs := by
  -- what is left at the front is no blank, and the other end does not change that
  have hfront : trimStart (trim cs) = trim cs := by
    cases htrim : trim cs with
    | nil => rfl
    | cons c rest =>
      obtain ⟨more, hmore⟩ : trim cs <+: trimStart cs := List.rdropWhile_prefix isBlank _
      have hhead := List.head?_dropWhile_not isBlank cs
      rw [← trimStart, ← hmore, htrim] at hhead
      have hc : isBlank c = false := hhead
      rw [trimStart, List.dropWhile_cons_of_neg (by simp [hc])]
  rw [trim, hfront]
  exact List.rdropWhile_idempotent isBlank (trimStart cs)

/-! ## Items -/

variable {sep : Char} {t : String}

/-- What an item of a line is like. -/
structure IsItem (sep : Char) (t : String) : Prop where
  ne_nil : t.toList ≠ []
  no_sep : sep ∉ t.toList
  trimmed : trim t.toList = t.toList

theorem items_eq (sep : Char) (s : String) :
    items sep s = ((s.toList.splitOn sep).filter fun piece => !piece.all isBlank).map fun piece =>
      String.ofList (trim piece) := by
  have hblank : ((!·.isEmpty) ∘ trim : List Char → Bool) = fun piece => !piece.all isBlank := by
    funext piece
    exact congrArg _ (isEmpty_trim piece)
  rw [items, pieces_eq_splitOn, List.filter_map, hblank, List.map_map]
  rfl

theorem IsItem.of_mem {s : String} (h : t ∈ items sep s) : IsItem sep t := by
  obtain ⟨piece, hpiece, rfl⟩ := List.mem_map.1 h
  obtain ⟨hmem, hfilled⟩ := List.mem_filter.1 hpiece
  obtain ⟨whole, hwhole, rfl⟩ := List.mem_map.1 hmem
  rw [Bool.not_eq_true', List.isEmpty_eq_false_iff] at hfilled
  refine ⟨?_, ?_, ?_⟩ <;> rw [String.toList_ofList]
  · exact hfilled
  · exact fun hsep => not_mem_of_mem_pieces hwhole (mem_of_mem_trim hsep)
  · exact trim_trim whole

/-- Items joined to a line are the items of the line. -/
theorem items_join {mark : String} (hmark : mark.toList = [sep]) {ts : List String}
    (h : ∀ t ∈ ts, IsItem sep t) : items sep (join mark ts) = ts := by
  by_cases hnone : ts = []
  · subst hnone
    rfl
  · have hpieces : pieces sep (join mark ts).toList = ts.map String.toList := by
      rw [pieces_eq_splitOn, join, String.toList_intercalate, hmark]
      refine List.splitOn_intercalate sep ?_ (by simpa using hnone)
      exact List.forall_mem_map.2 fun t ht => (h t ht).no_sep
    have htrim : (ts.map String.toList).map trim = ts.map String.toList := by
      rw [List.map_map]
      exact List.map_congr_left fun t ht => (h t ht).trimmed
    have hfilled : (ts.map String.toList).filter (!·.isEmpty) = ts.map String.toList := by
      rw [List.filter_eq_self]
      refine List.forall_mem_map.2 fun t ht => ?_
      simpa using (h t ht).ne_nil
    rw [items, hpieces, htrim, hfilled, List.map_map]
    exact List.map_id'' (fun t => String.ofList_toList) ts

end Text
end PressCalendar
