/-
Tables in plain text: lines made of columns of one width.

A table is read back from its text.  The lines stand between the line breaks, so texts of
different lines differ (`lines_injective`), and in a line each entry stands where the number of
its column says, as long as no entry is wider than a column (`take_drop_columns`).
-/
import PressCalendar.Proofs.Text.Separated
import PressCalendar.Text.Column

namespace PressCalendar
namespace Text

variable {width index : Nat} {c : Char} {entry other : List Char}
variable {entries ls others : List (List Char)}

/-! ## Lines -/

/-- Lines as a text, with a line break at the end of each. -/
def lines (ls : List (List Char)) : List Char := ls.flatMap (· ++ ['\n'])

theorem lines_cons (l : List Char) (ls : List (List Char)) :
    lines (l :: ls) = l ++ '\n' :: lines ls := by
  rw [lines, List.flatMap_cons, List.append_assoc]
  rfl

theorem pieces_lines (h : ∀ l ∈ ls, '\n' ∉ l) : pieces '\n' (lines ls) = ls ++ [[]] := by
  induction ls with
  | nil => rfl
  | cons l ls ih =>
    have hrest := ih fun other hother => h other (List.mem_cons_of_mem l hother)
    rw [lines_cons, pieces_append, pieces_of_not_mem (h l List.mem_cons_self), hrest]
    rfl

/-- The lines are those of the text. -/
theorem lines_injective (h : ∀ l ∈ ls, '\n' ∉ l) (h' : ∀ l ∈ others, '\n' ∉ l)
    (heq : lines ls = lines others) : ls = others := by
  have hpieces := (pieces_lines h).symm.trans ((congrArg (pieces '\n') heq).trans (pieces_lines h'))
  exact List.append_cancel_right hpieces

/-! ## Columns -/

/-- Entries side by side, each at the right edge of its column. -/
def columns (width : Nat) (entries : List (List Char)) : List Char :=
  entries.flatMap (alignRight width)

theorem columns_cons (width : Nat) (entry : List Char) (entries : List (List Char)) :
    columns width (entry :: entries) = alignRight width entry ++ columns width entries :=
  List.flatMap_cons

theorem mem_alignRight (h : c ∈ alignRight width entry) : c = ' ' ∨ c ∈ entry := by
  rcases List.mem_append.1 h with h | h
  · exact .inl (List.eq_of_mem_replicate h)
  · exact .inr h

theorem not_mem_columns (hc : c ≠ ' ') (h : ∀ entry ∈ entries, c ∉ entry) :
    c ∉ columns width entries := by
  intro hmem
  obtain ⟨entry, hentry, hmem⟩ := List.mem_flatMap.1 hmem
  exact (mem_alignRight hmem).elim hc (h entry hentry)

theorem length_columns (h : ∀ entry ∈ entries, entry.length ≤ width) :
    (columns width entries).length = width * entries.length := by
  induction entries with
  | nil => rfl
  | cons entry entries ih =>
    have hrest := ih fun other hother => h other (List.mem_cons_of_mem entry hother)
    rw [columns_cons, List.length_append, length_alignRight (h entry List.mem_cons_self), hrest,
      List.length_cons, Nat.mul_add_one, Nat.add_comm]

/-- An entry stands in the column of its number. -/
theorem take_drop_columns (h : ∀ entry ∈ entries, entry.length ≤ width)
    (hentry : entries[index]? = some entry) :
    ((columns width entries).drop (width * index)).take width = alignRight width entry := by
  induction entries generalizing index with
  | nil => cases hentry
  | cons first entries ih =>
    have hlength := length_alignRight (h first List.mem_cons_self)
    rw [columns_cons]
    cases index with
    | zero =>
      cases hentry
      rw [Nat.mul_zero, List.drop_zero, List.take_append_of_le_length (Nat.le_of_eq hlength.symm),
        List.take_of_length_le (Nat.le_of_eq hlength)]
    | succ index =>
      rw [Nat.mul_add_one, Nat.add_comm, ← List.drop_drop, List.drop_left' hlength]
      exact ih (fun other hother => h other (List.mem_cons_of_mem first hother)) hentry

/-- What stands in a column is known from it, if it has no blanks. -/
theorem alignRight_injective (h : ' ' ∉ entry) (h' : ' ' ∉ other)
    (heq : alignRight width entry = alignRight width other) : entry = other := by
  have hfilter : ∀ cs : List Char, ' ' ∉ cs → (alignRight width cs).filter (· ≠ ' ') = cs := by
    intro cs hcs
    have hblanks : (List.replicate (width - cs.length) ' ').filter (· ≠ ' ') = [] := by simp
    have hrest : cs.filter (· ≠ ' ') = cs :=
      List.filter_eq_self.2 fun c hc => decide_eq_true fun heq => hcs (heq ▸ hc)
    rw [alignRight, List.filter_append, hblanks, hrest, List.nil_append]
  rw [← hfilter entry h, heq, hfilter other h']

end Text
end PressCalendar
