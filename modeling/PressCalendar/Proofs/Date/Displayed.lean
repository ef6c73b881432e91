/-
The display form of a date, typed back.

Its digits stand in three runs, for the day, the month and the year, and what stands between
them, a plus sign included, is no digit.  From the year 100 on `read_display` has the date read
as it was written, without a guess: the year is not short, and the numbers are a date as they
stand.
-/
import PressCalendar.Date.Text
import PressCalendar.Proofs.Date.Completed

namespace PressCalendar

open Text

theorem isDecimal_of_isDigit {c : Char} (h : c.isDigit = true) : isDecimal c = true := by
  have hrange : 48 ≤ c.toNat ∧ c.toNat ≤ 57 := by
    simp only [Char.isDigit, Bool.and_eq_true, decide_eq_true_eq] at h
    exact ⟨h.1, h.2⟩
  rw [isDecimal, List.any_eq_true]
  refine ⟨0x30, List.mem_cons_self, ?_⟩
  rw [Bool.and_eq_true, decide_eq_true_eq, decide_eq_true_eq]
  omega

theorem isDecimal_padZero (width n : Nat) : ∀ c ∈ padZero width n, isDecimal c = true :=
  fun c hc => isDecimal_of_isDigit (List.all_eq_true.1 (all_isDigit_padZero width n) c hc)

theorem padZero_ne_nil (width n : Nat) : padZero width n ≠ [] := by
  intro h
  have hread := number?_padZero width n
  rw [h] at hread
  cases hread

theorem denotes_padZero (width n : Nat) : Denotes (padZero width n) n :=
  (number?_eq_some_iff (padZero_ne_nil width n)).1 (number?_padZero width n)

/-- A number that is followed by something else is a run of its own. -/
theorem Runs.padZero_append {c : Char} {rest : List Char} {runs : List (List Char)}
    (width n : Nat) (hc : isDecimal c = false) (h : Runs (c :: rest) runs) :
    Runs (padZero width n ++ c :: rest) (padZero width n :: runs) := by
  refine .at_start (padZero_ne_nil width n) (isDecimal_padZero width n) ?_ h
  intro d hd
  cases hd
  exact hc

theorem runs_padZero (width n : Nat) : Runs (padZero width n) [padZero width n] := by
  have hnone : Runs [] [] := .none (List.forall_mem_nil _)
  have hrun := Runs.at_start (padZero_ne_nil width n) (isDecimal_padZero width n) (by simp) hnone
  rwa [List.append_nil] at hrun

namespace Date

/-- The sign of a year is not part of its run. -/
theorem runs_yearText (year : Int) : Runs (yearText year) [padZero 4 year.natAbs] := by
  unfold yearText
  split
  · case isTrue h =>
    rw [show year.toNat = year.natAbs by omega]
    exact runs_padZero 4 year.natAbs
  · have hsign : ∀ c ∈ [if year < 0 then '-' else '+'], isDecimal c = false := by
      rw [List.forall_mem_singleton]
      split <;> decide
    exact (runs_padZero 4 year.natAbs).gap_append hsign

theorem runs_displayText (d : Date) :
    Runs d.displayText [padZero 2 d.day, padZero 2 d.month, padZero 4 d.year.natAbs] := by
  have hdot : isDecimal '.' = false := by decide
  have hpoint : ∀ c ∈ ['.'], isDecimal c = false := List.forall_mem_singleton.2 hdot
  have hyear := (runs_yearText d.year).gap_append hpoint
  have hmonth := (Runs.padZero_append 2 d.month hdot hyear).gap_append hpoint
  have hday := Runs.padZero_append 2 d.day hdot hmonth
  rw [displayText, List.append_assoc]
  exact hday

end Date

namespace TypedDate

/-- A year with a sign in front of it is spelled by its number alone. -/
theorem spelling_display (d : Date) :
    Spelling d.display (padZero 4 d.year.natAbs) d.day d.month d.year.natAbs := by
  have hday := d.day_le
  have hmonth := d.month_le
  have hyear := d.isDate
  refine ⟨⟨padZero 2 d.day, padZero 2 d.month, ?_, denotes_padZero 2 d.day,
    denotes_padZero 2 d.month, denotes_padZero 4 d.year.natAbs⟩, by omega, by omega, ?_⟩
  · rw [Date.display, String.toList_ofList]
    exact d.runs_displayText
  · unfold IsDate firstYear lastYear at hyear
    omega

theorem read_display (today : Date) {d : Date} (hyear : 100 ≤ d.year) :
    read today d.display = .ok ⟨d, []⟩ := by
  have hspelling := spelling_display d
  have hlong : 100 ≤ d.year.natAbs := by omega
  have hfull : fullYear today d.year.natAbs = d.year := by
    rw [fullYear_of_full hlong]
    omega
  have harrange : arrange? (fullYear today d.year.natAbs) d.day d.month
      (yearHints today (padZero 4 d.year.natAbs) d.year.natAbs) = some ⟨d, []⟩ := by
    rw [hfull, yearHints_of_full hlong, arrange?, Date.of?_self]
  rw [read_eq_ok_iff, ofText?_trim_iff]
  exact ⟨_, _, _, _, hspelling, harrange⟩

end TypedDate
end PressCalendar
