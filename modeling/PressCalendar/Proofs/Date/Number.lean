/-
Numbers of dates.

Dates compare as their numbers do, so a run of days is ascending, and the days of a
range are those between its ends.
-/
import PressCalendar.Date.Basic

namespace PressCalendar

namespace Date

theorem daysBeforeMonth_le (year : Int) {month later : Nat} (h : month < later) :
    daysBeforeMonth year month + monthLength year month ≤ daysBeforeMonth year later := by
  induction later with
  | zero => exact absurd h (Nat.not_lt_zero month)
  | succ later ih =>
    rw [daysBeforeMonth_succ]
    rcases Nat.lt_or_eq_of_le (Nat.le_of_lt_succ h) with hlt | rfl
    · exact Nat.le_trans (ih hlt) (Nat.le_add_right _ _)
    · exact Nat.le_refl _

theorem daysBeforeYear_le {year later : Int} (h : year < later) :
    daysBeforeYear year + yearLength year ≤ daysBeforeYear later := by
  rw [← daysBeforeYear_succ]
  unfold daysBeforeYear
  omega

theorem ordinal_pos (d : Date) : 1 ≤ d.ordinal := by
  have hday := d.day_pos
  unfold ordinal
  omega

theorem ordinal_le (d : Date) : (d.ordinal : Int) ≤ yearLength d.year := by
  have hday := d.day_le_monthLength
  have hmonth : daysBeforeMonth d.year d.month + monthLength d.year d.month ≤
      daysBeforeMonth d.year 13 :=
    daysBeforeMonth_le d.year (Nat.lt_succ_of_le d.month_le)
  have hyear := daysBeforeMonth_thirteen d.year
  unfold ordinal
  omega

theorem number_lt_of_lt {a b : Date} (h : a < b) : a.number < b.number := by
  rw [number, number]
  rcases lt_iff.1 h with hyear | ⟨hyear, hmonth | ⟨hmonth, hday⟩⟩
  · have hdays := daysBeforeYear_le hyear
    have ha := a.ordinal_le
    have hb := b.ordinal_pos
    omega
  · have hdays := daysBeforeMonth_le a.year hmonth
    have ha := a.day_le_monthLength
    have hb := b.day_pos
    rw [ordinal, ordinal, ← hyear]
    omega
  · rw [ordinal, ordinal, ← hyear, ← hmonth]
    omega

/-- Dates compare as their numbers do. -/
theorem lt_iff_number {a b : Date} : a < b ↔ a.number < b.number := by
  constructor
  · exact number_lt_of_lt
  · intro h
    by_cases hab : a < b
    · exact hab
    · rcases Int.lt_or_eq_of_le (le_def.1 (not_lt.1 hab)) with hlt | heq
      · have hba := number_lt_of_lt (lt_def.2 hlt)
        omega
      · rw [rank_injective heq] at h
        omega

theorem le_iff_number {a b : Date} : a ≤ b ↔ a.number ≤ b.number := by
  rw [← not_lt, lt_iff_number]
  omega

theorem number_injective {a b : Date} (h : a.number = b.number) : a = b :=
  le_antisymm (le_iff_number.2 (by omega)) (le_iff_number.2 (by omega))

/-! ## Runs of days -/

theorem mem_run {n : Nat} {d e : Date} (h : e ∈ run n d) :
    d.number ≤ e.number ∧ e.number < d.number + n := by
  induction n generalizing d with
  | zero => exact absurd h List.not_mem_nil
  | succ n ih =>
    rw [run_succ] at h
    rcases List.mem_cons.1 h with rfl | h
    · omega
    · cases hnext : d.next? with
      | none =>
        rw [hnext] at h
        exact absurd h List.not_mem_nil
      | some following =>
        rw [hnext] at h
        have hnumber := number_next hnext
        have hrest := ih h
        omega

theorem pairwise_run (n : Nat) (d : Date) : (run n d).Pairwise (· < ·) := by
  induction n generalizing d with
  | zero => exact List.Pairwise.nil
  | succ n ih =>
    rw [run_succ]
    cases hnext : d.next? with
    | none => exact List.pairwise_singleton _ d
    | some following =>
      refine List.pairwise_cons.2 ⟨?_, ih following⟩
      intro e he
      have hnumber := number_next hnext
      have hrest := mem_run he
      rw [lt_iff_number]
      omega

/-- Where there is no next day the calendar ends. -/
theorem le_of_next?_eq_none {d : Date} (h : d.next? = none) (e : Date) : e ≤ d := by
  obtain ⟨hyears, hyears', -, hday⟩ := d.isDate
  have hmonth := d.month_le
  unfold next? at h
  rw [Option.or_eq_none_iff, Option.or_eq_none_iff, of?_eq_none_iff, of?_eq_none_iff,
    of?_eq_none_iff] at h
  obtain ⟨hnoday, hnomonth, hnoyear⟩ := h
  unfold IsDate at hnoday hnomonth hnoyear
  -- each of the three ways to go on is closed, so this is 31 December of the last year
  have hmonthEnd : d.day = monthLength d.year d.month := by omega
  have hdecember : d.month = 12 := by
    rcases Nat.lt_or_ge d.month 12 with hlt | hge
    · have hlength := @le_monthLength d.year (d.month + 1) (by omega) hlt
      omega
    · omega
  have hlastYear : d.year = lastYear := by
    have hlength : monthLength (d.year + 1) 1 = 31 := rfl
    omega
  have hday' := e.day_le_monthLength
  have hmonth' := e.month_le
  have hyear' := e.isDate.2.1
  rw [← not_lt, lt_iff]
  rintro (hlt | ⟨hyear, hlt | ⟨hsame, hlt⟩⟩)
  · omega
  · omega
  · rw [← hyear, ← hsame] at hday'
    omega

/-- A run leaves out no day. -/
theorem mem_run_of_le {n : Nat} {d e : Date} (hle : d.number ≤ e.number)
    (hlt : e.number < d.number + n) : e ∈ run n d := by
  induction n generalizing d with
  | zero => omega
  | succ n ih =>
    rw [run_succ]
    by_cases heq : e = d
    · exact List.mem_cons.2 (.inl heq)
    · refine List.mem_cons_of_mem d ?_
      have hne : e.number ≠ d.number := fun hsame => heq (number_injective hsame)
      cases hnext : d.next? with
      | none =>
        have hend := le_iff_number.1 (le_of_next?_eq_none hnext e)
        omega
      | some following =>
        have hnumber := number_next hnext
        exact ih (by omega) (by omega)

theorem mem_closedRange_iff {first last d : Date} :
    d ∈ closedRange first last ↔ first ≤ d ∧ d ≤ last := by
  rw [le_iff_number, le_iff_number]
  constructor
  · intro h
    have hrun := mem_run h
    omega
  · rintro ⟨hfirst, hlast⟩
    exact mem_run_of_le hfirst (by omega)

end Date

end PressCalendar
