/-
Periods of dates.

`SamePeriod` says when two dates lie in the same day, week, month, quarter or year,
in the words of the calendar.  A period is the same for two dates exactly in that
case, and otherwise the later date has the later period.
-/
import PressCalendar.Granularity
import PressCalendar.Proofs.Date.Week

namespace PressCalendar

/-- Periods compare by their years, and then by their parts. -/
def Period.Before (x y : Period) : Prop := x.year < y.year ∨ x.year = y.year ∧ x.part < y.part

theorem Period.Before.trans {x y z : Period} (hxy : x.Before y) (hyz : y.Before z) :
    x.Before z := by
  unfold Before at *
  omega

theorem Period.Before.irrefl (x : Period) : ¬x.Before x := by
  unfold Before
  omega

namespace Granularity

def IsDated (g : Granularity) : Prop := g ≠ issues ∧ g ≠ asImported

/-- Whether two dates belong together. -/
def SamePeriod : Granularity → Date → Date → Prop
  | days, d, e => d = e
  | weeks, d, e => d.monday = e.monday
  | months, d, e => d.year = e.year ∧ d.month = e.month
  | quarters, d, e => d.year = e.year ∧
    ∃ q, (3 * q < d.month ∧ d.month ≤ 3 * q + 3) ∧ 3 * q < e.month ∧ e.month ≤ 3 * q + 3
  | years, d, e => d.year = e.year
  | issues, _, _ => False
  | asImported, _, _ => False

theorem period?_isSome_iff {g : Granularity} {d : Date} :
    (g.period? d).isSome = true ↔ g.IsDated := by
  cases g <;> simp [period?, IsDated]

theorem exists_period {g : Granularity} (hg : g.IsDated) (d : Date) :
    ∃ x, g.period? d = some x :=
  Option.isSome_iff_exists.1 (period?_isSome_iff.2 hg)

theorem SamePeriod.isDated {g : Granularity} {d e : Date} (h : g.SamePeriod d e) :
    g.IsDated := by
  cases g with
  | issues => exact h.elim
  | asImported => exact h.elim
  | _ => exact ⟨by decide, by decide⟩

theorem ordinal_eq_iff {d e : Date} : d.year = e.year ∧ d.ordinal = e.ordinal ↔ d = e := by
  constructor
  · rintro ⟨hyear, hordinal⟩
    refine Date.number_injective ?_
    rw [Date.number, Date.number, hyear, hordinal]
  · rintro rfl
    exact ⟨rfl, rfl⟩

theorem quarter_eq_iff {m n : Nat} (hm : 1 ≤ m) (hn : 1 ≤ n) :
    (m - 1) / 3 = (n - 1) / 3 ↔
      ∃ q, (3 * q < m ∧ m ≤ 3 * q + 3) ∧ 3 * q < n ∧ n ≤ 3 * q + 3 := by
  constructor
  · intro h
    exact ⟨(m - 1) / 3, by omega, by omega, by omega⟩
  · rintro ⟨q, ⟨hlow, hhigh⟩, hlow', hhigh'⟩
    omega

theorem period?_eq_iff {g : Granularity} (hg : g.IsDated) {d e : Date} :
    g.period? d = g.period? e ↔ g.SamePeriod d e := by
  cases g with
  | issues => exact absurd rfl hg.1
  | asImported => exact absurd rfl hg.2
  | days =>
    simp only [period?, Option.some.injEq, Period.mk.injEq]
    exact ordinal_eq_iff
  | weeks =>
    simp only [period?, Option.some.injEq, Period.mk.injEq]
    rw [SamePeriod, ← Date.week_eq_iff]
    cases d.week
    cases e.week
    simp only [Date.Week.mk.injEq]
  | months => simp only [period?, Option.some.injEq, Period.mk.injEq, SamePeriod]
  | quarters =>
    simp only [period?, Option.some.injEq, Period.mk.injEq, SamePeriod]
    rw [quarter_eq_iff d.month_pos e.month_pos]
  | years => simp only [period?, Option.some.injEq, Period.mk.injEq, SamePeriod, and_true]

theorem before_of_le {g : Granularity} (hg : g.IsDated) {d e : Date} (hle : d ≤ e)
    (hne : g.period? d ≠ g.period? e) {x y : Period} (hx : g.period? d = some x)
    (hy : g.period? e = some y) : x.Before y := by
  rw [Ne, period?_eq_iff hg] at hne
  have hlt : d < e := by
    rcases Int.lt_or_eq_of_le (Date.le_def.1 hle) with hlt | heq
    · exact hlt
    · have hsame := Date.rank_injective heq
      subst hsame
      exact absurd ((period?_eq_iff hg).1 rfl) hne
  have hparts := Date.lt_iff.1 hlt
  cases g with
  | issues => exact absurd rfl hg.1
  | asImported => exact absurd rfl hg.2
  | days =>
    cases hx
    cases hy
    have hnumber := Date.lt_iff_number.1 hlt
    rw [Date.number, Date.number] at hnumber
    rcases hparts with hyear | ⟨hyear, -⟩
    · exact .inl hyear
    · rw [hyear] at hnumber
      exact .inr ⟨hyear, by show d.ordinal < e.ordinal; omega⟩
  | weeks =>
    cases hx
    cases hy
    have hmonday := Date.monday_le_monday hle
    simp only [SamePeriod] at hne
    exact Date.week_lt_of_monday_lt (by omega)
  | months =>
    cases hx
    cases hy
    simp only [SamePeriod] at hne
    show d.year < e.year ∨ d.year = e.year ∧ d.month < e.month
    omega
  | quarters =>
    cases hx
    cases hy
    rw [← period?_eq_iff hg] at hne
    simp only [period?, Option.some.injEq, Period.mk.injEq] at hne
    show d.year < e.year ∨ d.year = e.year ∧ (d.month - 1) / 3 < (e.month - 1) / 3
    omega
  | years =>
    cases hx
    cases hy
    simp only [SamePeriod] at hne
    show d.year < e.year ∨ d.year = e.year ∧ 0 < 0
    omega

end Granularity

end PressCalendar
