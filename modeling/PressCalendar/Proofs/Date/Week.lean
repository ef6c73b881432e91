/-
Weeks.

A week belongs to the year that holds its Thursday, and is numbered from the first
such week on.  `week_eq_iff` says that two dates lie in the same numbered week
exactly if their weeks begin on the same Monday, and `week_lt_of_monday_lt` that
later weeks have later years or numbers.
-/
import PressCalendar.Proofs.Date.Number

namespace PressCalendar

theorem Weekday.sinceMonday_afterMonday (n : Nat) : (afterMonday n).sinceMonday = n % 7 := by
  have hday : n % 7 = 0 ∨ n % 7 = 1 ∨ n % 7 = 2 ∨ n % 7 = 3 ∨ n % 7 = 4 ∨ n % 7 = 5 ∨
      n % 7 = 6 := by omega
  rcases hday with h | h | h | h | h | h | h <;> simp only [afterMonday, h, sinceMonday]

namespace Date

/-- The number of the Monday with which the week of a date begins. -/
def monday (d : Date) : Int := d.number - d.weekday.sinceMonday

theorem monday_eq (d : Date) : d.monday = d.number - (d.number + 4) % 7 := by
  unfold monday weekday
  rw [Weekday.sinceMonday_afterMonday]
  omega

theorem monday_mod (d : Date) : (d.monday + 4) % 7 = 0 := by
  rw [monday_eq]
  omega

theorem monday_le_monday {d e : Date} (h : d ≤ e) : d.monday ≤ e.monday := by
  rw [le_iff_number] at h
  rw [monday_eq, monday_eq]
  omega

theorem yearLength_ge (year : Int) : 365 ≤ yearLength year := by
  unfold yearLength
  split <;> decide

/-- The Thursday of a week lies in the year of the week, and the number of the week
counts the weeks of that year up to it. -/
theorem week_bounds (d : Date) :
    daysBeforeYear d.week.year < d.monday + 3 ∧
      d.monday + 3 ≤ daysBeforeYear (d.week.year + 1) ∧
      (d.week.week : Int) = (d.monday + 3 - daysBeforeYear d.week.year - 1) / 7 + 1 := by
  have hlow := d.ordinal_pos
  have hhigh := d.ordinal_le
  have hnumber : d.number = daysBeforeYear d.year + d.ordinal := rfl
  have hnext := daysBeforeYear_succ d.year
  have hprevious := daysBeforeYear_succ (d.year - 1)
  have hlong := yearLength_ge (d.year - 1)
  have hfollowing := daysBeforeYear_succ (d.year + 1)
  have hlater := yearLength_ge (d.year + 1)
  rw [Int.sub_add_cancel] at hprevious
  rw [monday_eq]
  unfold week
  simp only
  split
  · case isTrue h =>
    rw [Int.sub_add_cancel]
    omega
  · case isFalse h =>
    split
    · case isTrue h' => omega
    · case isFalse h' => omega

theorem year_unique {x y t : Int} (hx : daysBeforeYear x < t) (hx' : t ≤ daysBeforeYear (x + 1))
    (hy : daysBeforeYear y < t) (hy' : t ≤ daysBeforeYear (y + 1)) : x = y := by
  rcases Int.lt_trichotomy x y with h | h | h
  · have hdays := daysBeforeYear_le h
    rw [← daysBeforeYear_succ] at hdays
    omega
  · exact h
  · have hdays := daysBeforeYear_le h
    rw [← daysBeforeYear_succ] at hdays
    omega

theorem week_eq_iff {d e : Date} : d.week = e.week ↔ d.monday = e.monday := by
  obtain ⟨hd, hd', hdweek⟩ := d.week_bounds
  obtain ⟨he, he', heweek⟩ := e.week_bounds
  have hdmod := d.monday_mod
  have hemod := e.monday_mod
  constructor
  · intro h
    rw [h] at hd hd' hdweek
    omega
  · intro h
    rw [h] at hd hd' hdweek
    have hyear := year_unique hd hd' he he'
    rw [hyear] at hdweek
    have hweek : d.week.week = e.week.week := by omega
    cases hdw : d.week
    cases hew : e.week
    rw [hdw, hew] at hyear hweek
    simp only at hyear hweek
    rw [hyear, hweek]

theorem week_lt_of_monday_lt {d e : Date} (h : d.monday < e.monday) :
    d.week.year < e.week.year ∨ d.week.year = e.week.year ∧ d.week.week < e.week.week := by
  obtain ⟨hd, hd', hdweek⟩ := d.week_bounds
  obtain ⟨he, he', heweek⟩ := e.week_bounds
  have hdmod := d.monday_mod
  have hemod := e.monday_mod
  rcases Int.lt_trichotomy d.week.year e.week.year with hyear | hyear | hyear
  · exact .inl hyear
  · rw [hyear] at hd hd' hdweek
    exact .inr ⟨hyear, by omega⟩
  · have hdays := daysBeforeYear_le hyear
    rw [← daysBeforeYear_succ] at hdays
    omega

end Date

end PressCalendar
