/-
Dates of the proleptic Gregorian calendar, from 1 January of year -262143 to
31 December of year 262142.

A date is a year, a month and a day that fit together.  Two integers are read
off it.  `rank` packs the three numbers so that dates compare as their ranks do,
which makes every statement about order a linear one.  `number` counts days, and
the statement tying the two together is `number_next`: the date after a date has
the next number.
-/
import PressCalendar.Weekday

namespace PressCalendar

/-! ## The shape of the calendar -/

def firstYear : Int := -262143

def lastYear : Int := 262142

/-- Every fourth year, of the centuries only every fourth. -/
def isLeapYear (year : Int) : Bool :=
  (year % 4 == 0 && year % 100 != 0) || year % 400 == 0

/-- The days of a month, none for a number that names no month. -/
def monthLength (year : Int) : Nat → Nat
  | 1 => 31
  | 2 => if isLeapYear year then 29 else 28
  | 3 => 31
  | 4 => 30
  | 5 => 31
  | 6 => 30
  | 7 => 31
  | 8 => 31
  | 9 => 30
  | 10 => 31
  | 11 => 30
  | 12 => 31
  | _ => 0

/-- Whether the calendar has this day.  A positive day within the length of its
month also makes the month one of the twelve. -/
def IsDate (year : Int) (month day : Nat) : Prop :=
  firstYear ≤ year ∧ year ≤ lastYear ∧ 1 ≤ day ∧ day ≤ monthLength year month

instance (year : Int) (month day : Nat) : Decidable (IsDate year month day) :=
  inferInstanceAs (Decidable (_ ∧ _ ∧ _ ∧ _))

theorem monthLength_le (year : Int) (month : Nat) : monthLength year month ≤ 31 := by
  unfold monthLength
  split <;> (try split) <;> omega

theorem month_bounds {year : Int} {month : Nat} (h : 1 ≤ monthLength year month) :
    1 ≤ month ∧ month ≤ 12 := by
  unfold monthLength at h
  split at h <;> omega

theorem le_monthLength (year : Int) {month : Nat} (hpos : 1 ≤ month) (hle : month ≤ 12) :
    28 ≤ monthLength year month := by
  have h : month = 1 ∨ month = 2 ∨ month = 3 ∨ month = 4 ∨ month = 5 ∨ month = 6 ∨ month = 7 ∨
      month = 8 ∨ month = 9 ∨ month = 10 ∨ month = 11 ∨ month = 12 := by omega
  rcases h with rfl | rfl | rfl | rfl | rfl | rfl | rfl | rfl | rfl | rfl | rfl | rfl <;>
    simp only [monthLength] <;> (try split) <;> decide

structure Date where
  year : Int
  month : Nat
  day : Nat
  isDate : IsDate year month day
deriving DecidableEq, Repr

namespace Date

def of? (year : Int) (month day : Nat) : Option Date :=
  if h : IsDate year month day then some ⟨year, month, day, h⟩ else none

theorem of?_eq_some_iff {year : Int} {month day : Nat} {d : Date} :
    of? year month day = some d ↔ d.year = year ∧ d.month = month ∧ d.day = day := by
  unfold of?
  split
  · case isTrue h =>
    cases d
    simp only [Option.some.injEq, mk.injEq]
    exact ⟨fun ⟨a, b, c⟩ => ⟨a.symm, b.symm, c.symm⟩, fun ⟨a, b, c⟩ => ⟨a.symm, b.symm, c.symm⟩⟩
  · case isFalse h =>
    simp only [reduceCtorEq, false_iff]
    rintro ⟨rfl, rfl, rfl⟩
    exact h d.isDate

theorem of?_isSome_iff {year : Int} {month day : Nat} :
    (of? year month day).isSome ↔ IsDate year month day := by
  unfold of?
  split <;> simp_all

theorem of?_self (d : Date) : of? d.year d.month d.day = some d :=
  of?_eq_some_iff.2 ⟨rfl, rfl, rfl⟩

theorem day_pos (d : Date) : 1 ≤ d.day := d.isDate.2.2.1

theorem day_le_monthLength (d : Date) : d.day ≤ monthLength d.year d.month := d.isDate.2.2.2

theorem day_le (d : Date) : d.day ≤ 31 :=
  Nat.le_trans d.day_le_monthLength (monthLength_le _ _)

theorem month_pos (d : Date) : 1 ≤ d.month :=
  (month_bounds (Nat.le_trans d.day_pos d.day_le_monthLength)).1

theorem month_le (d : Date) : d.month ≤ 12 :=
  (month_bounds (Nat.le_trans d.day_pos d.day_le_monthLength)).2

def last : Date := ⟨262142, 12, 31, by decide⟩

/-! ## Order -/

/-- Year, month and day in one integer: no month has a day beyond 31 and no year
a month beyond 12. -/
def rank (d : Date) : Int := (d.year * 16 + d.month) * 32 + d.day

theorem rank_injective {a b : Date} (h : a.rank = b.rank) : a = b := by
  have ha := a.day_le
  have hb := b.day_le
  have ha' := a.month_le
  have hb' := b.month_le
  unfold rank at h
  cases a
  cases b
  simp only [mk.injEq]
  simp only at h ha hb ha' hb'
  omega

instance : LT Date := ⟨fun a b => a.rank < b.rank⟩

instance : LE Date := ⟨fun a b => a.rank ≤ b.rank⟩

instance (a b : Date) : Decidable (a < b) := inferInstanceAs (Decidable (a.rank < b.rank))

instance (a b : Date) : Decidable (a ≤ b) := inferInstanceAs (Decidable (a.rank ≤ b.rank))

theorem lt_def {a b : Date} : a < b ↔ a.rank < b.rank := Iff.rfl

theorem le_def {a b : Date} : a ≤ b ↔ a.rank ≤ b.rank := Iff.rfl

theorem lt_irrefl (a : Date) : ¬a < a := fun h => absurd (lt_def.1 h) (Int.lt_irrefl _)

theorem lt_trans {a b c : Date} (h₁ : a < b) (h₂ : b < c) : a < c :=
  lt_def.2 (Int.lt_trans (lt_def.1 h₁) (lt_def.1 h₂))

theorem le_refl (a : Date) : a ≤ a := le_def.2 (Int.le_refl _)

theorem le_trans {a b c : Date} (h₁ : a ≤ b) (h₂ : b ≤ c) : a ≤ c :=
  le_def.2 (Int.le_trans (le_def.1 h₁) (le_def.1 h₂))

theorem le_of_lt {a b : Date} (h : a < b) : a ≤ b := le_def.2 (Int.le_of_lt (lt_def.1 h))

theorem not_le {a b : Date} : ¬a ≤ b ↔ b < a := by
  rw [le_def, lt_def, Int.not_le]

theorem not_lt {a b : Date} : ¬a < b ↔ b ≤ a := by
  rw [le_def, lt_def, Int.not_lt]

instance : Min Date := ⟨fun a b => if a ≤ b then a else b⟩

instance : Max Date := ⟨fun a b => if a ≤ b then b else a⟩

theorem le_antisymm {a b : Date} (h₁ : a ≤ b) (h₂ : b ≤ a) : a = b :=
  rank_injective (Int.le_antisymm (le_def.1 h₁) (le_def.1 h₂))

theorem lt_iff {a b : Date} : a < b ↔ a.year < b.year ∨
    (a.year = b.year ∧ (a.month < b.month ∨ (a.month = b.month ∧ a.day < b.day))) := by
  have ha := a.day_le
  have hb := b.day_le
  have ha' := a.month_le
  have hb' := b.month_le
  rw [lt_def, rank, rank]
  omega

/-! ## Counting days -/

/-- Days before the first of January, counted from the first of January of
year 0. -/
def daysBeforeYear (year : Int) : Int :=
  365 * year + (year + 3) / 4 - (year + 99) / 100 + (year + 399) / 400

def yearLength (year : Int) : Int := if isLeapYear year then 366 else 365

theorem isLeapYear_iff (year : Int) :
    isLeapYear year = true ↔ (year % 4 = 0 ∧ year % 100 ≠ 0) ∨ year % 400 = 0 := by
  simp [isLeapYear]

theorem daysBeforeYear_succ (year : Int) :
    daysBeforeYear (year + 1) = daysBeforeYear year + yearLength year := by
  unfold yearLength daysBeforeYear
  have h := isLeapYear_iff year
  split
  · case isTrue hl =>
    have := h.1 hl
    omega
  · case isFalse hl =>
    have : ¬((year % 4 = 0 ∧ year % 100 ≠ 0) ∨ year % 400 = 0) := fun hp => hl (h.2 hp)
    omega

/-- Days of the year before the first of a month. -/
def daysBeforeMonth (year : Int) : Nat → Nat
  | 0 => 0
  | month + 1 => daysBeforeMonth year month + monthLength year month

theorem daysBeforeMonth_succ (year : Int) (month : Nat) :
    daysBeforeMonth year (month + 1) = daysBeforeMonth year month + monthLength year month := rfl

/-- The day of the year, from 1. -/
def ordinal (d : Date) : Nat := daysBeforeMonth d.year d.month + d.day

/-- The days from 1 January of year 0, which has the number 1. -/
def number (d : Date) : Int := daysBeforeYear d.year + d.ordinal

/-- The first of January of year 0 is a Saturday. -/
def weekday (d : Date) : Weekday := Weekday.afterMonday ((d.number + 4) % 7).toNat

/-- The calendar week of a date, in the year that holds its Thursday. -/
structure Week where
  year : Int
  week : Nat
deriving DecidableEq, Repr

def week (d : Date) : Week :=
  let thursday := d.number + 3 - (d.number + 4) % 7
  let year :=
    if thursday ≤ daysBeforeYear d.year then d.year - 1
    else if daysBeforeYear (d.year + 1) < thursday then d.year + 1
    else d.year
  ⟨year, ((thursday - daysBeforeYear year - 1) / 7).toNat + 1⟩

/-! ## Moving through the calendar -/

/-- The next day, unless the calendar ends: the next day of the month, or else
the first of the next month, or else the first of the next year. -/
def next? (d : Date) : Option Date :=
  (of? d.year d.month (d.day + 1)).or ((of? d.year (d.month + 1) 1).or (of? (d.year + 1) 1 1))

theorem of?_eq_none_iff {year : Int} {month day : Nat} :
    of? year month day = none ↔ ¬IsDate year month day := by
  unfold of?
  split <;> simp_all

theorem daysBeforeMonth_thirteen (year : Int) :
    (daysBeforeMonth year 13 : Int) = yearLength year := by
  simp only [daysBeforeMonth_succ, yearLength, monthLength]
  split <;> rfl

theorem number_next {d e : Date} (h : d.next? = some e) : e.number = d.number + 1 := by
  have hd := d.isDate
  have hm := d.month_le
  unfold next? at h
  rw [Option.or_eq_some_iff, Option.or_eq_some_iff, of?_eq_none_iff, of?_eq_none_iff] at h
  rcases h with h | ⟨hnone, h | ⟨hnone', h⟩⟩
  · obtain ⟨hy, hmon, hday⟩ := of?_eq_some_iff.1 h
    rw [number, number, ordinal, ordinal, hy, hmon, hday]
    omega
  · obtain ⟨hy, hmon, hday⟩ := of?_eq_some_iff.1 h
    have hlen : d.day = monthLength d.year d.month := by
      unfold IsDate at hnone hd
      omega
    rw [number, number, ordinal, ordinal, hy, hmon, hday, daysBeforeMonth_succ, hlen]
    omega
  · obtain ⟨hy, hmon, hday⟩ := of?_eq_some_iff.1 h
    have hlen : d.day = monthLength d.year d.month := by
      unfold IsDate at hnone hd
      omega
    have htwelve : d.month = 12 := by
      unfold IsDate at hnone' hd
      rcases Nat.lt_or_ge d.month 12 with hlt | hge
      · have := @le_monthLength d.year (d.month + 1) (by omega) hlt
        omega
      · omega
    have hyear := daysBeforeMonth_thirteen d.year
    rw [daysBeforeMonth_succ] at hyear
    have hfirst : daysBeforeMonth (d.year + 1) 1 = 0 := rfl
    rw [number, number, ordinal, ordinal, hy, hmon, hday, hfirst, daysBeforeYear_succ, hlen,
      htwelve]
    omega

/-- The day before, unless the calendar begins. -/
def previous? (d : Date) : Option Date :=
  (of? d.year d.month (d.day - 1)).or
    ((of? d.year (d.month - 1) (monthLength d.year (d.month - 1))).or (of? (d.year - 1) 12 31))

/-- The same day so many years on.  29 February becomes the 28th where there is
no 29th. -/
def addYears? (d : Date) (years : Int) : Option Date :=
  let year := d.year + years
  of? year d.month (min d.day (monthLength year d.month))

/-- The given number of days from a date on, latest first, put in front of a
list. -/
def runOnto (acc : List Date) : Nat → Date → List Date
  | 0, _ => acc
  | n + 1, d =>
    match d.next? with
    | some e => runOnto (d :: acc) n e
    | none => d :: acc

/-- The given number of days from a date on, as far as the calendar goes. -/
def run (n : Nat) (d : Date) : List Date := (runOnto [] n d).reverse

theorem runOnto_eq (acc : List Date) (n : Nat) (d : Date) :
    runOnto acc n d = runOnto [] n d ++ acc := by
  induction n generalizing acc d with
  | zero => rfl
  | succ n ih =>
    unfold runOnto
    split
    · rw [ih (d :: acc), ih [d], List.append_assoc]
      rfl
    · rfl

@[simp]
theorem run_zero (d : Date) : run 0 d = [] := rfl

theorem run_succ (n : Nat) (d : Date) :
    run (n + 1) d = d :: (match d.next? with
      | some e => run n e
      | none => []) := by
  cases h : d.next? with
  | none => simp [run, runOnto, h]
  | some e => simp [run, runOnto, h, runOnto_eq [d]]

/-- Every day from the first date to the last, both included. -/
def closedRange (first last : Date) : List Date :=
  run (last.number + 1 - first.number).toNat first

end Date

end PressCalendar
