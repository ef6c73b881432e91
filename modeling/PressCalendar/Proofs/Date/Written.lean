/-
Reading back a date in the exchange form.

`ofIsoText?_isoText` says that every date of the calendar is read as what was
written, whatever the sign of its year and however many digits it has.
-/
import PressCalendar.Date.Text

namespace PressCalendar

open Text

namespace Date

/-- Numbers in a field that is wide enough fill it exactly. -/
theorem length_padZero_of_lt {w n : Nat} (hpos : 0 < w) (h : n < Nat.pow 10 w) :
    (padZero w n).length = w := by
  have hle := (Nat.length_toDigits_le_iff (b := 10) (by decide) hpos).2 h
  simp only [padZero, List.length_append, List.length_replicate]
  omega

theorem padZero_eq_cons (width n : Nat) : ∃ c cs, padZero width n = c :: cs ∧
    c.isDigit = true := by
  have hall := all_isDigit_padZero width n
  cases hp : padZero width n with
  | nil =>
    have hne := number?_padZero width n
    rw [hp] at hne
    exact absurd hne (by simp [number?])
  | cons c cs =>
    rw [hp, List.all_cons, Bool.and_eq_true] at hall
    exact ⟨c, cs, rfl, hall.1⟩

theorem isBlank_of_isDigit {c : Char} (h : c.isDigit = true) : isBlank c = false := by
  have hlo : 48 ≤ c.toNat ∧ c.toNat ≤ 57 := by
    simp only [Char.isDigit, Bool.and_eq_true, decide_eq_true_eq] at h
    exact ⟨h.1, h.2⟩
  simp [isBlank]
  omega

theorem trimStart_padZero (width n : Nat) (rest : List Char) :
    trimStart (padZero width n ++ rest) = padZero width n ++ rest := by
  obtain ⟨c, cs, heq, hc⟩ := padZero_eq_cons width n
  rw [heq, trimStart, List.cons_append, List.dropWhile_cons_of_neg (by
    simp [isBlank_of_isDigit hc])]

/-- A number goes up to the first character that is no digit. -/
theorem takeWhile_padZero_append (width n : Nat) {rest : List Char}
    (hrest : ∀ c ∈ rest.head?, c.isDigit = false) :
    (padZero width n ++ rest).takeWhile Char.isDigit = padZero width n := by
  have hstop : rest.takeWhile Char.isDigit = [] := by
    cases rest with
    | nil => rfl
    | cons c cs =>
      rw [List.takeWhile_cons_of_neg]
      simp [hrest c rfl]
  rw [List.takeWhile_append_of_pos (List.all_eq_true.1 (all_isDigit_padZero width n)), hstop,
    List.append_nil]

theorem takeNumber?_padZero {limit : Option Nat} {width n : Nat} {rest : List Char}
    (hlimit : ∀ k ∈ limit, (padZero width n).length ≤ k)
    (hrest : ∀ c ∈ rest.head?, c.isDigit = false) :
    takeNumber? limit (padZero width n ++ rest) = some (n, rest) := by
  unfold takeNumber?
  rw [takeWhile_padZero_append width n hrest]
  cases limit with
  | none =>
    show (number? (padZero width n)).map _ = _
    rw [number?_padZero, Option.map_some, List.drop_left]
  | some k =>
    have htake : (padZero width n).take k = padZero width n :=
      List.take_of_length_le (hlimit k rfl)
    simp only [htake, number?_padZero, Option.map_some, List.drop_left]

theorem takeYear?_yearText (year : Int) (rest : List Char) :
    takeYear? (yearText year ++ '-' :: rest) = some (year, '-' :: rest) := by
  have hdash : ∀ c ∈ ('-' :: rest).head?, c.isDigit = false := by
    intro c hc
    cases hc
    decide
  unfold yearText
  split
  · case isTrue h =>
    have hdigits : year.toNat < 10000 := by omega
    have hlen := @length_padZero_of_lt 4 year.toNat (by decide) hdigits
    unfold takeYear?
    rw [trimStart_padZero]
    obtain ⟨c, cs, heq, hc⟩ := padZero_eq_cons 4 year.toNat
    have hread : takeNumber? (some 4) (padZero 4 year.toNat ++ '-' :: rest) =
        some (year.toNat, '-' :: rest) := takeNumber?_padZero (by simp [hlen]) hdash
    rw [heq, List.cons_append] at hread ⊢
    split
    · case h_1 hminus =>
      cases hminus
      exact absurd hc (by decide)
    · case h_2 hplus =>
      cases hplus
      exact absurd hc (by decide)
    · rw [hread, Option.map_some]
      simp only [Option.some.injEq, Prod.mk.injEq, and_true]
      omega
  · case isFalse h =>
    split
    · case isTrue hneg =>
      show (takeNumber? none (padZero 4 year.natAbs ++ '-' :: rest)).map _ = _
      rw [takeNumber?_padZero (by simp) hdash, Option.map_some]
      simp only [Option.some.injEq, Prod.mk.injEq, and_true]
      omega
    · case isFalse hpos =>
      show (takeNumber? none (padZero 4 year.natAbs ++ '-' :: rest)).map _ = _
      rw [takeNumber?_padZero (by simp) hdash, Option.map_some]
      simp only [Option.some.injEq, Prod.mk.injEq, and_true]
      omega

theorem takeField?_padZero {mark : Char} (hmark : isBlank mark = false) {n : Nat} (hn : n < 100)
    {rest : List Char} (hrest : ∀ c ∈ rest.head?, c.isDigit = false) :
    takeField? mark (mark :: (padZero 2 n ++ rest)) = some (n, rest) := by
  have hlen := @length_padZero_of_lt 2 n (by decide) hn
  have htrim : trimStart (mark :: (padZero 2 n ++ rest)) = mark :: (padZero 2 n ++ rest) :=
    List.dropWhile_cons_of_neg (by simp [hmark])
  unfold takeField?
  rw [htrim]
  show (if mark = mark then takeNumber? (some 2) (trimStart (padZero 2 n ++ rest)) else none) = _
  rw [if_pos rfl, trimStart_padZero, takeNumber?_padZero (by simp [hlen]) hrest]

/-- A date is read up to where its digits end. -/
theorem takeIso?_append (d : Date) {rest : List Char}
    (hrest : ∀ c ∈ rest.head?, c.isDigit = false) :
    takeIso? (d.isoText ++ rest) = some (d, rest) := by
  have hmonth := d.month_le
  have hday := d.day_le
  have htext : d.isoText ++ rest =
      yearText d.year ++ '-' :: (padZero 2 d.month ++ '-' :: (padZero 2 d.day ++ rest)) := by
    simp [isoText]
  have hmonthRead : ∀ more, takeField? '-' ('-' :: (padZero 2 d.month ++ '-' :: more)) =
      some (d.month, '-' :: more) :=
    fun more => takeField?_padZero (by decide) (by omega) (by simp)
  have hdayRead : takeField? '-' ('-' :: (padZero 2 d.day ++ rest)) = some (d.day, rest) :=
    takeField?_padZero (by decide) (by omega) hrest
  unfold takeIso?
  rw [htext, takeYear?_yearText]
  simp only [Option.bind_eq_bind, Option.bind_some, hmonthRead, hdayRead, of?_self]
  rfl

theorem ofIsoText?_isoText (d : Date) : ofIsoText? d.isoText = some d := by
  have hread := @takeIso?_append d [] (by simp)
  rw [List.append_nil] at hread
  unfold ofIsoText?
  rw [hread]
  rfl

end Date

end PressCalendar
