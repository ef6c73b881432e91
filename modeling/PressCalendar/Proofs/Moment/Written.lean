/-
Moments, read back.

`ofText?_stored` says that a moment is read from what is stored of it, to the nanosecond.  The
reader fills a part of a second up to nine digits, so it does not matter by how many threes of
digits that was written.
-/
import PressCalendar.Moment
import PressCalendar.Proofs.Date.Written

namespace PressCalendar
namespace Moment

open Text

variable {rest : List Char} {n : Nat}

/-! ## Parts of a second -/

theorem number?_padZero_zeros (width n k : Nat) :
    number? (padZero width n ++ List.replicate k '0') = some (n * Nat.pow 10 k) := by
  have hzeros : (List.replicate k '0').all Char.isDigit = true := by
    rw [List.all_eq_true]
    intro c hc
    rw [(List.mem_replicate.1 hc).2]
    decide
  have hne : (padZero width n ++ List.replicate k '0').isEmpty = false := by
    obtain ⟨c, cs, heq, -⟩ := Date.padZero_eq_cons width n
    rw [heq]
    rfl
  rw [number?, hne, List.all_append, all_isDigit_padZero, hzeros, Nat.ofDigitChars_append,
    ofDigitChars_padZero, Nat.ofDigitChars_replicate_zero, Nat.mul_comm]
  rfl

/-- Digits behind a full stop are read as the first of nine. -/
theorem takeFraction?_padZero {width : Nat} (hpos : 0 < width) (hwidth : width ≤ 9)
    (hn : n < Nat.pow 10 width) (hrest : ∀ c ∈ rest.head?, c.isDigit = false) :
    takeFraction? ('.' :: (padZero width n ++ rest)) = some (n * Nat.pow 10 (9 - width), rest) := by
  have hdigits := Date.takeWhile_padZero_append width n hrest
  have hlength := Date.length_padZero_of_lt hpos hn
  have hrestRead : (padZero width n ++ rest).dropWhile Char.isDigit = rest := by
    have hboth := @List.takeWhile_append_dropWhile _ Char.isDigit (padZero width n ++ rest)
    rw [hdigits] at hboth
    exact List.append_cancel_left hboth
  have hnine : (padZero width n ++ List.replicate 9 '0').take 9 =
      padZero width n ++ List.replicate (9 - width) '0' := by
    rw [List.take_append, hlength, List.take_of_length_le (by omega), List.take_replicate,
      Nat.min_eq_left (Nat.sub_le 9 width)]
  have hne : (padZero width n).isEmpty = false := by
    obtain ⟨c, cs, heq, -⟩ := Date.padZero_eq_cons width n
    rw [heq]
    rfl
  simp only [takeFraction?, hdigits, hnine, number?_padZero_zeros, Option.bind_some, hne,
    Bool.false_eq_true, if_false, hrestRead]

theorem takeFraction?_fractionText (hn : n < 1000000000)
    (hrest : ∀ c ∈ rest.head?, c.isDigit = false ∧ c ≠ '.') :
    takeFraction? (fractionText n ++ rest) = some (n, rest) := by
  have hstop : ∀ c ∈ rest.head?, c.isDigit = false := fun c hc => (hrest c hc).1
  unfold fractionText
  split
  · case isTrue hzero =>
    subst hzero
    cases rest with
    | nil => rfl
    | cons c rest =>
      have hdot := (hrest c rfl).2
      rw [List.nil_append]
      unfold takeFraction?
      split
      · case h_1 heq => exact absurd (List.cons.inj heq).1 hdot
      · rfl
  · split
    · case isTrue hthousands =>
      have hlt : n / 1000000 < Nat.pow 10 3 := by
        show n / 1000000 < 1000
        omega
      rw [List.cons_append, takeFraction?_padZero (by decide) (by decide) hlt hstop,
        Nat.div_mul_cancel (Nat.dvd_of_mod_eq_zero hthousands)]
    · split
      · case isTrue hthousands =>
        have hlt : n / 1000 < Nat.pow 10 6 := by
          show n / 1000 < 1000000
          omega
        rw [List.cons_append, takeFraction?_padZero (by decide) (by decide) hlt hstop,
          Nat.div_mul_cancel (Nat.dvd_of_mod_eq_zero hthousands)]
      · rw [List.cons_append, takeFraction?_padZero (by decide) (by decide) hn hstop, Nat.mul_one]

/-! ## The whole moment -/

theorem of?_self (m : Moment) : of? m.date m.minute m.second m.nano = some m :=
  dif_pos ⟨m.minute.isLt, m.second.isLt, m.nano.isLt⟩

theorem setBack?_zero (date : Date) {minute : Nat} (h : minute < 1440) :
    setBack? date minute 0 = some (date, minute) := by
  have hturned : (minute : Int) - 0 = minute := Int.sub_zero _
  unfold setBack?
  simp only [hturned, Int.toNat_natCast]
  rw [if_neg (by omega), if_pos (by omega)]

theorem head?_fractionText_append (n : Nat) :
    ∀ c ∈ (fractionText n ++ ['Z']).head?, c.isDigit = false := by
  have hmark : ∀ {c}, c = 'Z' ∨ c = '.' → c.isDigit = false := by
    rintro c (rfl | rfl) <;> decide
  intro c hc
  apply hmark
  unfold fractionText at hc
  split at hc
  · cases hc
    exact .inl rfl
  · refine .inr ?_
    split at hc
    · cases hc
      rfl
    · split at hc <;> (cases hc; rfl)

/-- A moment is read from what is stored of it. -/
theorem ofText?_stored (m : Moment) : ofText? m.stored = some m := by
  have hminute := m.minute.isLt
  have hsecond := m.second.isLt
  have htext : m.stored.toList = m.date.isoText ++ 'T' :: (padZero 2 (m.minute / 60) ++
      ':' :: (padZero 2 (m.minute % 60) ++ ':' :: (padZero 2 m.second ++
        (fractionText m.nano ++ ['Z'])))) := by
    simp [stored, text, String.toList_ofList]
  have hdate : ∀ more, Date.takeIso? (m.date.isoText ++ 'T' :: more) =
      some (m.date, 'T' :: more) := fun more => Date.takeIso?_append m.date (by simp)
  have hhour : ∀ more, Date.takeNumber? (some 2)
      (trimStart (padZero 2 (m.minute.val / 60) ++ ':' :: more)) =
        some (m.minute.val / 60, ':' :: more) := by
    intro more
    have hlength := @Date.length_padZero_of_lt 2 (m.minute.val / 60) (by decide)
      (show m.minute.val / 60 < 100 by omega)
    rw [Date.trimStart_padZero]
    exact Date.takeNumber?_padZero (by simp [hlength]) (by simp)
  have hfield : ∀ more, Date.takeField? ':'
      (':' :: (padZero 2 (m.minute.val % 60) ++ ':' :: more)) =
        some (m.minute.val % 60, ':' :: more) :=
    fun more => Date.takeField?_padZero (by decide) (by omega) (by simp)
  have hseconds : Date.takeField? ':' (':' :: (padZero 2 m.second.val ++
      (fractionText m.nano ++ ['Z']))) = some (m.second.val, fractionText m.nano ++ ['Z']) :=
    Date.takeField?_padZero (by decide) (by omega) (head?_fractionText_append m.nano)
  have hfraction : takeFraction? (fractionText m.nano ++ ['Z']) = some (m.nano.val, ['Z']) :=
    takeFraction?_fractionText m.nano.isLt (by simp)
  have hzone : takeZone? (trimStart ['Z']) = some (0, []) := rfl
  have hsum : m.minute.val / 60 * 60 + m.minute.val % 60 = m.minute.val := by omega
  have hcheck : (decide (24 ≤ m.minute.val / 60) || decide (60 ≤ m.minute.val % 60) ||
      !(trimStart []).isEmpty) = false := by
    rw [decide_eq_false (by omega), decide_eq_false (by omega)]
    rfl
  unfold ofText?
  simp only [htext, hdate, skipMark?, hhour, hfield, hseconds, hfraction, hzone, hcheck, hsum,
    Option.bind_eq_bind, Option.bind_some, Bool.false_eq_true, if_false,
    setBack?_zero m.date hminute, of?_self]

end Moment
end PressCalendar
