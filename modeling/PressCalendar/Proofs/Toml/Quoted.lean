/-
Quoted texts, read back.

`take?_write` says that whatever a text holds, what is written for it is read as that text, as
long as no quote follows.  A reader takes the character it was written for from every escape.
Between three quotes it stops where three or more stand in a row, of which the last three are the
end: so few stand in a row within a text that the first such place is the end of it.
-/
import PressCalendar.Toml.Quoted

namespace PressCalendar
namespace Toml
namespace Quoted

open Text

/-! ## Quotes in a row -/

/-- How many of a mark a text begins with. -/
def leading (mark : Char) (cs : List Char) : Nat := (cs.takeWhile (· = mark)).length

variable {mark c : Char} {cs rest : List Char} {lines : Bool} {here k : Nat}

theorem leading_cons_self (mark : Char) (cs : List Char) :
    leading mark (mark :: cs) = leading mark cs + 1 := by
  rw [leading, List.takeWhile_cons_of_pos (by simp), List.length_cons, leading]

theorem leading_cons_of_ne (h : c ≠ mark) (cs : List Char) : leading mark (c :: cs) = 0 := by
  rw [leading, List.takeWhile_cons_of_neg (by simpa using h), List.length_nil]

theorem leading_of_head?_ne (h : ∀ c ∈ cs.head?, c ≠ mark) : leading mark cs = 0 := by
  cases cs with
  | nil => rfl
  | cons c cs => exact leading_cons_of_ne (h c rfl) cs

theorem leading_replicate_append (h : ∀ c ∈ rest.head?, c ≠ mark) (k : Nat) :
    leading mark (List.replicate k mark ++ rest) = k := by
  induction k with
  | zero => exact leading_of_head?_ne h
  | succ k ih => rw [List.replicate_succ, List.cons_append, leading_cons_self, ih]

theorem ending?_of_leading_le (h : leading mark cs ≤ 2) : ending? mark cs = none :=
  if_pos (Nat.lt_succ_of_le h)

theorem ending?_replicate_append (h : ∀ c ∈ rest.head?, c ≠ mark) (hk : k ≤ 2) :
    ending? mark (List.replicate (k + 3) mark ++ rest) = some (List.replicate k mark, rest) := by
  have hcount : ((List.replicate (k + 3) mark ++ rest).takeWhile (· = mark)).length = k + 3 :=
    leading_replicate_append h (k + 3)
  have hmin : min (k + 3) 5 = k + 3 := Nat.min_eq_left (by omega)
  simp only [ending?, hcount, hmin, List.drop_left' List.length_replicate]
  exact if_neg (by omega)

/-- Of the quotes at the end of a text the last three do not belong to it. -/
theorem exists_quotes (h : ∀ c ∈ rest.head?, c ≠ mark) (hk : k ≤ 2) :
    ∃ more, List.replicate k mark ++ (List.replicate 3 mark ++ rest) = mark :: more ∧
      ending? mark (mark :: more) = some (List.replicate k mark, rest) := by
  refine ⟨List.replicate (k + 2) mark ++ rest, ?_, ending?_replicate_append h hk⟩
  rw [← List.append_assoc, List.replicate_append_replicate]
  rfl

/-! ## Escapes -/

theorem isBreak_of_ne (hbreak : c ≠ '\n') (hreturn : c ≠ '\r') (next : Option Char) :
    isBreak c next = false := by
  simp [isBreak, hbreak, hreturn]

theorem isPrintable_of_not_isControl (h : ¬isControl c = true) : isPrintable c = true := by
  simp only [isControl, Bool.or_eq_true, decide_eq_true_eq, not_or] at h
  simp only [isPrintable, Bool.or_eq_true, Bool.and_eq_true, decide_eq_true_eq]
  exact .inr ⟨by omega, h.2⟩

/-- A character that does not end the text leads the reader on. -/
theorem takeEscaped?_cons {mode mode' : Mode} {made : List Char}
    (hquote : (c = '\x22' && endsAt mode) = false)
    (hstep : step lines mode c cs.head? = some (made, mode')) :
    takeEscaped? lines mode (c :: cs) =
      (takeEscaped? lines mode' cs).map fun (text, rest) => (made ++ text, rest) := by
  rw [takeEscaped?, hquote, if_neg Bool.false_ne_true, hstep]

theorem takeEscaped?_silent {mode mode' : Mode} (hquote : (c = '\x22' && endsAt mode) = false)
    (hstep : step lines mode c cs.head? = some ([], mode')) :
    takeEscaped? lines mode (c :: cs) = takeEscaped? lines mode' cs := by
  rw [takeEscaped?_cons hquote hstep]
  cases takeEscaped? lines mode' cs <;> rfl

/-- What is made of a text after one more character. -/
abbrev prepend (c : Char) (answer : Option (List Char × List Char)) :
    Option (List Char × List Char) :=
  answer.map fun (text, rest) => (c :: text, rest)

theorem takeEscaped?_backslash (lines : Bool) (cs : List Char) :
    takeEscaped? lines .plain ('\\' :: cs) = takeEscaped? lines .escape cs :=
  takeEscaped?_silent rfl rfl

theorem takeEscaped?_letter {d : Char} (h : escaped? c = some d) :
    takeEscaped? lines .plain ('\\' :: c :: cs) = prepend d (takeEscaped? lines .plain cs) := by
  have hu : c ≠ 'u' := by
    rintro rfl
    cases h
  have hU : c ≠ 'U' := by
    rintro rfl
    cases h
  have hstep : step lines .escape c cs.head? = some ([d], .plain) := by
    simp only [step, if_neg hu, if_neg hU, h]
  rw [takeEscaped?_backslash, takeEscaped?_cons (Bool.and_false _) hstep]
  rfl

theorem takeEscaped?_plain (hquote : c ≠ '\x22')
    (hstep : step lines .plain c cs.head? = some ([c], .plain)) :
    takeEscaped? lines .plain (c :: cs) = prepend c (takeEscaped? lines .plain cs) := by
  have hnot : (c = '\x22' && endsAt .plain) = false := by simp [hquote]
  rw [takeEscaped?_cons hnot hstep]
  rfl

theorem takeEscaped?_digit {left value digit : Nat} (h : hexValue? c = some digit)
    (hleft : 2 ≤ left) : takeEscaped? lines (.code left value) (c :: cs) =
      takeEscaped? lines (.code (left - 1) (16 * value + digit)) cs := by
  have hstep : step lines (.code left value) c cs.head? =
      some ([], .code (left - 1) (16 * value + digit)) := by
    simp only [step, h, Option.bind_eq_bind, Option.bind_some, if_neg (by omega : ¬left ≤ 1)]
  exact takeEscaped?_silent (Bool.and_false _) hstep

theorem takeEscaped?_lastDigit {value digit : Nat} {d : Char} (h : hexValue? c = some digit)
    (hd : scalar? (16 * value + digit) = some d) : takeEscaped? lines (.code 1 value) (c :: cs) =
      prepend d (takeEscaped? lines .plain cs) := by
  have hstep : step lines (.code 1 value) c cs.head? = some ([d], .plain) := by
    simp only [step, h, Option.bind_eq_bind, Option.bind_some, if_pos (Nat.le_refl 1), hd,
      Option.map_some]
  rw [takeEscaped?_cons (Bool.and_false _) hstep]
  rfl

theorem scalar?_toNat (c : Char) : scalar? c.toNat = some c := by
  have hback := Char.ofNat_toNat c
  have hvalid : c.toNat.isValidChar := c.valid
  rw [Char.ofNat, dif_pos hvalid] at hback
  rw [scalar?, dif_pos hvalid, hback]

/-- The four digits by which a control character is written. -/
theorem digits_of_control : ∀ n < 128,
    (List.replicate (4 - (hexDigits n).length) '0' ++ hexDigits n).map hexValue? =
      [some 0, some 0, some (n / 16), some (n % 16)] := by
  decide

theorem takeEscaped?_control (hc : isControl c = true) :
    takeEscaped? lines .plain ("\\u".toList ++
        List.replicate (4 - (hexDigits c.toNat).length) '0' ++ hexDigits c.toNat ++ cs) =
      prepend c (takeEscaped? lines .plain cs) := by
  have hlt : c.toNat < 128 := by
    simp only [isControl, Bool.or_eq_true, decide_eq_true_eq] at hc
    omega
  obtain ⟨w, ws, hdigits, hw, hws⟩ := List.map_eq_cons_iff.1 (digits_of_control c.toNat hlt)
  obtain ⟨x, xs, rfl, hx, hxs⟩ := List.map_eq_cons_iff.1 hws
  obtain ⟨y, ys, rfl, hy, hys⟩ := List.map_eq_cons_iff.1 hxs
  obtain ⟨z, zs, rfl, hz, hzs⟩ := List.map_eq_cons_iff.1 hys
  obtain rfl := List.map_eq_nil_iff.1 hzs
  have hvalue : scalar? (16 * (16 * (16 * (16 * 0 + 0) + 0) + c.toNat / 16) + c.toNat % 16) =
      some c := by
    rw [show 16 * (16 * (16 * (16 * 0 + 0) + 0) + c.toNat / 16) + c.toNat % 16 = c.toNat by omega,
      scalar?_toNat]
  have hbegin : takeEscaped? lines .escape ('u' :: w :: x :: y :: z :: cs) =
      takeEscaped? lines (.code 4 0) (w :: x :: y :: z :: cs) := takeEscaped?_silent rfl rfl
  rw [List.append_assoc _ (List.replicate _ _), hdigits]
  show takeEscaped? lines .plain ('\\' :: 'u' :: w :: x :: y :: z :: cs) = _
  rw [takeEscaped?_backslash, hbegin, takeEscaped?_digit hw (by decide),
    takeEscaped?_digit hx (by decide), takeEscaped?_digit hy (by decide)]
  exact takeEscaped?_lastDigit hz hvalue

/-- Every character but a quote is read from what is written for it. -/
theorem takeEscaped?_escapeChar (hquote : c ≠ '\x22') :
    takeEscaped? lines .plain (escapeChar lines c ++ cs) =
      prepend c (takeEscaped? lines .plain cs) := by
  unfold escapeChar
  split
  · exact takeEscaped?_letter rfl
  · exact takeEscaped?_letter rfl
  · cases lines with
    | true => exact takeEscaped?_plain (by decide) rfl
    | false => exact takeEscaped?_letter rfl
  · exact takeEscaped?_letter rfl
  · exact takeEscaped?_letter rfl
  · exact takeEscaped?_letter rfl
  · case h_7 _ _ hbreak _ hreturn hbackslash =>
    split
    · case isTrue hcontrol => exact takeEscaped?_control hcontrol
    · case isFalse hcontrol =>
      have hstep : step lines .plain c cs.head? = some ([c], .plain) := by
        simp only [step, if_neg hbackslash, isBreak_of_ne hbreak hreturn, Bool.and_false,
          Bool.false_eq_true, if_false, isPrintable_of_not_isControl hcontrol, if_true]
      exact takeEscaped?_plain hquote hstep

/-- What is written for a character begins with something that is neither a quote nor, unless
it stands for one, a line break. -/
theorem exists_escapeChar_eq_cons (hquote : c ≠ '\x22') (lines : Bool) :
    ∃ d ds, escapeChar lines c = d :: ds ∧ d ≠ '\x22' ∧ d ≠ '\r' ∧ (c ≠ '\n' → d ≠ '\n') := by
  unfold escapeChar
  split
  case h_3 =>
    cases lines with
    | true => exact ⟨'\n', [], rfl, by decide, by decide, fun h => absurd rfl h⟩
    | false => exact ⟨'\\', _, rfl, by decide, by decide, fun _ => by decide⟩
  case h_7 _ _ hbreak _ hreturn hbackslash =>
    split
    · exact ⟨'\\', _, rfl, by decide, by decide, fun _ => by decide⟩
    · exact ⟨c, [], rfl, hquote, hreturn, fun _ => hbreak⟩
  all_goals exact ⟨'\\', _, rfl, by decide, by decide, fun _ => by decide⟩

/-! ## Texts between double quotes -/

/-- In what is written for a text behind some quotes, no more than two quotes stand in a row,
unless the text consists of quotes and they stand at its end. -/
theorem leading_escapeFrom (cs : List Char) {here : Nat} (hhere : here ≤ 2) :
    (∃ k, here + k ≤ 2 ∧ cs = List.replicate k '\x22' ∧
      escapeFrom true here cs = List.replicate k '\x22') ∨
    ∀ more, here + leading '\x22' (escapeFrom true here cs ++ more) ≤ 2 := by
  induction cs generalizing here with
  | nil => exact .inl ⟨0, hhere, rfl, rfl⟩
  | cons c cs ih =>
    by_cases hquote : c = '\x22'
    · subst hquote
      by_cases hfull : here < 2
      · have hstep : escapeFrom true here ('\x22' :: cs) =
            '\x22' :: escapeFrom true (here + 1) cs := by
          simp only [escapeFrom, if_true, Bool.true_and, decide_eq_true hfull]
        rw [hstep]
        rcases @ih (here + 1) hfull with ⟨k, hk, rfl, hall⟩ | hfew
        · exact .inl ⟨k + 1, by omega, rfl, by rw [hall, List.replicate_succ]⟩
        · refine .inr fun more => ?_
          have hmore := hfew more
          rw [List.cons_append, leading_cons_self]
          omega
      · have hstep : escapeFrom true here ('\x22' :: cs) =
            '\\' :: '\x22' :: escapeFrom true 0 cs := by
          simp only [escapeFrom, if_true, Bool.true_and, decide_eq_false hfull,
            Bool.false_eq_true, if_false]
        refine .inr fun more => ?_
        rw [hstep, List.cons_append, leading_cons_of_ne (by decide)]
        exact hhere
    · obtain ⟨d, ds, heq, hd, -⟩ := exists_escapeChar_eq_cons hquote true
      refine .inr fun more => ?_
      rw [escapeFrom, if_neg hquote, heq, List.cons_append, List.cons_append,
        leading_cons_of_ne hd]
      exact hhere

theorem takeEscaped?_quotes (h : ∀ c ∈ rest.head?, c ≠ '\x22') (hk : k ≤ 2) :
    takeEscaped? true .plain (List.replicate k '\x22' ++ (List.replicate 3 '\x22' ++ rest)) =
      some (List.replicate k '\x22', rest) := by
  obtain ⟨more, heq, hend⟩ := exists_quotes h hk
  rw [heq, takeEscaped?]
  simp only [hend]
  rfl

theorem takeEscaped?_quote (h : leading '\x22' ('\x22' :: cs) ≤ 2) :
    takeEscaped? true .plain ('\x22' :: cs) = prepend '\x22' (takeEscaped? true .plain cs) := by
  have hend := ending?_of_leading_le h
  rw [takeEscaped?]
  simp only [hend]
  rfl

/-- A text is read from what is written for it behind any quotes. -/
theorem takeEscaped?_escapeFrom (lines : Bool) (hrest : ∀ c ∈ rest.head?, c ≠ '\x22')
    (cs : List Char) {here : Nat} (hhere : here ≤ 2) :
    takeEscaped? lines .plain (escapeFrom lines here cs ++ ((Style.escaped lines).quotes ++ rest)) =
      some (cs, rest) := by
  induction cs generalizing here with
  | nil =>
    cases lines with
    | true => exact takeEscaped?_quotes hrest (Nat.zero_le 2)
    | false => rfl
  | cons c cs ih =>
    by_cases hquote : c = '\x22'
    · subst hquote
      by_cases hraw : (lines && decide (here < 2)) = true
      · obtain ⟨rfl, hlt⟩ := Bool.and_eq_true_iff.1 hraw
        have hlt := of_decide_eq_true hlt
        rcases leading_escapeFrom ('\x22' :: cs) hhere with ⟨k, hk, htext, hwritten⟩ | hfew
        · rw [hwritten, htext]
          exact takeEscaped?_quotes hrest (by omega)
        · have hfew := hfew ((Style.escaped true).quotes ++ rest)
          have hstep : escapeFrom true here ('\x22' :: cs) =
              '\x22' :: escapeFrom true (here + 1) cs := by
            simp only [escapeFrom, if_true, hraw]
          rw [hstep, List.cons_append] at hfew ⊢
          rw [takeEscaped?_quote (by omega), ih (by omega)]
          rfl
      · have hstep : escapeFrom lines here ('\x22' :: cs) =
            '\\' :: '\x22' :: escapeFrom lines 0 cs := by
          simp only [escapeFrom, if_true, hraw]
          rfl
        rw [hstep, List.cons_append, List.cons_append, takeEscaped?_letter rfl,
          ih (Nat.zero_le 2)]
        rfl
    · rw [escapeFrom, if_neg hquote, List.append_assoc, takeEscaped?_escapeChar hquote,
        ih (Nat.zero_le 2)]
      rfl

/-! ## Texts between single quotes -/

theorem le_longestRunFrom (mark : Char) (cs : List Char) (here : Nat) :
    here ≤ longestRunFrom mark here cs := by
  induction cs generalizing here with
  | nil => exact Nat.le_refl here
  | cons c cs ih =>
    rw [longestRunFrom]
    split
    · exact Nat.le_trans (Nat.le_succ here) (ih (here + 1))
    · exact Nat.le_max_left _ _

theorem longestRunFrom_cons_self (mark : Char) (here : Nat) (cs : List Char) :
    longestRunFrom mark here (mark :: cs) = longestRunFrom mark (here + 1) cs := if_pos rfl

theorem longestRunFrom_cons_of_ne (h : c ≠ mark) (here : Nat) (cs : List Char) :
    longestRunFrom mark here (c :: cs) = max here (longestRunFrom mark 0 cs) := if_neg h

theorem notMem_of_longestRunFrom (h : longestRunFrom mark here cs = 0) : mark ∉ cs := by
  induction cs generalizing here with
  | nil => exact List.not_mem_nil
  | cons c cs ih =>
    by_cases hc : c = mark
    · subst hc
      have hle := le_longestRunFrom c cs (here + 1)
      rw [longestRunFrom_cons_self] at h
      omega
    · rw [longestRunFrom_cons_of_ne hc] at h
      rw [List.mem_cons, not_or]
      exact ⟨Ne.symm hc, @ih 0 (by omega)⟩

/-- A text with short runs of a mark begins with few of them, unless it consists of them. -/
theorem leading_of_longestRunFrom (h : longestRunFrom mark here cs ≤ 2) :
    (∃ k, here + k ≤ 2 ∧ cs = List.replicate k mark) ∨
      ∀ more, here + leading mark (cs ++ more) ≤ 2 := by
  have hhere := Nat.le_trans (le_longestRunFrom mark cs here) h
  induction cs generalizing here with
  | nil => exact .inl ⟨0, hhere, rfl⟩
  | cons c cs ih =>
    by_cases hc : c = mark
    · subst hc
      rw [longestRunFrom_cons_self] at h
      have hle := Nat.le_trans (le_longestRunFrom c cs (here + 1)) h
      rcases ih h hle with ⟨k, hk, rfl⟩ | hfew
      · exact .inl ⟨k + 1, by omega, rfl⟩
      · refine .inr fun more => ?_
        have hmore := hfew more
        rw [List.cons_append, leading_cons_self]
        omega
    · refine .inr fun more => ?_
      rw [List.cons_append, leading_cons_of_ne hc]
      exact hhere

theorem takeLiteral?_quotes (h : ∀ c ∈ rest.head?, c ≠ '\x27') (hk : k ≤ 2) :
    takeLiteral? true (List.replicate k '\x27' ++ (List.replicate 3 '\x27' ++ rest)) =
      some (List.replicate k '\x27', rest) := by
  obtain ⟨more, heq, hend⟩ := exists_quotes h hk
  rw [heq, takeLiteral?, if_pos rfl]
  simp only [hend]
  rfl

theorem takeLiteral?_quote (h : leading '\x27' ('\x27' :: cs) ≤ 2) :
    takeLiteral? true ('\x27' :: cs) = prepend '\x27' (takeLiteral? true cs) := by
  have hend := ending?_of_leading_le h
  rw [takeLiteral?, if_pos rfl]
  simp only [hend]
  rfl

/-- The characters that may stand between single quotes as they are. -/
def IsLiteral (lines : Bool) (c : Char) : Prop :=
  isControl c = false ∨ c = '\t' ∨ (lines = true ∧ c = '\n')

theorem takeLiteral?_cons (hc : IsLiteral lines c) (hquote : c ≠ '\x27') :
    takeLiteral? lines (c :: cs) = prepend c (takeLiteral? lines cs) := by
  have hreturn : c ≠ '\r' := by
    rintro rfl
    rcases hc with hc | hc | ⟨-, hc⟩ <;> exact absurd hc (by decide)
  rw [takeLiteral?, if_neg hquote]
  by_cases hbreak : c = '\n'
  · subst hbreak
    rcases hc with hc | hc | ⟨rfl, -⟩
    · exact absurd hc (by decide)
    · exact absurd hc (by decide)
    · rfl
  · have hprintable : isPrintable c = true := by
      rcases hc with hc | rfl | ⟨-, hc⟩
      · exact isPrintable_of_not_isControl (Bool.eq_false_iff.1 hc)
      · decide
      · exact absurd hc hbreak
    rw [isBreak_of_ne hbreak hreturn, Bool.and_false, if_neg Bool.false_ne_true,
      if_pos hprintable]

theorem takeLiteral?_append (hplain : ∀ c ∈ cs, IsLiteral lines c)
    (hrun : longestRunFrom '\x27' here cs ≤ if lines then 2 else 0)
    (hrest : ∀ c ∈ rest.head?, c ≠ '\x27') :
    takeLiteral? lines (cs ++ ((Style.literal lines).quotes ++ rest)) = some (cs, rest) := by
  induction cs generalizing here with
  | nil =>
    cases lines with
    | true => exact takeLiteral?_quotes hrest (Nat.zero_le 2)
    | false => rfl
  | cons c cs ih =>
    obtain ⟨hc, hcs⟩ := List.forall_mem_cons.1 hplain
    by_cases hquote : c = '\x27'
    · subst hquote
      cases lines with
      | false => exact absurd List.mem_cons_self (notMem_of_longestRunFrom (Nat.le_zero.1 hrun))
      | true =>
        rcases leading_of_longestRunFrom hrun with ⟨k, hk, htext⟩ | hfew
        · rw [htext]
          exact takeLiteral?_quotes hrest (by omega)
        · have hfew := hfew ((Style.literal true).quotes ++ rest)
          rw [longestRunFrom_cons_self] at hrun
          rw [List.cons_append] at hfew ⊢
          rw [takeLiteral?_quote (by omega), ih hcs hrun]
          rfl
    · rw [longestRunFrom_cons_of_ne hquote] at hrun
      rw [List.cons_append, takeLiteral?_cons hc hquote,
        ih hcs (Nat.le_trans (Nat.le_max_right _ _) hrun)]
      rfl

/-! ## Any text -/

/-- A text can be shown between the quotes of a style. -/
def Style.Fits : Style → List Char → Prop
  | .escaped lines, cs => lines = false → '\n' ∉ cs
  | .literal lines, cs => (∀ c ∈ cs, IsLiteral lines c) ∧
      longestRun '\x27' cs ≤ if lines then 2 else 0

/-- The writer takes a style only if it shows the text. -/
theorem fits_styleOf (cs : List Char) : (styleOf cs).Fits cs := by
  have hlines : ∀ {lines}, cs.contains '\n' = lines → lines = false → '\n' ∉ cs := by
    rintro lines rfl hnone
    simpa using hnone
  have hliteral : ∀ {c}, (!isControl c || decide (c = '\t') || decide (c = '\n')) = true →
      isControl c = false ∨ c = '\t' ∨ c = '\n' := by
    intro c h
    simpa [or_assoc] using h
  unfold styleOf
  simp only
  split
  · case isTrue h =>
    simp only [Bool.and_eq_true, Bool.not_eq_true'] at h
    exact hlines h.1.2
  · split
    · case isTrue h =>
      simp only [Bool.and_eq_true, Bool.not_eq_true', decide_eq_true_eq, List.all_eq_true] at h
      obtain ⟨⟨hplain, hnone⟩, hrun⟩ := h
      refine ⟨fun c hc => ?_, Nat.le_of_eq hrun⟩
      rcases hliteral (hplain c hc) with hcontrol | htab | rfl
      · exact .inl hcontrol
      · exact .inr (.inl htab)
      · exact absurd hc (hlines hnone rfl)
    · split
      · intro h
        cases h
      · split
        · case isTrue h =>
          simp only [Bool.and_eq_true, decide_eq_true_eq, List.all_eq_true] at h
          obtain ⟨hplain, hrun⟩ := h
          refine ⟨fun c hc => ?_, hrun⟩
          rcases hliteral (hplain c hc) with hcontrol | htab | hbreak
          · exact .inl hcontrol
          · exact .inr (.inl htab)
          · exact .inr (.inr ⟨rfl, hbreak⟩)
        · exact hlines rfl

namespace Style

def quote : Style → Char
  | .escaped _ => '\x22'
  | .literal _ => '\x27'

def isLong : Style → Bool
  | .escaped lines => lines
  | .literal lines => lines

/-- The reader of what stands behind the first quotes. -/
def take? : Style → List Char → Option (List Char × List Char)
  | .escaped lines => takeEscaped? lines .plain
  | .literal lines => takeLiteral? lines

variable {style : Style}

theorem Fits.notMem (h : style.Fits cs) (hshort : style.isLong = false) : '\n' ∉ cs := by
  cases style with
  | escaped lines => exact h hshort
  | literal lines =>
    intro hmem
    rcases h.1 _ hmem with hcontrol | htab | ⟨hlong, -⟩
    · exact absurd hcontrol (by decide)
    · exact absurd htab (by decide)
    · exact Bool.noConfusion (hlong.symm.trans hshort)

/-- A text is read from what is written for it in a style that it fits. -/
theorem Fits.take?_body (h : style.Fits cs)
    (hrest : ∀ c ∈ rest.head?, c ≠ '\x22' ∧ c ≠ '\x27') :
    style.take? (style.body cs ++ (style.quotes ++ rest)) = some (cs, rest) := by
  cases style with
  | escaped lines =>
    exact takeEscaped?_escapeFrom lines (fun c hc => (hrest c hc).1) cs (Nat.zero_le 2)
  | literal lines => exact takeLiteral?_append h.1 h.2 fun c hc => (hrest c hc).2

/-- A text of one line does not begin with a line break when it is written, nor with the quote
where one of these ends it. -/
theorem Fits.exists_body_eq_cons (h : style.Fits (c :: cs)) (hline : '\n' ∉ c :: cs) :
    ∃ d ds, style.body (c :: cs) = d :: ds ∧ d ≠ '\n' ∧ d ≠ '\r' ∧
      (style.isLong = false → d ≠ style.quote) := by
  obtain ⟨hc, -⟩ := not_or.1 (mt List.mem_cons.2 hline)
  cases style with
  | escaped lines =>
    by_cases hquote : c = '\x22'
    · subst hquote
      cases lines with
      | true => exact ⟨'\x22', _, rfl, by decide, by decide, nofun⟩
      | false => exact ⟨'\\', _, rfl, by decide, by decide, fun _ => by decide⟩
    · obtain ⟨d, ds, heq, hd, hreturn, hbreak⟩ := exists_escapeChar_eq_cons hquote lines
      refine ⟨d, ds ++ escapeFrom lines 0 cs, ?_, hbreak (Ne.symm hc), hreturn, fun _ => hd⟩
      rw [body, escapeFrom, if_neg hquote, heq, List.cons_append]
  | literal lines =>
    refine ⟨c, cs, rfl, Ne.symm hc, ?_, ?_⟩
    · rintro rfl
      rcases h.1 _ List.mem_cons_self with hcontrol | htab | ⟨-, hbreak⟩
      · exact absurd hcontrol (by decide)
      · exact absurd htab (by decide)
      · exact absurd hbreak (by decide)
    · rintro hshort rfl
      have hrun := h.2
      rw [show lines = false from hshort] at hrun
      exact notMem_of_longestRunFrom (Nat.le_zero.1 hrun) List.mem_cons_self

theorem Fits.head?_body (h : style.Fits cs) (hline : '\n' ∉ cs) :
    ∀ d ∈ (style.body cs ++ (style.quotes ++ rest)).head?, d ≠ '\n' ∧ d ≠ '\r' := by
  cases cs with
  | nil =>
    cases style with
    | escaped lines | literal lines =>
      cases lines <;> (intro d hd; cases hd; decide)
  | cons c cs =>
    obtain ⟨d, ds, heq, hbreak, hreturn, -⟩ := h.exists_body_eq_cons hline
    rw [heq]
    intro x hx
    cases hx
    exact ⟨hbreak, hreturn⟩

theorem Fits.body_ne (h : style.Fits cs) (hshort : style.isLong = false)
    (hrest : ∀ c ∈ rest.head?, c ≠ '\x22' ∧ c ≠ '\x27') (more : List Char) :
    style.body cs ++ (style.quotes ++ rest) ≠ style.quote :: style.quote :: more := by
  intro heq
  cases cs with
  | nil =>
    cases style with
    | escaped lines =>
      obtain rfl : lines = false := hshort
      obtain rfl : rest = '\x22' :: more := (List.cons.inj heq).2
      exact (hrest _ rfl).1 rfl
    | literal lines =>
      obtain rfl : lines = false := hshort
      obtain rfl : rest = '\x27' :: more := (List.cons.inj heq).2
      exact (hrest _ rfl).2 rfl
  | cons c cs =>
    obtain ⟨d, ds, hbody, -, -, hquote⟩ := h.exists_body_eq_cons (h.notMem hshort)
    rw [hbody] at heq
    exact hquote hshort (List.cons.inj heq).1

end Style

theorem skipBreak_of_head?_ne (h : ∀ c ∈ cs.head?, c ≠ '\n' ∧ c ≠ '\r') : skipBreak cs = cs := by
  cases cs with
  | nil => rfl
  | cons c cs =>
    obtain ⟨hbreak, hreturn⟩ := h c rfl
    unfold skipBreak
    split
    · case h_1 heq => exact absurd (List.cons.inj heq).1 hbreak
    · case h_2 heq => exact absurd (List.cons.inj heq).1 hreturn
    · rfl

theorem take?_of_isLong {style : Style} (h : style.isLong = true) (cs : List Char) :
    take? (style.quotes ++ cs) =
      (style.take? (skipBreak cs)).map fun (cs, rest) => (String.ofList cs, rest) := by
  cases style with
  | escaped lines | literal lines =>
    cases lines with
    | true => rfl
    | false => cases h

theorem take?_of_not_isLong {style : Style} (h : style.isLong = false)
    (hnot : ∀ more, cs ≠ style.quote :: style.quote :: more) :
    take? (style.quotes ++ cs) =
      (style.take? cs).map fun (cs, rest) => (String.ofList cs, rest) := by
  cases style with
  | escaped lines =>
    obtain rfl : lines = false := h
    unfold take?
    split
    · case h_1 heq => exact absurd (List.cons.inj heq).2 (hnot _)
    · case h_2 heq => cases heq
    · rfl
  | literal lines =>
    obtain rfl : lines = false := h
    unfold take?
    split
    · case h_1 heq => cases heq
    · case h_2 heq => exact absurd (List.cons.inj heq).2 (hnot _)
    · rfl

/-- Whatever a text holds, it is read from what is written for it. -/
theorem take?_write (s : String) (hrest : ∀ c ∈ rest.head?, c ≠ '\x22' ∧ c ≠ '\x27') :
    take? (write s ++ rest) = some (s, rest) := by
  have hfits := fits_styleOf s.toList
  have hbody := hfits.take?_body hrest
  have hread : ∀ {answer}, answer = some (s.toList, rest) →
      (answer.map fun (cs, rest) => (String.ofList cs, rest)) = some (s, rest) := by
    rintro answer rfl
    show some (String.ofList s.toList, rest) = _
    rw [String.ofList_toList]
  have hwrite : write s ++ rest = (styleOf s.toList).quotes ++
      ((if s.toList.contains '\n' then ['\n'] else []) ++
        ((styleOf s.toList).body s.toList ++ ((styleOf s.toList).quotes ++ rest))) := by
    simp only [write, List.append_assoc]
  rw [hwrite]
  generalize styleOf s.toList = style at hfits hbody ⊢
  cases hlong : style.isLong with
  | true =>
    rw [take?_of_isLong hlong]
    split
    · exact hread hbody
    · case isFalse hline =>
      have hline : '\n' ∉ s.toList := by simpa using hline
      rw [List.nil_append, skipBreak_of_head?_ne (hfits.head?_body hline)]
      exact hread hbody
  | false =>
    have hline := hfits.notMem hlong
    rw [if_neg (by simpa using hline), List.nil_append,
      take?_of_not_isLong hlong (hfits.body_ne hlong hrest)]
    exact hread hbody

end Quoted
end Toml
end PressCalendar
