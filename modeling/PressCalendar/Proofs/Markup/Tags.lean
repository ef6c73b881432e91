/-
Scanning written tags.

A tag that was written from words and quoted values is scanned as one token, and
the scanner is between tags again behind it.  The line break and the indentation
in front of a tag make a token of their own.
-/
import PressCalendar.Markup.Node
import PressCalendar.Proofs.Markup.Attributes

namespace PressCalendar
namespace Markup
namespace Token

open Attribute

theorem scanFrom_move {mode next : Mode} {c : Char} {cs : List Char}
    (h : step mode c = .move next) : scanFrom mode (c :: cs) = scanFrom next cs := by
  simp only [scanFrom, scanOnto, h]

theorem scanFrom_emit {mode next : Mode} {tokens : List Token} {c : Char} {cs : List Char}
    (h : step mode c = .emit tokens next) :
    scanFrom mode (c :: cs) = tokens ++ scanFrom next cs := by
  have hscan : scanFrom mode (c :: cs) = scanOnto (tokens.reverse ++ []) next cs := by
    simp only [scanFrom, scanOnto, h]
  rw [hscan, scanOnto_eq, List.append_nil, List.reverse_reverse]

/-- Characters that only add to what is held are passed in one go. -/
theorem scanFrom_run (mode : List Char → Mode) {cs : List Char}
    (h : ∀ held, ∀ c ∈ cs, step (mode held) c = .move (mode (c :: held))) (held rest : List Char) :
    scanFrom (mode held) (cs ++ rest) = scanFrom (mode (cs.reverse ++ held)) rest := by
  induction cs generalizing held with
  | nil => rfl
  | cons c cs ih =>
    rw [List.cons_append, scanFrom_move (h held c List.mem_cons_self),
      ih (fun held d hd => h held d (List.mem_cons_of_mem c hd)), List.reverse_cons,
      List.append_assoc]
    rfl

/-! ## Where the mode changes -/

theorem step_text_open (held : List Char) :
    step (.text held) '<' = .emit (textToken held) .opening := rfl

theorem step_tag_close (held : List Char) :
    step (.tag none held) '>' = .emit (tagTokens held) (.text []) := rfl

theorem step_tag_quote (held : List Char) :
    step (.tag none held) '\x22' = .move (.tag (some '\x22') ('\x22' :: held)) := rfl

theorem step_tag_unquote (held : List Char) :
    step (.tag (some '\x22') held) '\x22' = .move (.tag none ('\x22' :: held)) := rfl

theorem step_opening_slash : step .opening '/' = .move (.closing none []) := rfl

theorem step_closing_close (held : List Char) :
    step (.closing none held) '>' = .emit [closingToken held] (.text []) := rfl

/-! ## Inside a tag -/

theorem step_tag_plain {c : Char} (hquote : isQuote c = false) (hend : c ≠ '>')
    (held : List Char) : step (.tag none held) c = .move (.tag none (c :: held)) := by
  simp [step, quoteAfter, hquote, hend]

theorem step_tag_quoted {c : Char} (hquote : c ≠ '\x22') (held : List Char) :
    step (.tag (some '\x22') held) c = .move (.tag (some '\x22') (c :: held)) := by
  simp [step, quoteAfter, hquote]

theorem scanFrom_word {name : List Char} (h : IsWord name) (held rest : List Char) :
    scanFrom (.tag none held) (name ++ rest) = scanFrom (.tag none (name.reverse ++ held)) rest :=
  scanFrom_run (.tag none)
    (fun held _ hc => step_tag_plain (h.isPlain hc).notQuote (h.isPlain hc).notMark.2.2.1 held)
    held rest

theorem scanFrom_write {name : List Char} (h : IsWord name) (value held rest : List Char) :
    scanFrom (.tag none held) (write name value ++ rest) =
      scanFrom (.tag none ((write name value).reverse ++ held)) rest := by
  have hquoted : ∀ held, ∀ c ∈ Reference.escape value,
      step (.tag (some '\x22') held) c = .move (.tag (some '\x22') (c :: held)) := by
    intro held c hc
    refine step_tag_quoted ?_ held
    rintro rfl
    exact Reference.quote_not_mem_escape value hc
  have htext : write name value ++ rest =
      ' ' :: (name ++ '=' :: '\x22' :: (Reference.escape value ++ '\x22' :: rest)) := by
    simp [write]
  have hheld : (write name value).reverse ++ held =
      '\x22' :: ((Reference.escape value).reverse ++
        '\x22' :: '=' :: (name.reverse ++ ' ' :: held)) := by
    simp [write]
  rw [htext, hheld, scanFrom_move (step_tag_plain (by decide) (by decide) held),
    scanFrom_word h, scanFrom_move (step_tag_plain (by decide) (by decide) _),
    scanFrom_move (step_tag_quote _),
    scanFrom_run (.tag (some '\x22')) hquoted,
    scanFrom_move (step_tag_unquote _)]

theorem scanFrom_writeAll {pairs : List (List Char × List Char)}
    (h : ∀ p ∈ pairs, IsWord p.1) (held rest : List Char) :
    scanFrom (.tag none held) (writeAll pairs ++ rest) =
      scanFrom (.tag none ((writeAll pairs).reverse ++ held)) rest := by
  induction pairs generalizing held with
  | nil => rfl
  | cons p pairs ih =>
    have htext : writeAll (p :: pairs) = write p.1 p.2 ++ writeAll pairs := List.flatMap_cons ..
    rw [htext, List.append_assoc, scanFrom_write (h p List.mem_cons_self),
      ih fun q hq => h q (List.mem_cons_of_mem p hq), List.reverse_append, List.append_assoc]

/-! ## Whole tags -/

section

variable {name : List Char} {pairs : List (List Char × List Char)}

/-- The name of a written tag ends where its attributes begin. -/
theorem span_tag (hname : IsWord name) (pairs : List (List Char × List Char)) :
    (name ++ writeAll pairs).takeWhile (!isSpace ·) = name ∧
      (name ++ writeAll pairs).dropWhile (!isSpace ·) = writeAll pairs := by
  have hall : ∀ c ∈ name, (!isSpace c) = true := by
    intro c hc
    simp [(hname.isPlain hc).notSpace]
  rw [List.takeWhile_append_of_pos hall, List.dropWhile_append_of_pos hall]
  cases pairs with
  | nil => simp [writeAll]
  | cons p pairs =>
    have htext : writeAll (p :: pairs) =
        ' ' :: (p.1 ++ '=' :: '\x22' :: (Reference.escape p.2 ++ '\x22' :: writeAll pairs)) := by
      simp [writeAll, write]
    rw [htext, List.takeWhile_cons_of_neg (by decide), List.dropWhile_cons_of_neg (by decide),
      List.append_nil]
    exact ⟨rfl, rfl⟩

theorem reverse_tag_ne (hname : IsWord name) (rest : List Char) :
    (name ++ writeAll pairs).reverse ≠ '/' :: rest := by
  intro h
  rcases List.eq_nil_or_concat pairs with rfl | ⟨init, p, rfl⟩
  · have hmem : '/' ∈ name := by
      rw [← List.mem_reverse]
      simp only [writeAll, List.flatMap_nil, List.append_nil] at h
      rw [h]
      exact List.mem_cons_self
    exact (hname.isPlain hmem).notMark.2.2.2.1 rfl
  · simp [writeAll, write] at h

theorem tagTokens_open (hname : IsWord name) :
    tagTokens (name ++ writeAll pairs).reverse = [start name (writeAll pairs)] := by
  have hspan := span_tag hname pairs
  unfold tagTokens
  split
  · case h_1 rest h => exact absurd h (reverse_tag_ne hname rest)
  · simp only [List.reverse_reverse, hspan.1, hspan.2]

theorem tagTokens_empty (hname : IsWord name) :
    tagTokens ('/' :: (name ++ writeAll pairs).reverse) =
      [start name (writeAll pairs), finish name] := by
  have hspan := span_tag hname pairs
  simp only [tagTokens, List.reverse_reverse, hspan.1, hspan.2]

theorem step_opening {c : Char} (h : IsPlain c) :
    step .opening c = .move (.tag none [c]) := by
  obtain ⟨-, hquote, -, -, hend, hslash, hbang, hask, -, -⟩ := h
  have hnone : quoteAfter none c = none := by simp [quoteAfter, hquote]
  simp only [step, hnone]

theorem scanFrom_tag (hname : IsWord name) (hpairs : ∀ p ∈ pairs, IsWord p.1)
    (held rest : List Char) :
    scanFrom (.text held) ('<' :: (name ++ writeAll pairs ++ rest)) =
      textToken held ++ scanFrom (.tag none (name ++ writeAll pairs).reverse) rest := by
  obtain ⟨c, behind, rfl⟩ := List.exists_cons_of_ne_nil hname.1
  have hc := hname.isPlain (List.mem_cons_self (a := c) (l := behind))
  have hbehind : scanFrom (.tag none [c]) (behind ++ (writeAll pairs ++ rest)) =
      scanFrom (.tag none (behind.reverse ++ [c])) (writeAll pairs ++ rest) := by
    refine scanFrom_run (.tag none) ?_ [c] _
    intro held d hd
    have hplain := hname.isPlain (List.mem_cons_of_mem c hd)
    exact step_tag_plain hplain.notQuote hplain.notMark.2.2.1 held
  rw [scanFrom_emit (step_text_open held), List.append_assoc, List.cons_append,
    scanFrom_move (step_opening hc), hbehind, scanFrom_writeAll hpairs, List.reverse_append,
    List.reverse_cons]

theorem scanFrom_open (hname : IsWord name) (hpairs : ∀ p ∈ pairs, IsWord p.1)
    (held rest : List Char) :
    scanFrom (.text held) ('<' :: (name ++ writeAll pairs ++ '>' :: rest)) =
      textToken held ++ start name (writeAll pairs) :: scanFrom (.text []) rest := by
  rw [scanFrom_tag hname hpairs, scanFrom_emit (step_tag_close _), tagTokens_open hname]
  rfl

theorem scanFrom_empty (hname : IsWord name) (hpairs : ∀ p ∈ pairs, IsWord p.1)
    (held rest : List Char) :
    scanFrom (.text held) ('<' :: (name ++ writeAll pairs ++ '/' :: '>' :: rest)) =
      textToken held ++ start name (writeAll pairs) :: finish name ::
        scanFrom (.text []) rest := by
  rw [scanFrom_tag hname hpairs, scanFrom_move (step_tag_plain (by decide) (by decide) _),
    scanFrom_emit (step_tag_close _), tagTokens_empty hname]
  rfl

theorem closingToken_word (hname : IsWord name) : closingToken name.reverse = finish name := by
  obtain ⟨c, behind, hcons⟩ := List.exists_cons_of_ne_nil (List.reverse_ne_nil_iff.2 hname.1)
  have hc : isSpace c = false := by
    refine (hname.isPlain (c := c) ?_).notSpace
    rw [← List.mem_reverse, hcons]
    exact List.mem_cons_self
  unfold closingToken
  rw [hcons, if_neg (by simp [hc]), List.dropWhile_cons_of_neg (by simp [hc]), ← hcons,
    List.reverse_reverse]

theorem scanFrom_close (hname : IsWord name) (held rest : List Char) :
    scanFrom (.text held) ('<' :: '/' :: (name ++ '>' :: rest)) =
      textToken held ++ finish name :: scanFrom (.text []) rest := by
  have hrun : ∀ held, ∀ c ∈ name,
      step (.closing none held) c = .move (.closing none (c :: held)) := by
    intro held c hc
    have hplain := hname.isPlain hc
    simp [step, quoteAfter, hplain.notQuote, hplain.notMark.2.2.1]
  rw [scanFrom_emit (step_text_open held), scanFrom_move step_opening_slash,
    scanFrom_run (.closing none) hrun, List.append_nil,
    scanFrom_emit (step_closing_close _), closingToken_word hname]
  rfl

end

end Token
end Markup
end PressCalendar
