/-
Reading back the attributes of a tag.

Names are words, so nothing in them ends them early, and no quote is left in a
value.  `scan_writeAll` says that a tag is read as the list of attributes that was
written into it, with the values as they stand between the quotes.
-/
import PressCalendar.Markup.Namespace

namespace PressCalendar
namespace Markup

/-- A name of one letter or more, and nothing but letters. -/
def IsWord (cs : List Char) : Prop := cs ≠ [] ∧ ∀ c ∈ cs, c.isAlpha = true

instance (cs : List Char) : Decidable (IsWord cs) :=
  decidable_of_iff ((!cs.isEmpty && cs.all Char.isAlpha) = true) (by simp [IsWord])

/-- A letter has no meaning in markup. -/
structure IsPlain (c : Char) : Prop where
  notSpace : isSpace c = false
  notQuote : Token.isQuote c = false
  notMark : c ≠ '=' ∧ c ≠ '<' ∧ c ≠ '>' ∧ c ≠ '/' ∧ c ≠ '!' ∧ c ≠ '?' ∧ c ≠ ':' ∧ c ≠ '@'

theorem isPlain_of_isAlpha {c : Char} (h : c.isAlpha = true) : IsPlain c := by
  have hne : ∀ d : Char, d.isAlpha = false → c ≠ d := by
    intro d hd heq
    rw [heq, hd] at h
    exact absurd h (by decide)
  have hspace := hne ' ' (by decide)
  have htab := hne '\t' (by decide)
  have hreturn := hne '\r' (by decide)
  have hline := hne '\n' (by decide)
  have hquote := hne '\x22' (by decide)
  have hsingle := hne '\x27' (by decide)
  refine ⟨?_, ?_, ?_⟩
  · simp [isSpace, hspace, htab, hreturn, hline]
  · simp [Token.isQuote, hquote, hsingle]
  · exact ⟨hne _ (by decide), hne _ (by decide), hne _ (by decide), hne _ (by decide),
      hne _ (by decide), hne _ (by decide), hne _ (by decide), hne _ (by decide)⟩

theorem IsWord.isPlain {cs : List Char} (h : IsWord cs) {c : Char} (hc : c ∈ cs) : IsPlain c :=
  isPlain_of_isAlpha (h.2 c hc)

namespace Attribute

/-- Attributes one after the other, each with its name and its value. -/
def writeAll (pairs : List (List Char × List Char)) : List Char :=
  pairs.flatMap fun p => write p.1 p.2

def written (p : List Char × List Char) : Attribute := ⟨p.1, Reference.escape p.2⟩

theorem quoted?_escape (value rest : List Char) :
    quoted? ('\x22' :: (Reference.escape value ++ '\x22' :: rest)) =
      some (Reference.escape value, rest) := by
  have hkept : ∀ c ∈ Reference.escape value, decide (c ≠ '\x22') = true := by
    intro c hc
    refine decide_eq_true ?_
    rintro rfl
    exact Reference.quote_not_mem_escape value hc
  rw [quoted?, if_pos (by decide), List.dropWhile_append_of_pos hkept,
    List.takeWhile_append_of_pos hkept, List.dropWhile_cons_of_neg (by decide),
    List.takeWhile_cons_of_neg (by decide), List.append_nil]

theorem next_write {seen : List (List Char)} {name : List Char} (hname : IsWord name)
    (hseen : name ∉ seen) (value rest : List Char) :
    next seen (write name value ++ rest) = .found ⟨name, Reference.escape value⟩ rest := by
  obtain ⟨c, behind, rfl⟩ := List.exists_cons_of_ne_nil hname.1
  have hc := hname.isPlain (List.mem_cons_self (a := c) (l := behind))
  have htext : write (c :: behind) value ++ rest =
      ' ' :: c :: (behind ++ '=' :: '\x22' :: (Reference.escape value ++ '\x22' :: rest)) := by
    simp [write]
  have hinName : ∀ d ∈ behind, (!(decide (d = '=') || isSpace d)) = true := by
    intro d hd
    have hplain := hname.isPlain (List.mem_cons_of_mem c hd)
    simp [hplain.notSpace, hplain.notMark.1]
  have hstop : ∀ ds : List Char, ('=' :: ds).dropWhile
      (fun d => !(decide (d = '=') || isSpace d)) = '=' :: ds := fun ds =>
    List.dropWhile_cons_of_neg (by decide)
  have hend : ∀ ds : List Char, ('=' :: ds).takeWhile
      (fun d => !(decide (d = '=') || isSpace d)) = [] := fun ds =>
    List.takeWhile_cons_of_neg (by decide)
  have hspace : ∀ (d : Char) (ds : List Char), isSpace d = false →
      (d :: ds).dropWhile isSpace = d :: ds := fun d ds hd =>
    List.dropWhile_cons_of_neg (by simp [hd])
  unfold next
  rw [htext, List.dropWhile_cons_of_pos (by decide), hspace c _ hc.notSpace]
  simp only [List.dropWhile_append_of_pos hinName, List.takeWhile_append_of_pos hinName, hstop,
    hend, hspace '=' _ (by decide), hspace '\x22' _ (by decide), List.append_nil, quoted?_escape]
  rw [if_neg]
  rw [List.contains_iff_mem]
  exact hseen

theorem scan_writeAll (distinct : Bool) {pairs : List (List Char × List Char)}
    {seen : List (List Char)} (hwords : ∀ p ∈ pairs, IsWord p.1)
    (hdistinct : (pairs.map Prod.fst).Nodup) (hseen : ∀ p ∈ pairs, p.1 ∉ seen) :
    scan distinct seen (writeAll pairs) = (pairs.map written).map some := by
  induction pairs generalizing seen with
  | nil =>
    rw [scan]
    rfl
  | cons p pairs ih =>
    obtain ⟨hp, hpairs⟩ := List.nodup_cons.1 (List.map_cons ▸ hdistinct)
    have hnext := next_write (hwords p List.mem_cons_self) (hseen p List.mem_cons_self) p.2
      (writeAll pairs)
    have htext : writeAll (p :: pairs) = write p.1 p.2 ++ writeAll pairs := List.flatMap_cons ..
    rw [htext, scan]
    split
    · case h_1 h =>
      rw [hnext] at h
      exact absurd h (by simp)
    · case h_2 behind h =>
      rw [hnext] at h
      exact absurd h (by simp)
    · case h_3 a behind h =>
      rw [hnext] at h
      cases h
      refine congrArg _ (ih (fun q hq => hwords q (List.mem_cons_of_mem p hq)) hpairs ?_)
      intro q hq hmem
      have hold := hseen q (List.mem_cons_of_mem p hq)
      split at hmem
      · rcases List.mem_cons.1 hmem with heq | hmem
        · exact hp (List.mem_map.2 ⟨q, hq, heq⟩)
        · exact hold hmem
      · exact hold hmem

/-- Names and values of a tag, such that no name is given twice. -/
def Distinct (pairs : List (List Char × List Char)) : Prop :=
  (∀ p ∈ pairs, IsWord p.1) ∧ (pairs.map Prod.fst).Nodup

theorem distinct_of_names {pairs : List (List Char × List Char)} {names : List (List Char)}
    (h : pairs.map Prod.fst = names) (hwords : ∀ name ∈ names, IsWord name)
    (hnodup : names.Nodup) : Distinct pairs := by
  subst h
  exact ⟨fun p hp => hwords p.1 (List.mem_map_of_mem hp), hnodup⟩

theorem sound_map_some (as : List Attribute) : sound (as.map some) = as := by
  unfold sound
  induction as with
  | nil => rfl
  | cons a as ih =>
    rw [List.map_cons, List.takeWhile_cons_of_pos rfl]
    show a :: List.filterMap id _ = _
    rw [ih]

theorem readAll_writeAll {pairs : List (List Char × List Char)} (h : Distinct pairs) :
    readAll (writeAll pairs) = (pairs.map written, true) := by
  have hscan : scan true [] (writeAll pairs) = (pairs.map written).map some :=
    scan_writeAll true h.1 h.2 (by simp)
  unfold readAll
  rw [hscan]
  refine Prod.ext (sound_map_some _) ?_
  simp

theorem localName_word {name : List Char} (h : IsWord name) : localName name = name := by
  have hall : ∀ c ∈ name, decide (c ≠ ':') = true := by
    intro c hc
    exact decide_eq_true (h.isPlain hc).notMark.2.2.2.2.2.2.1
  have hnil : (name ++ []).dropWhile (fun c => decide (c ≠ ':')) = [] :=
    List.dropWhile_append_of_pos hall
  rw [List.append_nil] at hnil
  simp only [localName, hnil]

theorem not_declaration_word {name : List Char} (h : IsWord name) :
    "xmlns:".toList.isPrefixOf name = false := by
  rw [Bool.eq_false_iff]
  intro hpre
  have hmem : ':' ∈ name := (List.isPrefixOf_iff_prefix.1 hpre).subset (by decide)
  exact (h.isPlain hmem).notMark.2.2.2.2.2.2.1 rfl

theorem key_word {name value : List Char} (h : IsWord name) : key ⟨name, value⟩ = name := by
  have hno : ¬"xmlns:".toList.isPrefixOf name = true := by
    rw [not_declaration_word h]
    decide
  unfold key
  rw [if_neg hno, localName_word h]

end Attribute

namespace Scope

theorem bind_written (s : Scope) {p : List Char × List Char} (hp : IsWord p.1) :
    s.bind (Attribute.written p) = some s := by
  have hno : ¬"xmlns:".toList.isPrefixOf p.1 = true := by
    rw [Attribute.not_declaration_word hp]
    decide
  unfold bind boundLabel? Attribute.written
  rw [if_neg hno]

theorem foldlM_bind_written (s : Scope) {pairs : List (List Char × List Char)}
    (hwords : ∀ p ∈ pairs, IsWord p.1) :
    (pairs.map Attribute.written).foldlM bind s = some s := by
  induction pairs with
  | nil => rfl
  | cons p pairs ih =>
    rw [List.map_cons, List.foldlM_cons, bind_written s (hwords p List.mem_cons_self)]
    exact ih fun q hq => hwords q (List.mem_cons_of_mem p hq)

/-- A tag without declarations can be entered, and binds nothing. -/
theorem enter_writeAll {s : Scope} {pairs : List (List Char × List Char)}
    (h : Attribute.Distinct pairs) :
    s.enter (Attribute.writeAll pairs) = some { s with depth := s.depth + 1 } := by
  unfold enter
  rw [Attribute.scan_writeAll false h.1 h.2 (by simp), Attribute.sound_map_some,
    foldlM_bind_written _ h.1]

end Scope

end Markup
end PressCalendar
