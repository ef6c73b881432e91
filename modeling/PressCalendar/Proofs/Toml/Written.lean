/-
Entries in TOML, read back.

`read?_write` says that entries under different bare keys are read as they were written, texts
as texts and lists as lists, in the same order.  The reader goes through the lines one by one,
each of which adds its entry; in the lines of a list it goes from comma to comma.
-/
import PressCalendar.Proofs.Toml.Quoted
import PressCalendar.Toml.Reader
import PressCalendar.Toml.Writer

namespace PressCalendar
namespace Toml

open Quoted (isBlank isBreak)

variable {c : Char} {cs rest more : List Char} {key : String} {es : Entries} {limit depth : Nat}

/-! ## Blanks -/

/-- A character that does not belong to what is between the parts of a text: to blanks, line
breaks and comments. -/
def IsSolid (c : Char) : Prop := isBlank c = false ∧ c ≠ '\n' ∧ c ≠ '\r' ∧ c ≠ '#'

instance (c : Char) : Decidable (IsSolid c) := inferInstanceAs (Decidable (_ ∧ _ ∧ _ ∧ _))

theorem IsSolid.skipBlanks_cons (h : IsSolid c) (cs : List Char) :
    skipBlanks (c :: cs) = c :: cs :=
  List.dropWhile_cons_of_neg (by simp [h.1])

theorem IsSolid.skipLines_cons (h : IsSolid c) (cs : List Char) :
    skipLines false (c :: cs) = c :: cs := by
  obtain ⟨hblank, hbreak, hreturn, hmark⟩ := h
  rw [skipLines, Quoted.isBreak_of_ne hbreak hreturn, hblank]
  simp only [Bool.false_eq_true, if_false, if_neg hmark]

theorem IsSolid.finishLine?_cons (h : IsSolid c) (cs : List Char) :
    finishLine? (c :: cs) = none := by
  obtain ⟨-, hbreak, hreturn, hmark⟩ := id h
  unfold finishLine?
  rw [h.skipBlanks_cons]
  split
  · case h_1 heq => exact absurd (List.cons.inj heq).1 hmark
  · unfold nextLine?
    split
    · case h_1 heq => cases heq
    · case h_2 heq => exact absurd (List.cons.inj heq).1 hbreak
    · case h_3 heq => exact absurd (List.cons.inj heq).1 hreturn
    · rfl

/-! ## Values -/

theorem length_le_length_flatMap {α β : Type} (xs : List α) (f : α → List β)
    (hf : ∀ x, f x ≠ []) : xs.length ≤ (xs.flatMap f).length := by
  induction xs with
  | nil => exact Nat.le_refl 0
  | cons x xs ih =>
    have hpos := List.length_pos_iff.2 (hf x)
    rw [List.flatMap_cons, List.length_append, List.length_cons]
    omega

theorem exists_quoted_eq_cons (s : String) :
    ∃ quote cs, Quoted.write s = quote :: cs ∧ (quote = '\x22' ∨ quote = '\x27') := by
  have hwrite : ∀ body, ∃ quote cs, (Quoted.styleOf s.toList).quotes ++ body = quote :: cs ∧
      (quote = '\x22' ∨ quote = '\x27') := by
    intro body
    cases Quoted.styleOf s.toList with
    | escaped lines => cases lines <;> exact ⟨_, _, rfl, .inl rfl⟩
    | literal lines => cases lines <;> exact ⟨_, _, rfl, .inr rfl⟩
  simp only [Quoted.write, List.append_assoc]
  exact hwrite _

theorem skipBlanks_quoted (s : String) (rest : List Char) :
    skipBlanks (Quoted.write s ++ rest) = Quoted.write s ++ rest := by
  obtain ⟨quote, cs, heq, hquote⟩ := exists_quoted_eq_cons s
  rw [heq]
  rcases hquote with rfl | rfl <;> rfl

theorem skipLines_quoted (s : String) (rest : List Char) :
    skipLines false (Quoted.write s ++ rest) = Quoted.write s ++ rest := by
  obtain ⟨quote, cs, heq, hquote⟩ := exists_quoted_eq_cons s
  rw [heq]
  rcases hquote with rfl | rfl <;> exact IsSolid.skipLines_cons (by decide) _

theorem takeValue?_quoted (depth : Nat) (s : String)
    (hrest : ∀ c ∈ rest.head?, c ≠ '\x22' ∧ c ≠ '\x27') :
    takeValue? depth (Quoted.write s ++ rest) = some (.text s, rest) := by
  obtain ⟨quote, cs, heq, hquote⟩ := exists_quoted_eq_cons s
  have hread := Quoted.take?_write s hrest
  rw [heq, List.cons_append] at hread ⊢
  rcases hquote with rfl | rfl <;> cases depth <;> rw [takeValue?, hread] <;> simp

/-- One text more in a list, and what comes behind it. -/
theorem takeItems?_quoted {s : String} {mark : Char} (hmark : mark = ',' ∨ mark = ']')
    (hcs : skipLines false cs = Quoted.write s ++ mark :: rest) :
    takeItems? (takeValue? depth) (limit + 1) cs =
      if mark = ',' then
        (takeItems? (takeValue? depth) limit rest).map fun (vs, rest) => (.text s :: vs, rest)
      else some ([.text s], rest) := by
  have hvalue : takeValue? depth (Quoted.write s ++ mark :: rest) =
      some (.text s, mark :: rest) := by
    refine takeValue?_quoted depth s fun c hc => ?_
    cases hc
    rcases hmark with rfl | rfl <;> decide
  have hskip : skipLines false (mark :: rest) = mark :: rest := by
    rcases hmark with rfl | rfl <;> exact IsSolid.skipLines_cons (by decide) _
  obtain ⟨quote, body, heq, hquote⟩ := exists_quoted_eq_cons s
  rw [takeItems?, hcs]
  rw [heq, List.cons_append] at hvalue ⊢
  split
  · case h_1 hhead =>
    have hbracket := (List.cons.inj hhead).1
    rcases hquote with rfl | rfl <;> exact absurd hbracket (by decide)
  · rw [hvalue, Option.bind_eq_bind, Option.bind_some]
    simp only [hskip]
    rcases hmark with rfl | rfl
    · show (takeItems? (takeValue? depth) limit rest).bind _ = _
      cases takeItems? (takeValue? depth) limit rest <;> rfl
    · rfl

/-- A list of any texts, each on a line of its own. -/
theorem takeItems?_lines {items : List String} (hlimit : items.length < limit) :
    takeItems? (takeValue? depth) limit ('\n' :: (items.flatMap (fun s =>
        "    ".toList ++ Quoted.write s ++ ",\n".toList) ++ ']' :: rest)) =
      some (items.map .text, rest) := by
  induction items generalizing limit with
  | nil =>
    cases limit with
    | zero => cases hlimit
    | succ limit => rfl
  | cons s items ih =>
    cases limit with
    | zero => cases hlimit
    | succ limit =>
      have hline : skipLines false ('\n' :: ((s :: items).flatMap (fun s =>
          "    ".toList ++ Quoted.write s ++ ",\n".toList) ++ ']' :: rest)) =
          Quoted.write s ++ ',' :: '\n' :: (items.flatMap (fun s =>
            "    ".toList ++ Quoted.write s ++ ",\n".toList) ++ ']' :: rest) := by
        rw [List.flatMap_cons, List.append_assoc, List.append_assoc, List.append_assoc]
        exact skipLines_quoted s _
      rw [takeItems?_quoted (.inl rfl) hline, if_pos rfl, ih (Nat.lt_of_succ_lt_succ hlimit)]
      rfl

theorem takeValue?_list (cs : List Char) : takeValue? (depth + 1) ('[' :: cs) =
    (takeItems? (takeValue? depth) (cs.length + 1) cs).map fun (items, rest) =>
      (.list false items, rest) := rfl

/-- What is written for a text or a list of texts is read as this. -/
theorem takeValue?_write (content : Content)
    (hrest : ∀ c ∈ rest.head?, c ≠ '\x22' ∧ c ≠ '\x27') :
    takeValue? (depth + 1) (content.write ++ rest) = some (content.toValue, rest) := by
  match content with
  | .text s => exact takeValue?_quoted (depth + 1) s hrest
  | .texts [] => rfl
  | .texts [s] =>
    have hitems : skipLines false (Quoted.write s ++ ']' :: rest) =
        Quoted.write s ++ ']' :: rest := skipLines_quoted s _
    have hwrite : (Content.texts [s]).write ++ rest = '[' :: (Quoted.write s ++ ']' :: rest) := by
      rw [Content.write, List.cons_append, List.cons_append, List.append_assoc]
      rfl
    rw [hwrite, takeValue?_list, takeItems?_quoted (.inr rfl) hitems]
    rfl
  | .texts (s :: s' :: items) =>
    have hwrite : (Content.texts (s :: s' :: items)).write ++ rest =
        '[' :: '\n' :: ((s :: s' :: items).flatMap (fun s =>
          "    ".toList ++ Quoted.write s ++ ",\n".toList) ++ ']' :: rest) := by
      rw [Content.write, List.append_assoc, List.append_assoc]
      · rfl
      · simp
      · simp
    have hlength := length_le_length_flatMap (s :: s' :: items)
      (fun s => "    ".toList ++ Quoted.write s ++ ",\n".toList) fun s => by simp
    rw [hwrite, takeValue?_list, takeItems?_lines]
    · rfl
    · simp only [List.length_cons, List.length_append] at hlength ⊢
      omega

/-! ## Lines -/

/-- A key that is written without quotes. -/
def IsBareKey (key : String) : Prop := key ≠ "" ∧ key.toList.all isBare = true

instance (key : String) : Decidable (IsBareKey key) := inferInstanceAs (Decidable (_ ∧ _))

theorem isSolid_of_isBare (h : isBare c = true) :
    IsSolid c ∧ c ≠ '\x22' ∧ c ≠ '\x27' ∧ c ≠ '[' ∧ c ≠ '\uFEFF' := by
  have hne : ∀ {d}, isBare d = false → c ≠ d := by
    rintro d hd rfl
    exact Bool.noConfusion (hd.symm.trans h)
  have hblank : isBlank c = false := by
    rw [isBlank, Bool.or_eq_false_iff, decide_eq_false_iff_not, decide_eq_false_iff_not]
    exact ⟨hne (by decide), hne (by decide)⟩
  exact ⟨⟨hblank, hne (by decide), hne (by decide), hne (by decide)⟩, hne (by decide),
    hne (by decide), hne (by decide), hne (by decide)⟩

namespace IsBareKey

theorem exists_eq_cons (h : IsBareKey key) : ∃ c cs, key.toList = c :: cs ∧ isBare c = true := by
  obtain ⟨c, cs, heq⟩ := List.exists_cons_of_ne_nil (mt String.toList_eq_nil_iff.1 h.1)
  exact ⟨c, cs, heq, List.all_eq_true.1 h.2 c (heq ▸ List.mem_cons_self)⟩

/-- A bare key goes up to the first character that is none of its own. -/
theorem takeKey?_append (h : IsBareKey key) (hrest : ∀ c ∈ rest.head?, isBare c = false) :
    takeKey? (key.toList ++ rest) = some (key, rest) := by
  obtain ⟨c, cs, heq, hc⟩ := h.exists_eq_cons
  obtain ⟨-, hquote, hquote', -⟩ := isSolid_of_isBare hc
  have hline : Quoted.takeLine? (key.toList ++ rest) = none := by
    rw [heq, List.cons_append]
    unfold Quoted.takeLine?
    split
    · case h_1 hhead => exact absurd (List.cons.inj hhead).1 hquote
    · case h_2 hhead => exact absurd (List.cons.inj hhead).1 hquote'
    · rfl
  have hstop : rest.takeWhile isBare = [] := by
    cases rest with
    | nil => rfl
    | cons d rest => exact List.takeWhile_cons_of_neg (by simp [hrest d rfl])
  have hbare : (key.toList ++ rest).takeWhile isBare = key.toList := by
    rw [List.takeWhile_append_of_pos (List.all_eq_true.1 h.2), hstop, List.append_nil]
  have hne : key.toList.isEmpty = false := by
    rw [heq]
    rfl
  rw [takeKey?, hline]
  simp only [hbare, hne, Bool.false_eq_true, if_false, String.ofList_toList, List.drop_left]

theorem takePath?_append (h : IsBareKey key) (rest : List Char) :
    takePath? (limit + 1) (key.toList ++ ' ' :: '=' :: rest) =
      some (([], key), '=' :: rest) := by
  obtain ⟨c, cs, heq, hc⟩ := h.exists_eq_cons
  have hskip : skipBlanks (key.toList ++ ' ' :: '=' :: rest) =
      key.toList ++ ' ' :: '=' :: rest := by
    rw [heq]
    exact (isSolid_of_isBare hc).1.skipBlanks_cons _
  have hkey : takeKey? (key.toList ++ ' ' :: '=' :: rest) = some (key, ' ' :: '=' :: rest) := by
    refine h.takeKey?_append fun d hd => ?_
    cases hd
    decide
  rw [takePath?, hskip, hkey]
  rfl

end IsBareKey

/-- What is written for an entry. -/
def line (key : String) (content : Content) : List Char :=
  key.toList ++ " = ".toList ++ content.write ++ ['\n']

theorem skipBlanks_write (content : Content) (rest : List Char) :
    skipBlanks (content.write ++ rest) = content.write ++ rest := by
  match content with
  | .text s => exact skipBlanks_quoted s rest
  | .texts [] => rfl
  | .texts [_] => rfl
  | .texts (_ :: _ :: _) => rfl

theorem takeAssignment?_write (h : IsBareKey key) (content : Content) (rest : List Char) :
    takeAssignment? (takeValue? deepest)
        (key.toList ++ ' ' :: '=' :: ' ' :: (content.write ++ '\n' :: rest)) =
      some (([], key, content.toValue), '\n' :: rest) := by
  have hvalue : takeValue? deepest (content.write ++ '\n' :: rest) =
      some (content.toValue, '\n' :: rest) := by
    refine takeValue?_write content fun c hc => ?_
    cases hc
    decide
  have hskip : skipBlanks (' ' :: (content.write ++ '\n' :: rest)) =
      content.write ++ '\n' :: rest := skipBlanks_write content _
  unfold takeAssignment? longestPath
  rw [h.takePath?_append]
  simp only [Option.bind_eq_bind, Option.bind_some, skip?, if_true, hskip, hvalue]
  rfl

theorem assign_of_fresh (v : Value) (h : es.lookup key = none) :
    es.assign [] [] key v = some (es ++ [(key, v)]) := by
  unfold Entries.assign
  simp only [Entries.changeAt, Entries.add, h]
  rfl

/-- A line that was written for an entry adds it. -/
theorem readLines?_line (hkey : IsBareKey key) (content : Content) (hfresh : es.lookup key = none)
    (rest : List Char) : readLines? (limit + 1) [] es (line key content ++ rest) =
      readLines? limit [] (es ++ [(key, content.toValue)]) rest := by
  obtain ⟨c, cs, heq, hc⟩ := hkey.exists_eq_cons
  obtain ⟨hsolid, -, -, hbracket, -⟩ := isSolid_of_isBare hc
  have htext : line key content ++ rest =
      c :: (cs ++ ' ' :: '=' :: ' ' :: (content.write ++ '\n' :: rest)) := by
    simp [line, heq]
  have hassignment := takeAssignment?_write hkey content rest
  rw [heq, List.cons_append] at hassignment
  have hend : finishLine? ('\n' :: rest) = some rest := rfl
  rw [readLines?, htext, hsolid.skipBlanks_cons]
  split
  · case h_1 hhead => cases hhead
  · case h_2 hhead => exact absurd (List.cons.inj hhead).1 hbracket
  · case h_3 hhead => exact absurd (List.cons.inj hhead).1 hbracket
  · rw [hsolid.finishLine?_cons, hassignment]
    simp only [Option.bind_eq_bind, Option.bind_some, assign_of_fresh _ hfresh, hend]

/-- The lines that were written for some entries add them, one after the other. -/
theorem readLines?_write {entries : List (String × Content)}
    (hkeys : ∀ e ∈ entries, IsBareKey e.1) (hdistinct : (entries.map Prod.fst).Nodup)
    (hfresh : ∀ e ∈ entries, es.lookup e.1 = none) (hlimit : entries.length < limit) :
    readLines? limit [] es (entries.flatMap fun e => line e.1 e.2) =
      some (es ++ entries.map fun e => (e.1, e.2.toValue)) := by
  induction entries generalizing es limit with
  | nil =>
    cases limit with
    | zero => cases hlimit
    | succ limit =>
      rw [List.map_nil, List.append_nil]
      rfl
  | cons e entries ih =>
    cases limit with
    | zero => cases hlimit
    | succ limit =>
      obtain ⟨hkey, hkeys⟩ := List.forall_mem_cons.1 hkeys
      obtain ⟨hnew, hfresh⟩ := List.forall_mem_cons.1 hfresh
      obtain ⟨hother, hdistinct⟩ := List.nodup_cons.1 hdistinct
      have hrest : ∀ e' ∈ entries, (es ++ [(e.1, e.2.toValue)]).lookup e'.1 = none := by
        intro e' he'
        have hne : e'.1 ≠ e.1 := fun heq => hother (heq ▸ List.mem_map_of_mem he')
        rw [List.lookup_append, hfresh e' he', Option.none_or, List.lookup_cons,
          beq_eq_false_iff_ne.2 hne]
        rfl
      rw [List.flatMap_cons, readLines?_line hkey e.2 hnew,
        ih hkeys hdistinct hrest (Nat.lt_of_succ_lt_succ hlimit), List.append_assoc]
      rfl

theorem isBare_of_head?_lines {entries : List (String × Content)}
    (hkeys : ∀ e ∈ entries, IsBareKey e.1) :
    ∀ c ∈ (entries.flatMap fun e => line e.1 e.2).head?, isBare c = true := by
  intro d hd
  cases entries with
  | nil => cases hd
  | cons e entries =>
    obtain ⟨c, cs, heq, hc⟩ := (hkeys e List.mem_cons_self).exists_eq_cons
    rw [List.flatMap_cons, line, heq] at hd
    cases hd
    exact hc

/-- Entries under different bare keys are read from what is written for them. -/
theorem read?_write {entries : List (String × Content)}
    (hkeys : ∀ e ∈ entries, IsBareKey e.1) (hdistinct : (entries.map Prod.fst).Nodup) :
    read? (write entries) = some (entries.map fun e => (e.1, e.2.toValue)) := by
  have htext : (write entries).toList = entries.flatMap fun e => line e.1 e.2 :=
    String.toList_ofList
  have hlength := length_le_length_flatMap entries (fun e => line e.1 e.2) fun e => by simp [line]
  have hlines := @readLines?_write [] _ entries hkeys hdistinct (fun _ _ => rfl)
    (Nat.lt_succ_of_le hlength)
  unfold read?
  rw [htext]
  split
  · case h_1 heq =>
    have hbare := isBare_of_head?_lines hkeys '\uFEFF' (by rw [heq]; rfl)
    exact absurd rfl (isSolid_of_isBare hbare).2.2.2.2
  · exact hlines

end Toml
end PressCalendar
