/-
Blocks in order: one comes before another if it ends before the other begins.

Everything a course does with its blocks goes through two searches by halving.
On a list of blocks in order both find what a search from left to right would:
`insertSorted_eq` says where a block that overlaps none of the others is put,
and `blockOn?_eq_find?` that the block found for a date is the first one that
covers it.
-/
import PressCalendar.Course.Basic

namespace PressCalendar

/-! ## Halving a list of which a property is lost for good -/

/-- Where a property is lost for good, halving finds the place. -/
theorem exists_bisect_split {α : Type} {p : α → Bool} {xs : List α}
    (h : xs.Pairwise fun a b => p b = true → p a = true) :
    ∃ ys zs, xs = ys ++ zs ∧ bisect p xs = ys.length ∧ (∀ y ∈ ys, p y = true) ∧
      ∀ z ∈ zs, p z = false := by
  have hsplit : ∃ ys zs, xs = ys ++ zs ∧ (∀ y ∈ ys, p y = true) ∧ ∀ z ∈ zs, p z = false := by
    induction xs with
    | nil => exact ⟨[], [], rfl, by simp, by simp⟩
    | cons x xs ih =>
      obtain ⟨hx, hxs⟩ := List.pairwise_cons.1 h
      by_cases hpx : p x = true
      · obtain ⟨ys, zs, rfl, hys, hzs⟩ := ih hxs
        refine ⟨x :: ys, zs, rfl, ?_, hzs⟩
        intro y hy
        rcases List.mem_cons.1 hy with rfl | hy
        · exact hpx
        · exact hys y hy
      · refine ⟨[], x :: xs, rfl, by simp, ?_⟩
        intro z hz
        rcases List.mem_cons.1 hz with rfl | hz
        · exact Bool.eq_false_iff.2 hpx
        · exact Bool.eq_false_iff.2 fun hpz => hpx (hx z hz hpz)
  obtain ⟨ys, zs, rfl, hys, hzs⟩ := hsplit
  exact ⟨ys, zs, rfl, bisect_append hys hzs, hys, hzs⟩

theorem insertIdx_length_append {α : Type} (ys zs : List α) (x : α) :
    (ys ++ zs).insertIdx ys.length x = ys ++ x :: zs := by
  induction ys with
  | nil => rfl
  | cons y ys ih => rw [List.cons_append, List.length_cons, List.insertIdx_succ_cons, ih,
      List.cons_append]

theorem eq_or_of_pairwise {α : Type} {r : α → α → Prop} {xs : List α} (h : xs.Pairwise r)
    {a b : α} (ha : a ∈ xs) (hb : b ∈ xs) : a = b ∨ r a b ∨ r b a := by
  induction xs with
  | nil => exact absurd ha List.not_mem_nil
  | cons x xs ih =>
    obtain ⟨hx, hxs⟩ := List.pairwise_cons.1 h
    rcases List.mem_cons.1 ha with rfl | ha'
    · rcases List.mem_cons.1 hb with rfl | hb'
      · exact Or.inl rfl
      · exact Or.inr (Or.inl (hx b hb'))
    · rcases List.mem_cons.1 hb with rfl | hb'
      · exact Or.inr (Or.inr (hx a ha'))
      · exact ih hxs ha' hb'

/-- Ranges share a day if each begins before the other ends, namely the later of the
two first days. -/
theorem Date.exists_in_both_iff {first last first' last' : Date} (h : first ≤ last)
    (h' : first' ≤ last') :
    (∃ date, (first ≤ date ∧ date ≤ last) ∧ first' ≤ date ∧ date ≤ last') ↔
      first ≤ last' ∧ first' ≤ last := by
  constructor
  · intro ⟨date, ⟨hfirst, hlast⟩, hfirst', hlast'⟩
    exact ⟨Date.le_trans hfirst hlast', Date.le_trans hfirst' hlast⟩
  · intro ⟨hbegins, hbegins'⟩
    by_cases hle : first ≤ first'
    · exact ⟨first', ⟨hle, hbegins'⟩, Date.le_refl _, h'⟩
    · have hlt := Date.not_le.1 hle
      exact ⟨first, ⟨Date.le_refl _, h⟩, Date.le_of_lt hlt, hbegins⟩

namespace Block

/-- The dates of a block do not contradict each other. -/
def Ordered (b : Block) : Prop := ∀ first ∈ b.first, ∀ last ∈ b.last, first ≤ last

/-- A block ends before another one begins. -/
def Precedes (a b : Block) : Prop := ∀ x ∈ a.stop?, ∀ y ∈ b.start?, x < y

/-- Two blocks share a day. -/
def Meets (a b : Block) : Prop := ∃ date, a.covers date = true ∧ b.covers date = true

theorem start?_eq {b : Block} {first last : Date} (h : b.span? = some (first, last)) :
    b.start? = some first := by
  rw [start?, h, Option.map_some]

theorem stop?_eq {b : Block} {first last : Date} (h : b.span? = some (first, last)) :
    b.stop? = some last := by
  rw [stop?, h, Option.map_some]

theorem Ordered.span_le {b : Block} (hb : b.Ordered) {first last : Date}
    (h : b.span? = some (first, last)) : first ≤ last := by
  unfold span? at h
  split at h
  · case h_1 x y hx hy =>
    cases h
    exact hb _ hx _ hy
  · cases h
    exact Date.le_refl _
  · cases h
    exact Date.le_refl _
  · exact absurd h (by simp)

theorem precedes_iff {a b : Block} {first last first' last' : Date}
    (ha : a.span? = some (first, last)) (hb : b.span? = some (first', last')) :
    a.Precedes b ↔ last < first' := by
  simp [Precedes, stop?_eq ha, start?_eq hb]

theorem covers_iff {b : Block} {first last date : Date} (h : b.span? = some (first, last)) :
    b.covers date = true ↔ first ≤ date ∧ date ≤ last := by
  simp [covers, h]

theorem overlaps_iff {b : Block} {first last x y : Date} (h : b.span? = some (first, last)) :
    b.overlaps x y = true ↔ first ≤ y ∧ x ≤ last := by
  simp [overlaps, h]

theorem overlaps_iff_meets {a b : Block} {first last : Date} (ha : a.Ordered) (hb : b.Ordered)
    (hspan : b.span? = some (first, last)) : a.overlaps first last = true ↔ a.Meets b := by
  cases hs : a.span? with
  | none => simp [overlaps, Meets, covers, hs]
  | some range =>
    obtain ⟨first', last'⟩ := range
    rw [overlaps_iff hs, ← Date.exists_in_both_iff (ha.span_le hs) (hb.span_le hspan)]
    simp only [Meets, covers_iff hs, covers_iff hspan]

theorem span?_isSome_of_covers {b : Block} {date : Date} (h : b.covers date = true) :
    b.span?.isSome = true := by
  unfold covers at h
  split at h
  · case h_1 hs => rw [hs, Option.isSome_some]
  · exact absurd h (by simp)

theorem span?_congr {a b : Block} (hfirst : a.first = b.first) (hlast : a.last = b.last) :
    a.span? = b.span? := by
  rw [span?, span?, hfirst, hlast]

theorem Precedes.overlaps_eq_false {a b : Block} {first last : Date} (h : a.Precedes b)
    (hb : b.span? = some (first, last)) : a.overlaps first last = false := by
  cases ha : a.span? with
  | none => rw [overlaps, ha]
  | some range =>
    obtain ⟨first', last'⟩ := range
    rw [Bool.eq_false_iff, Ne, overlaps_iff ha]
    rw [precedes_iff ha hb, Date.lt_def] at h
    simp only [Date.le_def]
    omega

theorem precedes_or_precedes {a b : Block} {first last : Date}
    (hb : b.span? = some (first, last)) (h : a.overlaps first last = false) :
    a.Precedes b ∨ b.Precedes a := by
  cases ha : a.span? with
  | none =>
    left
    intro x hx
    rw [stop?, ha] at hx
    exact absurd hx (by simp)
  | some range =>
    obtain ⟨first', last'⟩ := range
    rw [precedes_iff ha hb, precedes_iff hb ha]
    have hno : ¬(first' ≤ last ∧ first ≤ last') := by
      rw [← overlaps_iff ha, h]
      simp
    simp only [Date.le_def, Date.lt_def] at hno ⊢
    omega

end Block

namespace Course

/-- Blocks as a course keeps them: each has a date, its dates are in order, and
each ends before the next begins. -/
structure InOrder (blocks : List Block) : Prop where
  dated : ∀ b ∈ blocks, b.span?.isSome = true
  ordered : ∀ b ∈ blocks, b.Ordered
  ascending : blocks.Pairwise Block.Precedes

namespace InOrder

variable {blocks : List Block}

theorem nil : InOrder [] := ⟨by simp, by simp, List.Pairwise.nil⟩

theorem sublist {others : List Block} (h : InOrder blocks) (hs : others.Sublist blocks) :
    InOrder others :=
  ⟨fun b hb => h.dated b (hs.subset hb), fun b hb => h.ordered b (hs.subset hb),
    h.ascending.sublist hs⟩

theorem span (h : InOrder blocks) {b : Block} (hb : b ∈ blocks) :
    ∃ first last, b.span? = some (first, last) ∧ first ≤ last := by
  obtain ⟨⟨first, last⟩, hs⟩ := Option.isSome_iff_exists.1 (h.dated b hb)
  exact ⟨first, last, hs, (h.ordered b hb).span_le hs⟩

theorem replace {front back : List Block} {a b : Block} (h : InOrder (front ++ a :: back))
    (hfirst : b.first = a.first) (hlast : b.last = a.last) : InOrder (front ++ b :: back) := by
  have hspan := Block.span?_congr hfirst hlast
  have ha : a ∈ front ++ a :: back := by simp
  have hmem : ∀ x ∈ front ++ b :: back, x = b ∨ x ∈ front ++ a :: back := by
    intro x hx
    simp only [List.mem_append, List.mem_cons] at hx ⊢
    rcases hx with hx | hx | hx <;> simp [hx]
  refine ⟨?_, ?_, ?_⟩
  · intro x hx
    rcases hmem x hx with rfl | hx
    · rw [hspan]
      exact h.dated a ha
    · exact h.dated x hx
  · intro x hx
    rcases hmem x hx with rfl | hx
    · rw [Block.Ordered, hfirst, hlast]
      exact h.ordered a ha
    · exact h.ordered x hx
  · have hasc := h.ascending
    rw [List.pairwise_append, List.pairwise_cons] at hasc
    obtain ⟨hfront, ⟨hback, hrest⟩, hcross⟩ := hasc
    refine List.pairwise_append.2 ⟨hfront, List.pairwise_cons.2 ⟨?_, hrest⟩, ?_⟩
    · intro y hy x hx z hz
      rw [Block.stop?, hspan] at hx
      exact hback y hy x hx z hz
    · intro x hx y hy
      rcases List.mem_cons.1 hy with rfl | hy
      · intro z hz w hw
        rw [Block.start?, hspan] at hw
        exact hcross x hx a List.mem_cons_self z hz w hw
      · exact hcross x hx y (List.mem_cons_of_mem a hy)

theorem eq_of_covers (h : InOrder blocks) {a b : Block} {date : Date} (ha : a ∈ blocks)
    (hb : b ∈ blocks) (hac : a.covers date = true) (hbc : b.covers date = true) : a = b := by
  obtain ⟨first, last, has, -⟩ := h.span ha
  obtain ⟨first', last', hbs, -⟩ := h.span hb
  have hac := (Block.covers_iff has).1 hac
  have hbc := (Block.covers_iff hbs).1 hbc
  rcases eq_or_of_pairwise h.ascending ha hb with heq | hp | hp
  · exact heq
  · rw [Block.precedes_iff has hbs] at hp
    simp only [Date.le_def, Date.lt_def] at *
    omega
  · rw [Block.precedes_iff hbs has] at hp
    simp only [Date.le_def, Date.lt_def] at *
    omega

theorem starts_ascending (h : InOrder blocks) :
    blocks.Pairwise fun a b => ∀ x ∈ a.start?, ∀ y ∈ b.start?, x < y := by
  refine h.ascending.imp_of_mem ?_
  intro a b ha hb hp x hx y hy
  obtain ⟨first, last, has, hle⟩ := h.span ha
  obtain ⟨first', last', hbs, -⟩ := h.span hb
  rw [Block.precedes_iff has hbs] at hp
  rw [Block.start?_eq has] at hx
  rw [Block.start?_eq hbs] at hy
  cases hx
  cases hy
  simp only [Date.le_def, Date.lt_def] at *
  omega

end InOrder

/-! ## Where a block is put -/

theorem beginsBefore_iff {b other : Block} {first last first' last' : Date}
    (hb : b.span? = some (first, last)) (ho : other.span? = some (first', last')) :
    beginsBefore b other = true ↔ first' < first := by
  simp [beginsBefore, Block.start?_eq hb, Block.start?_eq ho]

/-- A block that overlaps none of the others is put behind those that it comes
after and in front of those that it comes before. -/
theorem insertSorted_eq {b : Block} {first last : Date} {blocks : List Block}
    (h : InOrder blocks) (hb : b.span? = some (first, last)) (hle : first ≤ last)
    (hno : ∀ other ∈ blocks, other.overlaps first last = false) :
    ∃ before after, blocks = before ++ after ∧ insertSorted b blocks = before ++ b :: after ∧
      (∀ other ∈ before, other.Precedes b) ∧ ∀ other ∈ after, b.Precedes other := by
  have hlost : blocks.Pairwise fun x y => beginsBefore b y = true → beginsBefore b x = true := by
    refine h.starts_ascending.imp_of_mem ?_
    intro x y hx hy hp hby
    obtain ⟨xf, xl, hxs, -⟩ := h.span hx
    obtain ⟨yf, yl, hys, -⟩ := h.span hy
    rw [beginsBefore_iff hb hys] at hby
    rw [beginsBefore_iff hb hxs]
    exact Date.lt_trans (hp xf (Block.start?_eq hxs) yf (Block.start?_eq hys)) hby
  obtain ⟨before, after, rfl, hbisect, hbefore, hafter⟩ := exists_bisect_split hlost
  refine ⟨before, after, rfl, ?_, ?_, ?_⟩
  · rw [insertSorted, hbisect, insertIdx_length_append]
  · intro other ho
    have hmem := List.mem_append_left after ho
    obtain ⟨first', last', hos, -⟩ := h.span hmem
    have hstart := (beginsBefore_iff hb hos).1 (hbefore other ho)
    rcases Block.precedes_or_precedes hb (hno other hmem) with hp | hp
    · exact hp
    · rw [Block.precedes_iff hb hos] at hp
      simp only [Date.le_def, Date.lt_def] at *
      omega
  · intro other ho
    have hmem := List.mem_append_right before ho
    obtain ⟨first', last', hos, hle'⟩ := h.span hmem
    have hstart : ¬first' < first := by
      rw [← beginsBefore_iff hb hos, hafter other ho]
      simp
    rcases Block.precedes_or_precedes hb (hno other hmem) with hp | hp
    · rw [Block.precedes_iff hos hb] at hp
      simp only [Date.le_def, Date.lt_def] at *
      omega
    · exact hp

theorem insertSorted_of_precedes {b : Block} {first last : Date} {blocks : List Block}
    (h : InOrder blocks) (hb : b.span? = some (first, last)) (hle : first ≤ last)
    (hbefore : ∀ other ∈ blocks, other.Precedes b) : insertSorted b blocks = blocks ++ [b] := by
  obtain ⟨before, after, rfl, heq, -, hafter⟩ := insertSorted_eq h hb hle fun other ho =>
    (hbefore other ho).overlaps_eq_false hb
  cases after with
  | nil => rw [heq, List.append_nil]
  | cons other after =>
    have ho : other ∈ before ++ other :: after := by simp
    obtain ⟨first', last', hos, hle'⟩ := h.span ho
    have hfront := hbefore other ho
    have hback := hafter other List.mem_cons_self
    rw [Block.precedes_iff hos hb] at hfront
    rw [Block.precedes_iff hb hos] at hback
    simp only [Date.le_def, Date.lt_def] at *
    omega

theorem insertSorted_perm {b : Block} {first last : Date} {blocks : List Block}
    (h : InOrder blocks) (hb : b.span? = some (first, last)) (hle : first ≤ last)
    (hno : ∀ other ∈ blocks, other.overlaps first last = false) :
    (insertSorted b blocks).Perm (b :: blocks) := by
  obtain ⟨before, after, rfl, heq, -, -⟩ := insertSorted_eq h hb hle hno
  rw [heq]
  exact List.perm_middle

theorem InOrder.insertSorted {b : Block} {first last : Date} {blocks : List Block}
    (h : InOrder blocks) (hb : b.span? = some (first, last)) (hord : b.Ordered)
    (hno : ∀ other ∈ blocks, other.overlaps first last = false) :
    InOrder (insertSorted b blocks) := by
  have hperm := insertSorted_perm h hb (hord.span_le hb) hno
  refine ⟨?_, ?_, ?_⟩
  · intro x hx
    rcases List.mem_cons.1 (hperm.mem_iff.1 hx) with rfl | hx
    · rw [hb, Option.isSome_some]
    · exact h.dated x hx
  · intro x hx
    rcases List.mem_cons.1 (hperm.mem_iff.1 hx) with rfl | hx
    · exact hord
    · exact h.ordered x hx
  · obtain ⟨before, after, rfl, heq, hbefore, hafter⟩ :=
      insertSorted_eq h hb (hord.span_le hb) hno
    obtain ⟨hys, hzs, hcross⟩ := List.pairwise_append.1 h.ascending
    rw [heq]
    refine List.pairwise_append.2 ⟨hys, List.pairwise_cons.2 ⟨hafter, hzs⟩, ?_⟩
    intro x hx y hy
    rcases List.mem_cons.1 hy with rfl | hy
    · exact hbefore x hx
    · exact hcross x hx y hy

/-! ## The block on a date -/

theorem beginsBy_iff {b : Block} {first last date : Date} (h : b.span? = some (first, last)) :
    beginsBy date b = true ↔ first ≤ date := by
  simp [beginsBy, Block.start?_eq h]

/-- Of blocks that have begun by a date only the last one can cover it. -/
theorem not_covers_of_mem_init {blocks : List Block} {l : Block} {date : Date}
    (h : InOrder (blocks ++ [l])) (hl : beginsBy date l = true) {b : Block} (hb : b ∈ blocks) :
    b.covers date = false := by
  obtain ⟨first, last, hbs, -⟩ := h.span (List.mem_append_left [l] hb)
  obtain ⟨first', last', hls, -⟩ := h.span (List.mem_append_right blocks (List.mem_singleton.2 rfl))
  have hp := (List.pairwise_append.1 h.ascending).2.2 b hb l (List.mem_singleton.2 rfl)
  rw [Block.precedes_iff hbs hls] at hp
  rw [beginsBy_iff hls] at hl
  rw [Bool.eq_false_iff, Ne, Block.covers_iff hbs]
  simp only [Date.le_def, Date.lt_def] at *
  omega

theorem blockOn?_eq_find? {c : Course} (h : InOrder c.blocks) (date : Date) :
    c.blockOn? date = c.blocks.find? (·.covers date) := by
  have hlost : c.blocks.Pairwise fun x y => beginsBy date y = true → beginsBy date x = true := by
    refine h.starts_ascending.imp_of_mem ?_
    intro x y hx hy hp hby
    obtain ⟨xf, xl, hxs, -⟩ := h.span hx
    obtain ⟨yf, yl, hys, -⟩ := h.span hy
    rw [beginsBy_iff hys] at hby
    rw [beginsBy_iff hxs]
    have hlt := hp xf (Block.start?_eq hxs) yf (Block.start?_eq hys)
    simp only [Date.le_def, Date.lt_def] at *
    omega
  obtain ⟨begun, later, hblocks, hbisect, hbegun, hlater⟩ := exists_bisect_split hlost
  rw [hblocks] at h
  have hnone : later.find? (·.covers date) = none := by
    rw [List.find?_eq_none]
    intro b hb hc
    obtain ⟨first, last, hbs, -⟩ := h.span (List.mem_append_right begun hb)
    have hfalse := hlater b hb
    rw [Bool.eq_false_iff, Ne, beginsBy_iff hbs] at hfalse
    exact hfalse ((Block.covers_iff hbs).1 hc).1
  unfold blockOn?
  rw [hbisect, hblocks, List.find?_append, hnone, Option.or_none]
  rcases List.eq_nil_or_concat begun with rfl | ⟨init, l, rfl⟩
  · rfl
  · rw [List.concat_eq_append] at *
    have hinit : init.find? (·.covers date) = none := by
      rw [List.find?_eq_none]
      intro b hb
      rw [not_covers_of_mem_init (h.sublist (List.sublist_append_left _ later))
        (hbegun l (List.mem_append_right init (List.mem_singleton.2 rfl))) hb]
      simp
    rw [List.find?_append, hinit, Option.none_or, List.length_append, List.length_singleton]
    show ((init ++ [l] ++ later)[init.length]?).filter (·.covers date) = _
    rw [List.append_assoc, List.getElem?_append_right (Nat.le_refl _), Nat.sub_self,
      List.cons_append, List.getElem?_cons_zero, Option.filter_some, List.find?_singleton]

theorem InOrder.find?_covers {blocks : List Block} {b : Block} {date : Date}
    (h : InOrder blocks) (hb : b ∈ blocks) (hcovers : b.covers date = true) :
    blocks.find? (·.covers date) = some b := by
  cases hfind : blocks.find? (·.covers date) with
  | none => exact absurd hcovers (List.find?_eq_none.1 hfind b hb)
  | some other =>
    have hother := List.find?_some hfind
    rw [h.eq_of_covers (List.mem_of_find?_eq_some hfind) hb hother hcovers]

theorem blockOn?_isSome_iff {c : Course} (h : InOrder c.blocks) {date : Date} :
    (c.blockOn? date).isSome = true ↔ ∃ b ∈ c.blocks, b.covers date = true := by
  rw [blockOn?_eq_find? h, List.find?_isSome]

end Course

end PressCalendar
