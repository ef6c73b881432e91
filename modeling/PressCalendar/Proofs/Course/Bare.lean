/-
Courses without the numbers of their blocks.

A course goes by the places, dates and issues of its blocks; the numbers only say which
block is meant.  `bare` is what is left without them.  Two courses that are equal in
this way stay equal under every operation that is asked of the block at the same place
of both, and fail for the same reason; `Counterparts.agree_redate` is the case in which
the block moves.
-/
import Mathlib.Data.List.InsertIdx
import PressCalendar.Proofs.Course.Invariant

namespace PressCalendar

/-! ## Halving -/

theorem bisect_of_none {α : Type} {p : α → Bool} {xs : List α} (h : xs[xs.length / 2]? = none) :
    bisect p xs = 0 := by
  rw [bisect]
  split
  · rfl
  · case h_2 h' => exact absurd (h.symm.trans h') (by simp)

theorem bisect_of_some {α : Type} {p : α → Bool} {xs : List α} {x : α}
    (h : xs[xs.length / 2]? = some x) :
    bisect p xs = if p x then xs.length / 2 + 1 + bisect p (xs.drop (xs.length / 2 + 1))
      else bisect p (xs.take (xs.length / 2)) := by
  rw [bisect]
  split
  · case h_1 h' => exact absurd (h.symm.trans h') (by simp)
  · case h_2 y h' =>
    obtain rfl : x = y := Option.some.inj (h.symm.trans h')
    rfl

theorem getElem?_middle_map {α β : Type} (f : α → β) (xs : List α) :
    (xs.map f)[(xs.map f).length / 2]? = (xs[xs.length / 2]?).map f := by
  rw [List.getElem?_map, List.length_map]

theorem bisect_map {α β : Type} (f : α → β) (p : β → Bool) (xs : List α) :
    bisect p (xs.map f) = bisect (p ∘ f) xs := by
  fun_induction bisect (p ∘ f) xs with
  | case1 xs h =>
    have hmiddle := getElem?_middle_map f xs
    rw [h] at hmiddle
    exact bisect_of_none hmiddle
  | case2 xs x h hp ih =>
    have hmiddle := getElem?_middle_map f xs
    rw [h] at hmiddle
    rw [Function.comp_apply] at hp
    rw [bisect_of_some hmiddle, if_pos hp, List.length_map, ← List.map_drop, ih]
  | case3 xs x h hp ih =>
    have hmiddle := getElem?_middle_map f xs
    rw [h] at hmiddle
    rw [Function.comp_apply] at hp
    rw [bisect_of_some hmiddle, if_neg hp, List.length_map, ← List.map_take, ih]

theorem bisect_le_length {α : Type} (p : α → Bool) (xs : List α) : bisect p xs ≤ xs.length := by
  fun_induction bisect p xs with
  | case1 => exact Nat.zero_le _
  | case2 xs x h hp ih =>
    have hlt := (List.getElem?_eq_some_iff.1 h).1
    rw [List.length_drop] at ih
    omega
  | case3 xs x h hp ih =>
    rw [List.length_take] at ih
    omega

/-! ## Blocks -/

namespace Block

/-- A block without its number. -/
def bare (b : Block) : Block := { b with id := 0 }

theorem span?_bare (b : Block) : b.bare.span? = b.span? := rfl

theorem exists_withId {a b : Block} (h : a.bare = b.bare) : ∃ id, b = { a with id } := by
  cases a
  cases b
  simp only [bare, mk.injEq, true_and] at h
  obtain ⟨rfl, rfl, rfl⟩ := h
  exact ⟨_, rfl⟩

theorem alike_iff {a b : Block} : a.alike b = true ↔ a.bare = b.bare := by
  simp [alike, bare, and_assoc]

theorem dating_withId (d : Dating) (b : Block) (id : Nat) :
    d.apply { b with id } = (d.apply b).map fun changed => { changed with id } := by
  have hdated : d.dated { b with id } = { d.dated b with id } := by cases d <;> rfl
  rw [dating_eq, dating_eq, hdated]
  rcases (d.dated b).ordered_or_reversed with h | ⟨first, last, hfirst, hlast, hlt⟩
  · rw [h.checked_eq, Ordered.checked_eq (b := { d.dated b with id }) h]
    rfl
  · rw [checked_of_reversed hfirst hlast hlt,
      checked_of_reversed (b := { d.dated b with id }) hfirst hlast hlt]
    rfl

theorem exists_span_of_isComplete {b : Block} (h : b.isComplete = true) :
    ∃ first last, b.span? = some (first, last) := by
  obtain ⟨hfirst, hlast⟩ := Bool.and_eq_true_iff.1 h
  obtain ⟨first, hfirst⟩ := Option.isSome_iff_exists.1 hfirst
  obtain ⟨last, hlast⟩ := Option.isSome_iff_exists.1 hlast
  exact ⟨first, last, by rw [span?, hfirst, hlast]⟩

theorem isComplete_dating {d : Dating} {b changed : Block} (hb : b.isComplete = true)
    (h : d.apply b = .ok changed) : changed.isComplete = true := by
  obtain ⟨-, rfl⟩ := dating_eq_ok_iff.1 h
  obtain ⟨hfirst, hlast⟩ := Bool.and_eq_true_iff.1 hb
  cases d with
  | first date => exact hlast
  | last date => exact Bool.and_eq_true_iff.2 ⟨hfirst, rfl⟩
  | period start stop => rfl

/-- The dates of two blocks that differ in their numbers can be changed alike. -/
theorem agree_dating {a b : Block} (h : a.bare = b.bare) (hcomplete : a.isComplete = true)
    (d : Dating) :
    Agree (fun a' b' => a'.bare = b'.bare ∧ a'.isComplete = true ∧ a'.id = a.id ∧ b'.id = b.id)
      (d.apply a) (d.apply b) := by
  obtain ⟨id, rfl⟩ := exists_withId h
  rw [dating_withId d a id]
  cases ha : d.apply a with
  | error cause => exact .error cause
  | ok changed =>
    have hchanged := isComplete_dating hcomplete ha
    obtain ⟨first, last, rfl, -, -⟩ := dating_cases ha
    exact .ok ⟨rfl, hchanged, rfl, rfl⟩

theorem agree_withPeriod {a b : Block} (h : a.bare = b.bare) (first last : Date) :
    Agree (fun a' b' => a'.bare = b'.bare ∧ a'.isComplete = true ∧ a'.id = a.id ∧ b'.id = b.id)
      (a.withPeriod first last) (b.withPeriod first last) := by
  obtain ⟨id, rfl⟩ := exists_withId h
  refine (Agree.of_eq rfl).bind (r := Eq) ?_
  rintro _ _ rfl
  exact .ok ⟨rfl, rfl, rfl, rfl⟩

end Block

/-! ## Courses -/

namespace Course

/-- The blocks of a course without their numbers. -/
def bare (c : Course) : List Block := c.blocks.map Block.bare

theorem alike_iff {c d : Course} : c.alike d = true ↔ c.bare = d.bare := by
  unfold alike bare
  generalize c.blocks = xs
  generalize d.blocks = ys
  induction xs generalizing ys with
  | nil => cases ys <;> simp [List.isEqv]
  | cons x xs ih =>
    cases ys with
    | nil => simp [List.isEqv]
    | cons y ys => simp [List.isEqv, ih, Block.alike_iff]

theorem checkOverlap_bare (others : List Block) (first last : Date) :
    checkOverlap (others.map Block.bare) first last = checkOverlap others first last := by
  have hfind : (others.map Block.bare).find? (·.overlaps first last) =
      (others.find? (·.overlaps first last)).map Block.bare := List.find?_map
  unfold checkOverlap
  rw [hfind]
  cases others.find? (·.overlaps first last) <;> rfl

theorem checkOverlap_congr {xs ys : List Block} (h : xs.map Block.bare = ys.map Block.bare)
    (first last : Date) : checkOverlap xs first last = checkOverlap ys first last := by
  rw [← checkOverlap_bare, h, checkOverlap_bare]

theorem bisect_beginsBefore_bare (b : Block) (blocks : List Block) :
    bisect (beginsBefore b.bare) (blocks.map Block.bare) = bisect (beginsBefore b) blocks :=
  bisect_map Block.bare (beginsBefore b.bare) blocks

theorem last?_congr {c d : Course} (h : c.bare = d.bare) : c.last? = d.last? := by
  have hstops : ∀ c : Course, c.blocks.filterMap Block.stop? = c.bare.filterMap Block.stop? := by
    intro c
    rw [bare, List.filterMap_map]
    rfl
  rw [last?, last?, hstops, h, ← hstops]

/-! ## The block at a place -/

theorem Valid.index?_eq {c : Course} (h : c.Valid) {i : Nat} {b : Block}
    (hb : c.blocks[i]? = some b) : c.index? b.id = some i := by
  obtain ⟨hi, rfl⟩ := List.getElem?_eq_some_iff.1 hb
  refine List.findIdx?_eq_some_iff_getElem.2 ⟨hi, beq_self_eq_true _, ?_⟩
  intro j hj hsame
  have hdistinct := List.pairwise_iff_getElem.1 (List.pairwise_map.1 h.distinct)
  exact hdistinct j i (by omega) hi hj (beq_iff_eq.1 hsame)

theorem Valid.block?_eq {c : Course} (h : c.Valid) {i : Nat} {b : Block}
    (hb : c.blocks[i]? = some b) : c.block? b.id = some b := by
  rw [Course.block?_eq, h.index?_eq hb, Option.bind_some, hb]

theorem Valid.modify_eq {c : Course} (h : c.Valid) {i : Nat} {b : Block}
    (hb : c.blocks[i]? = some b) (changed : Block) :
    (c.modify b.id fun _ => changed) = { c with blocks := c.blocks.set i changed } := by
  unfold modify
  rw [h.index?_eq hb, List.set_eq_modify]

/-- A block of an unused number is refused only because of its dates. -/
theorem add_of_fresh {c : Course} {b : Block} {first last : Date}
    (hspan : b.span? = some (first, last)) (hfresh : ∀ other ∈ c.blocks, other.id ≠ b.id) :
    c.add b = (checkOverlap c.blocks first last).map fun _ =>
      (b.id, { c with blocks := insertSorted b c.blocks, lastId := max c.lastId b.id }) := by
  rw [add_of_dated hspan, numberFor_of_fresh hfresh]

/-! ## Twins -/

/-- Two courses that differ in nothing but the numbers of their blocks, all of which are
complete. -/
structure Twins (c d : Course) : Prop where
  bare : c.bare = d.bare
  complete : ∀ b ∈ c.blocks, b.isComplete = true

/-- Blocks at the same place of twins. -/
structure Counterparts (c d : Course) (x y : Block) : Prop extends Twins c d where
  place : ∃ i : Nat, c.blocks[i]? = some x ∧ d.blocks[i]? = some y

section

variable {c d : Course} {x y : Block}

/-- Only the blocks count. -/
theorem Twins.congr {c' d' : Course} (h : c.Twins d) (hc : c'.blocks = c.blocks)
    (hd : d'.blocks = d.blocks) : c'.Twins d' := by
  refine ⟨?_, ?_⟩
  · rw [Course.bare, Course.bare, hc, hd]
    exact h.bare
  · rw [hc]
    exact h.complete

theorem Counterparts.congr {c' d' : Course} (h : c.Counterparts d x y)
    (hc : c'.blocks = c.blocks) (hd : d'.blocks = d.blocks) : c'.Counterparts d' x y := by
  refine ⟨h.toTwins.congr hc hd, ?_⟩
  rw [hc, hd]
  exact h.place

theorem Twins.symm (h : c.Twins d) : d.Twins c := by
  refine ⟨h.bare.symm, ?_⟩
  intro b hb
  have hmem : b.bare ∈ c.bare := h.bare ▸ List.mem_map_of_mem hb
  obtain ⟨b', hb', heq⟩ := List.mem_map.1 hmem
  obtain ⟨id, rfl⟩ := Block.exists_withId heq
  exact h.complete b' hb'

theorem Twins.length_eq (h : c.Twins d) : c.blocks.length = d.blocks.length := by
  have hlength := congrArg List.length h.bare
  rwa [Course.bare, Course.bare, List.length_map, List.length_map] at hlength

theorem Twins.counterparts (h : c.Twins d) {i : Nat} (hx : c.blocks[i]? = some x) :
    ∃ y, d.blocks[i]? = some y ∧ c.Counterparts d x y := by
  have hget : c.bare[i]? = d.bare[i]? := by rw [h.bare]
  rw [Course.bare, Course.bare, List.getElem?_map, List.getElem?_map, hx] at hget
  obtain ⟨y, hy, -⟩ := Option.map_eq_some_iff.1 hget.symm
  exact ⟨y, hy, h, i, hx, hy⟩

theorem Counterparts.bare_eq (h : c.Counterparts d x y) : x.bare = y.bare := by
  obtain ⟨i, hx, hy⟩ := h.place
  have hget : c.bare[i]? = d.bare[i]? := by rw [h.bare]
  rw [Course.bare, Course.bare, List.getElem?_map, List.getElem?_map, hx, hy] at hget
  exact Option.some.inj hget

theorem Counterparts.isComplete (h : c.Counterparts d x y) : x.isComplete = true := by
  obtain ⟨i, hx, -⟩ := h.place
  exact h.complete x (List.mem_of_getElem? hx)

/-- Blocks in the place of counterparts. -/
theorem Counterparts.modify (h : c.Counterparts d x y) (hc : c.Valid) (hd : d.Valid)
    {x' y' : Block} (hbare : x'.bare = y'.bare) (hcomplete : x'.isComplete = true) :
    (c.modify x.id fun _ => x').Counterparts (d.modify y.id fun _ => y') x' y' := by
  obtain ⟨i, hx, hy⟩ := h.place
  have hxi := (List.getElem?_eq_some_iff.1 hx).1
  have hyi := (List.getElem?_eq_some_iff.1 hy).1
  rw [hc.modify_eq hx, hd.modify_eq hy]
  refine ⟨⟨?_, ?_⟩, i, List.getElem?_set_self hxi, List.getElem?_set_self hyi⟩
  · show (c.blocks.set i x').map Block.bare = (d.blocks.set i y').map Block.bare
    rw [List.map_set, List.map_set, hbare]
    exact congrArg (·.set i y'.bare) h.bare
  · intro b hb
    rcases List.mem_or_eq_of_mem_set hb with hb | rfl
    · exact h.complete b hb
    · exact hcomplete

theorem bare_eraseIdx (h : c.bare = d.bare) (i : Nat) :
    (c.blocks.eraseIdx i).map Block.bare = (d.blocks.eraseIdx i).map Block.bare := by
  rw [← List.eraseIdx_map, ← List.eraseIdx_map]
  exact congrArg (·.eraseIdx i) h

theorem Twins.eraseIdx (h : c.Twins d) (i : Nat) :
    { c with blocks := c.blocks.eraseIdx i }.Twins { d with blocks := d.blocks.eraseIdx i } where
  bare := bare_eraseIdx h.bare i
  complete b hb := h.complete b (List.mem_of_mem_eraseIdx hb)

/-- Blocks that differ in their numbers are put at the same place. -/
theorem counterparts_insertSorted {c' d' : Course} {xs ys : List Block}
    (hs : xs.map Block.bare = ys.map Block.bare) (hxs : ∀ b ∈ xs, b.isComplete = true)
    (h : x.bare = y.bare) (hx : x.isComplete = true) (hc : c'.blocks = insertSorted x xs)
    (hd : d'.blocks = insertSorted y ys) : c'.Counterparts d' x y := by
  have hplace : bisect (beginsBefore x) xs = bisect (beginsBefore y) ys := by
    rw [← bisect_beginsBefore_bare, h, hs, bisect_beginsBefore_bare]
  have hself : ∀ (b : Block) (blocks : List Block),
      (insertSorted b blocks)[bisect (beginsBefore b) blocks]? = some b := by
    intro b blocks
    rw [insertSorted, List.getElem?_insertIdx_self, if_pos (bisect_le_length _ _)]
  refine ⟨⟨?_, ?_⟩, bisect (beginsBefore x) xs, hc ▸ hself x xs, hplace ▸ hd ▸ hself y ys⟩
  · rw [bare, bare, hc, hd, insertSorted, insertSorted, List.map_insertIdx, List.map_insertIdx,
      hplace, h, hs]
  · intro b hb
    rw [hc] at hb
    rcases List.eq_or_mem_of_mem_insertIdx hb with rfl | hb
    · exact hx
    · exact hxs b hb

/-- Two new blocks that differ in their numbers are added alike. -/
theorem Twins.agree_add (h : c.Twins d) (hc : c.Valid) (hd : d.Valid) (hxy : x.bare = y.bare)
    (hcomplete : x.isComplete = true) (hx : x.id = c.lastId + 1) (hy : y.id = d.lastId + 1) :
    Agree (fun added added' => added.1 = x.id ∧ added'.1 = y.id ∧
      added.2.Counterparts added'.2 x y) (c.newBlock.2.add x) (d.newBlock.2.add y) := by
  obtain ⟨first, last, hspan⟩ := Block.exists_span_of_isComplete hcomplete
  have hspan' : y.span? = some (first, last) := by
    rw [← Block.span?_bare, ← hxy, Block.span?_bare, hspan]
  have hfresh : ∀ {c : Course} {b : Block}, c.Valid → b.id = c.lastId + 1 →
      ∀ other ∈ c.newBlock.2.blocks, other.id ≠ b.id := by
    intro c b hc hb other ho
    have := hc.numbered other ho
    omega
  have hover : checkOverlap c.newBlock.2.blocks first last =
      checkOverlap d.newBlock.2.blocks first last := checkOverlap_congr h.bare first last
  rw [add_of_fresh hspan (hfresh hc hx), add_of_fresh hspan' (hfresh hd hy), hover]
  cases checkOverlap d.newBlock.2.blocks first last with
  | error cause => exact .error cause
  | ok _ =>
    exact .ok ⟨rfl, rfl, counterparts_insertSorted h.bare h.complete hxy hcomplete rfl rfl⟩

/-- Counterparts are given new dates alike. -/
theorem Counterparts.agree_redate (h : c.Counterparts d x y) (hc : c.Valid) (hd : d.Valid)
    (dating : Block.Dating) :
    Agree (fun c' d' => ∃ x' y', c'.Counterparts d' x' y' ∧ x'.id = x.id ∧ y'.id = y.id)
      (dating.ofCourse c x.id) (dating.ofCourse d y.id) := by
  obtain ⟨i, hx, hy⟩ := h.place
  rw [Block.Dating.ofCourse_eq, Block.Dating.ofCourse_eq, changePeriod, changePeriod,
    hc.index?_eq hx, hd.index?_eq hy]
  simp only [hx, hy]
  refine (Block.agree_dating h.bare_eq h.isComplete dating).bind ?_
  rintro x' y' ⟨hbare, hcomplete, hxid, hyid⟩
  obtain ⟨first, last, hspan⟩ := Block.exists_span_of_isComplete hcomplete
  have hspan' : y'.span? = some (first, last) := by
    rw [← Block.span?_bare, ← hbare, Block.span?_bare, hspan]
  have hothers := bare_eraseIdx h.bare i
  rw [hspan, hspan']
  show Agree _ (checkOverlap _ first last >>= _) (checkOverlap _ first last >>= _)
  rw [checkOverlap_congr hothers]
  cases checkOverlap (d.blocks.eraseIdx i) first last with
  | error cause => exact .error cause
  | ok _ =>
    refine .ok ⟨x', y', ?_, hxid, hyid⟩
    refine counterparts_insertSorted hothers ?_ hbare hcomplete rfl rfl
    intro b hb
    exact h.complete b (List.mem_of_mem_eraseIdx hb)

end

end Course
end PressCalendar
