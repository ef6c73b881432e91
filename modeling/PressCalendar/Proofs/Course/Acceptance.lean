/-
Which documents are accepted, and what becomes of them.

A document lists its blocks in any order.  They are added one at a time, and each is
checked against those that are there already; `Course.Holds.foldlM` follows the blocks that
are done through the whole list, and from it comes `Course.ofDocument_eq_ok_iff`, which says
of the document as a whole when it is accepted.  `Course.ofXml_acceptable` adds which course
it stands for.  Nothing in that answer depends on the order of the blocks.
-/
import Mathlib.Data.List.Forall2
import PressCalendar.Proofs.Course.Current
import PressCalendar.Proofs.Course.Exchange

namespace PressCalendar

/-! ## What an element stands for -/

/-- The issue that an element stands for.  A date that is listed both ways is an
addition only. -/
structure IssueElement.Describes (e : IssueElement) (issue : Issue) : Prop where
  heading : issue.heading = e.heading
  pattern : issue.pattern = e.pattern
  additions : ∀ date, date ∈ issue.additions ↔ date ∈ e.additions
  exclusions : ∀ date, date ∈ issue.exclusions ↔ date ∈ e.exclusions ∧ date ∉ e.additions

theorem IssueElement.describes_toIssue (e : IssueElement) : e.Describes e.toIssue := by
  obtain ⟨hheading, hpattern, hadditions, hexclusions⟩ :=
    Issue.foldl_addExclusion e.exclusions (Issue.weekly e.heading e.pattern.toList)
  obtain ⟨hheading', hpattern', hadditions', hexclusions'⟩ :=
    Issue.foldl_addAddition e.additions
      (e.exclusions.foldl Issue.addExclusion (Issue.weekly e.heading e.pattern.toList))
  refine ⟨hheading'.trans hheading, ?_, ?_, ?_⟩
  · exact (hpattern'.trans hpattern).trans e.pattern.ofList_toList
  · intro date
    refine (hadditions' date).trans ?_
    rw [hadditions]
    show (date ∈ DateSet.empty ∧ _) ∨ _ ↔ _
    simp
  · intro date
    refine (hexclusions' date).trans ?_
    rw [hexclusions]
    show (date ∈ DateSet.empty ∨ _) ∧ _ ↔ _
    simp

theorem IssueElement.describes_iff {e : IssueElement} {issue : Issue} :
    e.Describes issue ↔ e.toIssue = issue := by
  constructor
  · intro h
    have hown := e.describes_toIssue
    refine Issue.ext_mem (hown.heading.trans h.heading.symm) (hown.pattern.trans h.pattern.symm)
      ?_ ?_
    · intro date
      rw [hown.additions, h.additions]
    · intro date
      rw [hown.exclusions, h.exclusions]
  · rintro rfl
    exact e.describes_toIssue

namespace BlockElement

structure Describes (e : BlockElement) (b : Block) : Prop where
  first : b.first = some e.first
  last : b.last = some e.last
  issues : List.Forall₂ IssueElement.Describes e.issues b.issues

def Covers (e : BlockElement) (date : Date) : Prop := e.first ≤ date ∧ date ≤ e.last

/-- No day lies within both. -/
def Apart (a b : BlockElement) : Prop := ∀ date, a.Covers date → ¬b.Covers date

/-- The block that is made of an element. -/
def toBlock (e : BlockElement) (id : Nat) : Block :=
  ⟨id, some e.first, some e.last, e.issues.map IssueElement.toIssue⟩

theorem describes_iff {e : BlockElement} {b : Block} :
    e.Describes b ↔ b = e.toBlock b.id := by
  have hissues : List.Forall₂ IssueElement.Describes e.issues b.issues ↔
      e.issues.map IssueElement.toIssue = b.issues := by
    have hrel : IssueElement.Describes = fun e issue => e.toIssue = issue := by
      funext e issue
      exact propext IssueElement.describes_iff
    rw [hrel, ← List.forall₂_eq_eq_eq, List.forall₂_map_left_iff]
  cases b
  constructor
  · rintro ⟨hfirst, hlast, hdescribed⟩
    rw [toBlock, Block.mk.injEq]
    exact ⟨rfl, hfirst, hlast, (hissues.1 hdescribed).symm⟩
  · intro h
    rw [toBlock, Block.mk.injEq] at h
    exact ⟨h.2.1, h.2.2.1, hissues.2 h.2.2.2.symm⟩

theorem describes_toBlock (e : BlockElement) (id : Nat) : e.Describes (e.toBlock id) :=
  describes_iff.2 rfl

theorem Describes.span? {e : BlockElement} {b : Block} (h : e.Describes b) :
    b.span? = some (e.first, e.last) := by
  rw [Block.span?, h.first, h.last]

theorem Describes.covers_iff {e : BlockElement} {b : Block} (h : e.Describes b) (date : Date) :
    b.covers date = true ↔ e.Covers date :=
  Block.covers_iff h.span?

theorem Describes.alike {e : BlockElement} {a b : Block} (ha : e.Describes a)
    (hb : e.Describes b) : a.alike b = true := by
  rw [describes_iff.1 ha, describes_iff.1 hb]
  simp [Block.alike, toBlock]

theorem apart_comm {a b : BlockElement} : a.Apart b ↔ b.Apart a :=
  ⟨fun h date hb ha => h date ha hb, fun h date ha hb => h date hb ha⟩

theorem apart_iff {a b : BlockElement} (ha : a.first ≤ a.last) (hb : b.first ≤ b.last) :
    a.Apart b ↔ ¬(a.first ≤ b.last ∧ b.first ≤ a.last) := by
  rw [← Date.exists_in_both_iff ha hb]
  constructor
  · intro h ⟨date, hcovers, hcovers'⟩
    exact h date hcovers hcovers'
  · intro h date hcovers hcovers'
    exact h ⟨date, hcovers, hcovers'⟩

theorem Describes.overlaps_eq_false_iff {a b : BlockElement} {block : Block}
    (h : a.Describes block) (ha : a.first ≤ a.last) (hb : b.first ≤ b.last) :
    block.overlaps b.first b.last = false ↔ a.Apart b := by
  rw [apart_iff ha hb, Bool.eq_false_iff, Ne, Block.overlaps_iff h.span?]

end BlockElement

/-! ## Documents -/

namespace CourseDocument

/-- The blocks of a document in the order of their first dates. -/
def chronicle (d : CourseDocument) : List BlockElement :=
  d.blocks.mergeSort fun a b => decide (a.first ≤ b.first)

/-- Blocks that a course can have side by side. -/
structure Fits (blocks : List BlockElement) : Prop where
  ordered : ∀ e ∈ blocks, e.first ≤ e.last
  apart : blocks.Pairwise BlockElement.Apart

/-- The documents that are accepted: their blocks fit together, and every process has
something in it, on days of the blocks only. -/
structure Acceptable (d : CourseDocument) : Prop extends Fits d.blocks where
  nonempty : ∀ p ∈ d.processes, p ≠ []
  within : ∀ p ∈ d.processes, ∀ a ∈ p, ∃ e ∈ d.blocks, e.Covers a.date

theorem Fits.sublist {blocks others : List BlockElement} (h : Fits blocks)
    (hs : others.Sublist blocks) : Fits others :=
  ⟨fun e he => h.ordered e (hs.subset he), h.apart.sublist hs⟩

theorem fits_concat {blocks : List BlockElement} {e : BlockElement} (h : Fits blocks) :
    Fits (blocks ++ [e]) ↔ e.first ≤ e.last ∧ ∀ x ∈ blocks, x.Apart e := by
  constructor
  · intro hall
    refine ⟨hall.ordered e (by simp), ?_⟩
    intro x hx
    exact (List.pairwise_append.1 hall.apart).2.2 x hx e (List.mem_singleton.2 rfl)
  · rintro ⟨hle, hapart⟩
    refine ⟨?_, List.pairwise_append.2 ⟨h.apart, List.pairwise_singleton _ e, ?_⟩⟩
    · intro x hx
      rcases List.mem_append.1 hx with hx | hx
      · exact h.ordered x hx
      · rw [List.mem_singleton.1 hx]
        exact hle
    · intro x hx y hy
      rw [List.mem_singleton.1 hy]
      exact hapart x hx

theorem Acceptable.perm {d other : CourseDocument} (h : d.Acceptable)
    (hblocks : other.blocks.Perm d.blocks) (hprocesses : other.processes = d.processes) :
    other.Acceptable where
  ordered e he := h.ordered e (hblocks.mem_iff.1 he)
  apart := (hblocks.pairwise_iff fun hab => BlockElement.apart_comm.1 hab).2 h.apart
  nonempty := by
    rw [hprocesses]
    exact h.nonempty
  within := by
    rw [hprocesses]
    intro p hp a ha
    obtain ⟨e, he, hcovers⟩ := h.within p hp a ha
    exact ⟨e, hblocks.mem_iff.2 he, hcovers⟩

theorem Fits.eq_of_first_eq {blocks : List BlockElement} (h : Fits blocks) {a b : BlockElement}
    (ha : a ∈ blocks) (hb : b ∈ blocks) (heq : a.first = b.first) : a = b := by
  have hown : a.Covers a.first := ⟨Date.le_refl _, h.ordered a ha⟩
  have hother : b.Covers a.first := heq ▸ ⟨Date.le_refl _, h.ordered b hb⟩
  rcases eq_or_of_pairwise h.apart ha hb with hab | hab | hba
  · exact hab
  · exact absurd hother (hab a.first hown)
  · exact absurd hown (hba a.first hother)

theorem chronicle_perm (d : CourseDocument) : d.chronicle.Perm d.blocks :=
  List.mergeSort_perm d.blocks _

theorem pairwise_chronicle (d : CourseDocument) :
    d.chronicle.Pairwise fun a b => a.first ≤ b.first := by
  have htrans : ∀ a b c : BlockElement, decide (a.first ≤ b.first) = true →
      decide (b.first ≤ c.first) = true → decide (a.first ≤ c.first) = true := by
    intro a b c hab hbc
    exact decide_eq_true (Date.le_trans (of_decide_eq_true hab) (of_decide_eq_true hbc))
  have htotal : ∀ a b : BlockElement,
      (decide (a.first ≤ b.first) || decide (b.first ≤ a.first)) = true := by
    intro a b
    rw [Bool.or_eq_true, decide_eq_true_iff, decide_eq_true_iff, Date.le_def, Date.le_def]
    exact Int.le_total _ _
  exact (List.pairwise_mergeSort htrans htotal d.blocks).imp of_decide_eq_true

/-- There is only one order of elements that fit, so any list of them in order is the
chronicle. -/
theorem eq_chronicle {d : CourseDocument} {blocks : List BlockElement} (h : Fits d.blocks)
    (hperm : blocks.Perm d.blocks) (hasc : blocks.Pairwise fun a b => a.first ≤ b.first) :
    blocks = d.chronicle := by
  have hboth := hperm.trans d.chronicle_perm.symm
  refine List.Perm.eq_of_pairwise ?_ hasc d.pairwise_chronicle hboth
  intro a b ha hb hab hba
  exact h.eq_of_first_eq (hperm.mem_iff.1 ha) (d.chronicle_perm.mem_iff.1 hb)
    (Date.le_antisymm hab hba)

end CourseDocument

/-! ## Adding the blocks -/

namespace Course

open CourseDocument (Fits Acceptable)

/-- A block is added if its dates are in order and no other block shares a day with
it.  It gets the next number and goes into its place. -/
theorem addElement_eq_ok_iff {c changed : Course} {e : BlockElement} (h : c.Sound) :
    c.addElement e = .ok changed ↔ e.first ≤ e.last ∧
      (∀ b ∈ c.blocks, b.overlaps e.first e.last = false) ∧
      changed = { c with
        blocks := insertSorted (e.toBlock (c.lastId + 1)) c.blocks, lastId := c.lastId + 1 } := by
  have hfresh : ∀ b ∈ c.blocks, b.id ≠ c.lastId + 1 := by
    intro b hb
    have hle := h.numbered b hb
    omega
  have hadded : e.first ≤ e.last → (∀ b ∈ c.blocks, b.overlaps e.first e.last = false) →
      c.addElement e = .ok { c with
        blocks := insertSorted (e.toBlock (c.lastId + 1)) c.blocks, lastId := c.lastId + 1 } := by
    intro hle hno
    have hadd := add_eq_ok (c := c.newBlock.2) (e.describes_toBlock (c.lastId + 1)).span? hno hfresh
    unfold addElement
    show ((Block.blank (c.lastId + 1)).withPeriod e.first e.last >>= _) = _
    rw [Block.withPeriod_eq_ok hle]
    show (c.newBlock.2.add (e.toBlock (c.lastId + 1)) >>= _) = _
    rw [hadd]
    show Except.ok (Course.mk _ (max (c.lastId + 1) (c.lastId + 1)) _ _) = _
    rw [Nat.max_self]
    rfl
  constructor
  · intro hok
    obtain ⟨b, id, hb, hadd⟩ := addElement_cases hok
    obtain ⟨_, hrange, hb⟩ := bind_eq_ok.1 (show Block.withPeriod _ e.first e.last = .ok b from hb)
    cases hb
    obtain ⟨first, last, lastId, hspan, hno, -⟩ := add_cases h.newBlock.numbered hadd
    cases hspan
    have hle := Block.le_of_checkRange hrange
    rw [hadded hle hno] at hok
    cases hok
    exact ⟨hle, hno, rfl⟩
  · rintro ⟨hle, hno, rfl⟩
    exact hadded hle hno

/-- The elements that a course was made of, with their blocks in order. -/
structure Holds (c : Course) (done : List BlockElement) : Prop extends Plain c where
  fits : Fits done
  elements : ∃ sorted : List BlockElement, sorted.Perm done ∧
    List.Forall₂ BlockElement.Describes sorted c.blocks

theorem holds_empty : empty.Holds [] where
  toPlain := plain_empty
  fits := ⟨by simp, List.Pairwise.nil⟩
  elements := ⟨[], List.Perm.refl [], .nil⟩

namespace Holds

variable {c changed : Course} {done : List BlockElement} {e : BlockElement}

theorem exists_block (h : c.Holds done) {x : BlockElement} (hx : x ∈ done) :
    ∃ b ∈ c.blocks, x.Describes b := by
  obtain ⟨sorted, hperm, hall⟩ := h.elements
  obtain ⟨i, hi, rfl⟩ := List.getElem_of_mem (hperm.mem_iff.2 hx)
  have hi' : i < c.blocks.length := hall.length_eq ▸ hi
  exact ⟨c.blocks[i], List.getElem_mem hi', List.forall₂_iff_get.1 hall |>.2 i hi hi'⟩

theorem exists_element (h : c.Holds done) {b : Block} (hb : b ∈ c.blocks) :
    ∃ x ∈ done, x.Describes b := by
  obtain ⟨sorted, hperm, hall⟩ := h.elements
  obtain ⟨i, hi, rfl⟩ := List.getElem_of_mem hb
  have hi' : i < sorted.length := hall.length_eq ▸ hi
  exact ⟨sorted[i], hperm.mem_iff.1 (List.getElem_mem hi'),
    List.forall₂_iff_get.1 hall |>.2 i hi' hi⟩

/-- An element can be added if it fits to those that are done. -/
theorem addElement_iff (h : c.Holds done) :
    (∃ changed, c.addElement e = .ok changed) ↔ Fits (done ++ [e]) := by
  rw [CourseDocument.fits_concat h.fits]
  simp only [addElement_eq_ok_iff h.toSound, exists_and_left, exists_eq, and_true]
  refine and_congr_right fun hle => ?_
  constructor
  · intro hno x hx
    obtain ⟨b, hb, hdescribes⟩ := h.exists_block hx
    exact (hdescribes.overlaps_eq_false_iff (h.fits.ordered x hx) hle).1 (hno b hb)
  · intro hapart b hb
    obtain ⟨x, hx, hdescribes⟩ := h.exists_element hb
    exact (hdescribes.overlaps_eq_false_iff (h.fits.ordered x hx) hle).2 (hapart x hx)

theorem addElement (h : c.Holds done) (hadd : c.addElement e = .ok changed) :
    changed.Holds (done ++ [e]) := by
  refine ⟨h.toPlain.addElement hadd, h.addElement_iff.1 ⟨changed, hadd⟩, ?_⟩
  obtain ⟨hle, hno, rfl⟩ := (addElement_eq_ok_iff h.toSound).1 hadd
  obtain ⟨before, after, hblocks, hinsert, -, -⟩ := insertSorted_eq h.toInOrder
    (e.describes_toBlock (c.lastId + 1)).span? hle hno
  obtain ⟨sorted, hperm, hall⟩ := h.elements
  rw [hblocks] at hall
  obtain ⟨front, back, hfront, hback, rfl⟩ :
      ∃ front back, List.Forall₂ BlockElement.Describes front before ∧
        List.Forall₂ BlockElement.Describes back after ∧ sorted = front ++ back :=
    ⟨_, _, List.forall₂_take_append _ _ _ hall, List.forall₂_drop_append _ _ _ hall,
      (List.take_append_drop _ _).symm⟩
  refine ⟨front ++ e :: back, ?_, ?_⟩
  · refine List.perm_middle.trans ?_
    exact (hperm.cons e).trans (List.perm_append_singleton e done).symm
  · show List.Forall₂ _ _ (insertSorted _ c.blocks)
    rw [hinsert]
    exact List.rel_append hfront (.cons (e.describes_toBlock (c.lastId + 1)) hback)

/-- The elements come out in the order of their first dates. -/
theorem chronicle {d : CourseDocument} (h : c.Holds d.blocks) :
    List.Forall₂ BlockElement.Describes d.chronicle c.blocks := by
  obtain ⟨sorted, hperm, hall⟩ := h.elements
  have hasc : sorted.Pairwise fun a b => a.first ≤ b.first := by
    rw [List.pairwise_iff_getElem]
    intro i j hi hj hij
    obtain ⟨hlen, hget⟩ := List.forall₂_iff_get.1 hall
    have hstart := List.pairwise_iff_getElem.1 h.starts_ascending i j (hlen ▸ hi) (hlen ▸ hj) hij
    have hlt := hstart _ (Block.start?_eq (hget i hi (hlen ▸ hi)).span?) _
      (Block.start?_eq (hget j hj (hlen ▸ hj)).span?)
    exact Date.le_of_lt hlt
  rw [← CourseDocument.eq_chronicle h.fits hperm hasc]
  exact hall

end Holds

/-- Adding a list of elements succeeds exactly if they fit together with those that
are done. -/
theorem Holds.foldlM_iff {c : Course} {done rest : List BlockElement} (h : c.Holds done) :
    (∃ d, rest.foldlM Course.addElement c = .ok d) ↔ Fits (done ++ rest) := by
  induction rest generalizing c done with
  | nil =>
    rw [List.append_nil]
    exact ⟨fun _ => h.fits, fun _ => ⟨c, rfl⟩⟩
  | cons e rest ih =>
    rw [List.foldlM_cons]
    simp only [bind_eq_ok]
    constructor
    · rintro ⟨d, changed, hadd, hrest⟩
      rw [List.append_cons]
      exact (ih (h.addElement hadd)).1 ⟨d, hrest⟩
    · intro hfits
      rw [List.append_cons] at hfits
      obtain ⟨changed, hadd⟩ :=
        h.addElement_iff.2 (hfits.sublist (List.sublist_append_left _ rest))
      obtain ⟨d, hrest⟩ := (ih (h.addElement hadd)).2 hfits
      exact ⟨d, changed, hadd, hrest⟩

theorem Holds.foldlM {c d : Course} {done rest : List BlockElement} (h : c.Holds done)
    (hfold : rest.foldlM Course.addElement c = .ok d) : d.Holds (done ++ rest) := by
  induction rest generalizing c done with
  | nil =>
    cases hfold
    rw [List.append_nil]
    exact h
  | cons e rest ih =>
    rw [List.foldlM_cons] at hfold
    obtain ⟨changed, hadd, hrest⟩ := bind_eq_ok.1 hfold
    rw [List.append_cons]
    exact ih (h.addElement hadd) hrest

/-! ## Documents as a whole -/

theorem checkProcess_iff {c : Course} {d : CourseDocument} (h : c.Holds d.blocks)
    (p : Process) :
    c.checkProcess p = .ok () ↔ p ≠ [] ∧ ∀ a ∈ p, ∃ e ∈ d.blocks, e.Covers a.date := by
  rw [checkProcess_eq_ok]
  refine and_congr_right fun _ => forall₂_congr fun a _ => ?_
  rw [blockOn?_isSome_iff h.toInOrder]
  constructor
  · rintro ⟨b, hb, hcovers⟩
    obtain ⟨e, he, hdescribes⟩ := h.exists_element hb
    exact ⟨e, he, (hdescribes.covers_iff a.date).1 hcovers⟩
  · rintro ⟨e, he, hcovers⟩
    obtain ⟨b, hb, hdescribes⟩ := h.exists_block he
    exact ⟨b, hb, (hdescribes.covers_iff a.date).2 hcovers⟩

theorem ofDocument_eq_ok_iff {d : CourseDocument} :
    (∃ c, ofDocument d = .ok c) ↔ d.Acceptable := by
  simp only [ofDocument_eq_ok]
  constructor
  · rintro ⟨_, plain, hfold, hcheck, -⟩
    have hplain : plain.Holds d.blocks := holds_empty.foldlM hfold
    have hprocess := fun p hp => (checkProcess_iff hplain p).1 (hcheck p hp)
    exact ⟨hplain.fits, fun p hp => (hprocess p hp).1, fun p hp => (hprocess p hp).2⟩
  · intro h
    obtain ⟨plain, hfold⟩ := holds_empty.foldlM_iff.2 h.toFits
    have hplain : plain.Holds d.blocks := holds_empty.foldlM hfold
    exact ⟨_, plain, hfold,
      fun p hp => (checkProcess_iff hplain p).2 ⟨h.nonempty p hp, h.within p hp⟩, rfl⟩

/-- The course a document stands for: its blocks in the order of their first dates, and
its processes both as the current and as the imported ones. -/
structure Reflects (c : Course) (d : CourseDocument) : Prop where
  blocks : List.Forall₂ BlockElement.Describes d.chronicle c.blocks
  processes : c.processes = d.processes
  imported : c.imported = if d.processes = [] then none else some d.processes

theorem reflects_of_ofDocument {d : CourseDocument} {c : Course} (h : ofDocument d = .ok c) :
    c.Reflects d := by
  obtain ⟨plain, hfold, -, rfl⟩ := ofDocument_eq_ok.1 h
  have hplain : plain.Holds d.blocks := holds_empty.foldlM hfold
  by_cases hempty : d.processes = []
  · rw [if_pos (List.isEmpty_iff.2 hempty)]
    exact ⟨hplain.chronicle, hplain.unsplit.trans hempty.symm,
      hplain.unread.trans (if_pos hempty).symm⟩
  · rw [if_neg (by simpa using hempty)]
    exact ⟨hplain.chronicle, rfl, (if_neg hempty).symm⟩

theorem exists_malformed_of_checkProcess {c : Course} {p : Process} {cause : Error}
    (h : c.checkProcess p = .error cause) : ∃ detail, cause = .malformedCourse detail := by
  unfold checkProcess at h
  split at h
  · cases h
    exact ⟨_, rfl⟩
  · split at h
    · cases h
      exact ⟨_, rfl⟩
    · exact absurd h (by simp)

/-- Whatever keeps a document from being accepted is told as a fault of the document. -/
theorem exists_malformed_of_ofDocument {d : CourseDocument} {cause : Error}
    (h : ofDocument d = .error cause) : ∃ detail, cause = .malformedCourse detail := by
  unfold ofDocument at h
  cases hfold : d.blocks.foldlM addElement empty with
  | error other =>
    rw [hfold] at h
    cases h
    cases other <;> exact ⟨_, rfl⟩
  | ok plain =>
    rw [hfold] at h
    change (if d.processes.isEmpty = true then pure plain else _) = _ at h
    split at h
    · exact absurd h (by simp [pure, Except.pure])
    · cases hcheck : d.processes.forM plain.checkProcess with
      | error other =>
        rw [hcheck] at h
        cases h
        obtain ⟨p, -, hp⟩ := exists_of_forM_eq_error hcheck
        exact exists_malformed_of_checkProcess hp
      | ok _ =>
        rw [hcheck] at h
        exact absurd h (by simp [bind, Except.bind, pure, Except.pure])

theorem exists_malformed_of_ofXml {text : String} {cause : Error}
    (h : ofXml text = .error cause) : ∃ detail, cause = .malformedCourse detail := by
  unfold ofXml at h
  split at h
  · exact exists_malformed_of_ofDocument h
  · cases h
    exact ⟨_, rfl⟩

theorem alike_of_describes {blocks : List BlockElement} {c d : Course}
    (hc : List.Forall₂ BlockElement.Describes blocks c.blocks)
    (hd : List.Forall₂ BlockElement.Describes blocks d.blocks) : c.alike d = true := by
  unfold alike
  generalize c.blocks = cs at hc
  generalize d.blocks = ds at hd
  induction hc generalizing ds with
  | nil =>
    cases hd
    rfl
  | cons hfirst _ ih =>
    cases hd with
    | cons hfirst' hrest =>
      rw [List.isEqv, Bool.and_eq_true]
      exact ⟨hfirst.alike hfirst', ih _ hrest⟩

/-- A document is accepted exactly if the dates of each block are in order, no two
blocks share a day, and every process has something in it and lies within the blocks;
any other one is malformed.  The course that is read has the blocks in the order of
their first dates, whatever their order in the document, and the processes of the
document. -/
theorem ofXml_acceptable {text : String} {d : CourseDocument}
    (h : CourseDocument.read text = .ok d) :
    ((∃ c, ofXml text = .ok c) ↔ d.Acceptable) ∧
    (∀ cause, ofXml text = .error cause → ∃ detail, cause = .malformedCourse detail) ∧
    (∀ c, ofXml text = .ok c → c.Reflects d) ∧
    ∀ text' d', CourseDocument.read text' = .ok d' → d'.blocks.Perm d.blocks →
      d'.processes = d.processes →
      (∃ c c', ofXml text = .ok c ∧ ofXml text' = .ok c' ∧ c'.alike c = true ∧
        c'.processes = c.processes ∧ c'.imported = c.imported) ∨
      ∃ detail detail', ofXml text = .error (.malformedCourse detail) ∧
        ofXml text' = .error (.malformedCourse detail') := by
  have hread : ∀ {text d}, CourseDocument.read text = .ok d → ofXml text = ofDocument d := by
    intro text d h
    rw [ofXml, h]
  have hiff : ∀ {text d}, CourseDocument.read text = .ok d →
      ((∃ c, ofXml text = .ok c) ↔ d.Acceptable) := by
    intro text d h
    rw [hread h]
    exact ofDocument_eq_ok_iff
  have hrefused : ∀ {text d}, CourseDocument.read text = .ok d → ¬d.Acceptable →
      ∃ detail, ofXml text = .error (.malformedCourse detail) := by
    intro text d h hno
    cases hxml : ofXml text with
    | ok c => exact absurd ((hiff h).1 ⟨c, hxml⟩) hno
    | error cause =>
      obtain ⟨detail, rfl⟩ := exists_malformed_of_ofXml hxml
      exact ⟨detail, rfl⟩
  refine ⟨hiff h, fun _ => exists_malformed_of_ofXml, ?_, ?_⟩
  · intro c hc
    rw [hread h] at hc
    exact reflects_of_ofDocument hc
  · intro text' d' h' hperm hprocesses
    by_cases haccept : d.Acceptable
    · obtain ⟨c, hc⟩ := (hiff h).2 haccept
      obtain ⟨c', hc'⟩ := (hiff h').2 (haccept.perm hperm hprocesses)
      have hown := reflects_of_ofDocument (hread h ▸ hc)
      have hother := reflects_of_ofDocument (hread h' ▸ hc')
      have hchronicle := CourseDocument.eq_chronicle haccept.toFits
        (d'.chronicle_perm.trans hperm) d'.pairwise_chronicle
      refine Or.inl ⟨c, c', hc, hc', alike_of_describes (hchronicle ▸ hother.blocks) hown.blocks,
        ?_, ?_⟩
      · rw [hother.processes, hown.processes, hprocesses]
      · rw [hother.imported, hown.imported, hprocesses]
    · have hno : ¬d'.Acceptable := fun hyes => haccept (hyes.perm hperm.symm hprocesses.symm)
      obtain ⟨detail, hrefuse⟩ := hrefused h haccept
      obtain ⟨detail', hrefuse'⟩ := hrefused h' hno
      exact Or.inr ⟨detail, detail', hrefuse, hrefuse'⟩

/-- A document with the later block in front, in which an issue has a date that is
listed both as an addition and as an exclusion. -/
def shuffled : CourseDocument where
  blocks := [
    ⟨⟨1851, 1, 1, by decide⟩, ⟨1851, 12, 31, by decide⟩,
      [⟨"Evening", .never, [⟨1851, 1, 5, by decide⟩],
        [⟨1851, 1, 5, by decide⟩, ⟨1851, 1, 6, by decide⟩]⟩]⟩,
    ⟨⟨1850, 2, 1, by decide⟩, ⟨1850, 12, 31, by decide⟩, []⟩]
  processes := [[⟨⟨1851, 1, 5, by decide⟩, "Evening"⟩]]

theorem acceptable_shuffled : shuffled.Acceptable := by
  refine ⟨⟨by decide, ?_⟩, by decide, ?_⟩
  · refine List.pairwise_pair.2 ?_
    rw [BlockElement.apart_iff (by decide) (by decide)]
    decide
  · simp only [shuffled, List.mem_cons, List.not_mem_nil, or_false, forall_eq, exists_eq_or_imp]
    exact Or.inl ⟨by decide, by decide⟩

/-- The same document with the blocks the other way round. -/
def restored : CourseDocument := { shuffled with blocks := shuffled.blocks.reverse }

theorem ofXml_acceptable_shuffled :
    CourseDocument.read (String.ofList shuffled.text) = .ok shuffled ∧
      shuffled.chronicle = restored.blocks ∧
      (∃ c, ofXml (String.ofList shuffled.text) = .ok c ∧ c.Reflects shuffled) ∧
      ∃ c c', ofXml (String.ofList shuffled.text) = .ok c ∧
        ofXml (String.ofList restored.text) = .ok c' ∧ c'.alike c = true ∧
        c'.processes = c.processes ∧ c'.imported = c.imported := by
  have hread := CourseDocument.read_text shuffled
  obtain ⟨hiff, -, hreflects, hother⟩ := ofXml_acceptable hread
  obtain ⟨c, hc⟩ := hiff.2 acceptable_shuffled
  have hrestored := hother _ _ (CourseDocument.read_text restored)
    (List.reverse_perm shuffled.blocks) rfl
  refine ⟨hread, ?_, ⟨c, hc, hreflects c hc⟩, ?_⟩
  · exact (CourseDocument.eq_chronicle acceptable_shuffled.toFits
      (List.reverse_perm shuffled.blocks) (by decide)).symm
  · refine hrestored.resolve_right ?_
    rintro ⟨_, _, hrefused, -⟩
    rw [hc] at hrefused
    exact absurd hrefused (by simp)

end Course
end PressCalendar
