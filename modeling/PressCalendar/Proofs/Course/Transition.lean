/-
What each operation does.

An operation on a course that succeeds says something about what it was given and
about the course it answers.  The lemmas with a name in `_cases` say all of it, so
that no proof about a run has to open an operation again.
-/
import PressCalendar.Proofs.Course.Order
import PressCalendar.Proofs.Course.Request
import PressCalendar.Proofs.Outcome

namespace PressCalendar

/-! ## Blocks -/

namespace Block

/-- A revision changes nothing but the issues, and each issue it leaves was there,
is new, or is one that was there with one change. -/
theorem revision_eq (r : Revision) (b : Block) :
    ∃ issues, r.apply b = { b with issues } ∧ ∀ issue ∈ issues, issue ∈ b.issues ∨
      (∃ heading revisions, issue = Issue.made heading revisions) ∨
      ∃ old ∈ b.issues, ∃ revision, issue = Issue.Revision.apply revision old := by
  cases r with
  | add heading revisions =>
    refine ⟨b.issues ++ [Issue.made heading revisions], rfl, ?_⟩
    intro issue hi
    rcases List.mem_append.1 hi with hi | hi
    · exact Or.inl hi
    · exact Or.inr (Or.inl ⟨heading, revisions, List.mem_singleton.1 hi⟩)
  | remove index =>
    cases hidx : b.issues[index]? with
    | none =>
      refine ⟨b.issues, ?_, fun issue hi => Or.inl hi⟩
      simp only [Revision.apply, removeIssue?, hidx, Option.map_none]
    | some removed =>
      refine ⟨b.issues.eraseIdx index, ?_, fun issue hi => Or.inl (List.mem_of_mem_eraseIdx hi)⟩
      simp only [Revision.apply, removeIssue?, hidx, Option.map_some]
  | revise index revision =>
    cases hidx : b.issues[index]? with
    | none =>
      refine ⟨b.issues, ?_, fun issue hi => Or.inl hi⟩
      simp only [Revision.apply, hidx]
    | some old =>
      refine ⟨b.issues.set index (revision.apply old), ?_, ?_⟩
      · simp only [Revision.apply, hidx, setIssue]
      · intro issue hi
        rcases List.mem_or_eq_of_mem_set hi with hi | rfl
        · exact Or.inl hi
        · exact Or.inr (Or.inr ⟨old, List.mem_of_getElem? hidx, revision, rfl⟩)

theorem withPeriod_eq_ok {b : Block} {first last : Date} (h : first ≤ last) :
    b.withPeriod first last = .ok { b with first := some first, last := some last } := by
  unfold withPeriod checkRange
  rw [if_neg (Date.not_lt.2 h)]
  rfl

theorem Obtained.withPeriod {b : Block} (hb : b.Obtained) {first last : Date} (h : first ≤ last) :
    Obtained { b with first := some first, last := some last } :=
  @Obtained.redate _ _ (.period first last) hb (withPeriod_eq_ok h)

theorem le_of_checkRange {first last : Date} (h : checkRange first last = .ok ()) :
    first ≤ last := by
  unfold checkRange at h
  split at h
  · exact absurd h (by simp)
  · case isFalse hlt => exact Date.not_lt.1 hlt

theorem checkRange_of_le {first last : Date} (h : first ≤ last) :
    checkRange first last = .ok () := by
  rw [checkRange, if_neg (Date.not_lt.2 h)]

/-- The block with the new dates, whatever they are. -/
def Dating.dated : Dating → Block → Block
  | first date, b => { b with first := some date }
  | last date, b => { b with last := some date }
  | period start stop, b => { b with first := some start, last := some stop }

/-- A block as it is, provided that its dates are in order. -/
def checked (b : Block) : Except Error Block :=
  match b.first, b.last with
  | some first, some last => (checkRange first last).map fun _ => b
  | _, _ => .ok b

/-- Whichever dates are changed, it is the dates of the result that are checked. -/
theorem dating_eq (d : Dating) (b : Block) : d.apply b = (d.dated b).checked := by
  obtain ⟨id, first?, last?, issues⟩ := b
  cases d with
  | first date => cases last? <;> rfl
  | last date => cases first? <;> rfl
  | period start stop => rfl

theorem ordered_or_reversed (b : Block) :
    b.Ordered ∨ ∃ first last, b.first = some first ∧ b.last = some last ∧ last < first := by
  by_cases h : b.Ordered
  · exact Or.inl h
  · right
    simp only [Ordered, Classical.not_forall, Date.not_le] at h
    obtain ⟨first, hfirst, last, hlast, hlt⟩ := h
    exact ⟨first, last, hfirst, hlast, hlt⟩

theorem Ordered.checked_eq {b : Block} (h : b.Ordered) : b.checked = .ok b := by
  unfold checked
  split
  · case h_1 first last hfirst hlast =>
    rw [checkRange_of_le (h first hfirst last hlast)]
    rfl
  · rfl

theorem checked_of_reversed {b : Block} {first last : Date} (hfirst : b.first = some first)
    (hlast : b.last = some last) (hlt : last < first) :
    b.checked = .error (.invalidRange
      s!"first appearance {first.display} is after last appearance {last.display}") := by
  rw [checked, hfirst, hlast]
  show (checkRange first last).map _ = _
  rw [checkRange, if_pos hlt]
  rfl

theorem dating_eq_ok_iff {d : Dating} {b changed : Block} :
    d.apply b = .ok changed ↔ (d.dated b).Ordered ∧ changed = d.dated b := by
  rw [dating_eq]
  rcases (d.dated b).ordered_or_reversed with h | ⟨first, last, hfirst, hlast, hlt⟩
  · simp only [h.checked_eq, Except.ok.injEq, h, true_and, eq_comm]
  · rw [checked_of_reversed hfirst hlast hlt]
    simp only [reduceCtorEq, false_iff]
    intro h
    exact absurd hlt (Date.not_lt.2 (h.1 first hfirst last hlast))

theorem isSome_span?_dated (d : Dating) (b : Block) : (d.dated b).span?.isSome = true := by
  obtain ⟨id, first?, last?, issues⟩ := b
  cases d with
  | first date => cases last? <;> rfl
  | last date => cases first? <;> rfl
  | period start stop => rfl

/-- New dates are in order, and leave everything else about a block alone. -/
theorem dating_cases {d : Dating} {b changed : Block} (h : d.apply b = .ok changed) :
    ∃ first last, changed = { b with first, last } ∧ changed.Ordered ∧
      changed.span?.isSome = true := by
  obtain ⟨hordered, rfl⟩ := dating_eq_ok_iff.1 h
  have hspan := isSome_span?_dated d b
  cases d with
  | first date => exact ⟨some date, b.last, rfl, hordered, hspan⟩
  | last date => exact ⟨b.first, some date, rfl, hordered, hspan⟩
  | period start stop => exact ⟨some start, some stop, rfl, hordered, hspan⟩

end Block

/-! ## Courses -/

namespace Course

theorem checkOverlap_eq_ok {others : List Block} {first last : Date} :
    checkOverlap others first last = .ok () ↔
      ∀ other ∈ others, other.overlaps first last = false := by
  unfold checkOverlap
  cases hf : others.find? (·.overlaps first last) with
  | none =>
    simp only [true_iff]
    intro other ho
    exact Bool.eq_false_iff.2 (List.find?_eq_none.1 hf other ho)
  | some other =>
    simp only [reduceCtorEq, false_iff]
    intro hno
    have htrue := List.find?_some hf
    rw [hno other (List.mem_of_find?_eq_some hf)] at htrue
    exact absurd htrue (by simp)

theorem index?_isSome_iff {c : Course} {id : Nat} :
    (c.index? id).isSome = true ↔ ∃ b ∈ c.blocks, b.id = id := by
  simp [index?]

/-- The number a block is added with: its own, unless that is taken. -/
def numberFor (c : Course) (b : Block) : Nat :=
  if (c.index? b.id).isSome then c.lastId + 1 else b.id

theorem numberFor_of_fresh {c : Course} {b : Block} (h : ∀ other ∈ c.blocks, other.id ≠ b.id) :
    c.numberFor b = b.id := by
  refine if_neg ?_
  rw [index?_isSome_iff]
  intro ⟨other, ho, heq⟩
  exact h other ho heq

theorem numberFor_ne {c : Course} (h : ∀ other ∈ c.blocks, other.id ≤ c.lastId) (b : Block) :
    ∀ other ∈ c.blocks, other.id ≠ c.numberFor b := by
  intro other ho heq
  unfold numberFor at heq
  split at heq
  · have := h other ho
    omega
  · case isFalse hfree => exact hfree (index?_isSome_iff.2 ⟨other, ho, heq⟩)

/-- A block that has a date is refused only because of another one. -/
theorem add_of_dated {c : Course} {b : Block} {first last : Date}
    (hspan : b.span? = some (first, last)) :
    c.add b = (checkOverlap c.blocks first last).map fun _ =>
      (c.numberFor b, { c with
        blocks := insertSorted { b with id := c.numberFor b } c.blocks
        lastId := max c.lastId (c.numberFor b) }) := by
  unfold add numberFor
  rw [hspan]
  by_cases hused : (c.index? b.id).isSome = true
  · simp only [hused, if_true, Nat.max_eq_right (Nat.le_succ c.lastId)]
    cases checkOverlap c.blocks first last <;> rfl
  · simp only [hused, Bool.false_eq_true, if_false]
    cases checkOverlap c.blocks first last <;> rfl

theorem add_eq_ok {c : Course} {b : Block} {first last : Date}
    (hspan : b.span? = some (first, last))
    (hno : ∀ other ∈ c.blocks, other.overlaps first last = false)
    (hfresh : ∀ other ∈ c.blocks, other.id ≠ b.id) :
    c.add b = .ok (b.id, { c with
      blocks := insertSorted b c.blocks, lastId := max c.lastId b.id }) := by
  rw [add_of_dated hspan, checkOverlap_eq_ok.2 hno, numberFor_of_fresh hfresh]
  rfl

/-- A block that is added overlaps no other, and gets a number that none has. -/
theorem add_cases {c changed : Course} {b : Block} {id : Nat}
    (hnum : ∀ other ∈ c.blocks, other.id ≤ c.lastId) (h : c.add b = .ok (id, changed)) :
    ∃ first last lastId, b.span? = some (first, last) ∧
      (∀ other ∈ c.blocks, other.overlaps first last = false) ∧
      (∀ other ∈ c.blocks, other.id ≠ id) ∧ c.lastId ≤ lastId ∧ id ≤ lastId ∧
      changed = { c with blocks := insertSorted { b with id } c.blocks, lastId } := by
  cases hspan : b.span? with
  | none =>
    rw [add, hspan] at h
    exact absurd h (by simp)
  | some range =>
    obtain ⟨first, last⟩ := range
    rw [add_of_dated hspan] at h
    cases hover : checkOverlap c.blocks first last with
    | error cause =>
      rw [hover] at h
      cases h
    | ok _ =>
      rw [hover] at h
      cases h
      exact ⟨first, last, _, rfl, checkOverlap_eq_ok.1 hover, numberFor_ne hnum b,
        Nat.le_max_left _ _, Nat.le_max_right _ _, rfl⟩

theorem index?_cases {c : Course} {id index : Nat} (h : c.index? id = some index) :
    ∃ before b after, c.blocks = before ++ b :: after ∧ b.id = id ∧ index = before.length ∧
      c.blocks[index]? = some b ∧ c.blocks.eraseIdx index = before ++ after := by
  obtain ⟨hlt, hid, -⟩ := List.findIdx?_eq_some_iff_getElem.1 h
  refine ⟨c.blocks.take index, c.blocks[index], c.blocks.drop (index + 1), ?_, ?_, ?_, ?_, ?_⟩
  · rw [List.getElem_cons_drop, List.take_append_drop]
  · exact beq_iff_eq.1 hid
  · rw [List.length_take]
    omega
  · exact List.getElem?_eq_getElem hlt
  · exact List.eraseIdx_eq_take_drop_succ ..

theorem remove?_cases {c changed : Course} {b : Block} {id : Nat}
    (h : c.remove? id = some (b, changed)) :
    ∃ before after, c.blocks = before ++ b :: after ∧ b.id = id ∧
      changed = { c with blocks := before ++ after } := by
  unfold remove? at h
  obtain ⟨index, hindex, h⟩ := Option.bind_eq_some_iff.1 h
  obtain ⟨block, hblock, h⟩ := Option.bind_eq_some_iff.1 h
  obtain ⟨before, b', after, hblocks, hid, -, hget, herase⟩ := index?_cases hindex
  rw [hget] at hblock
  cases hblock
  cases h
  exact ⟨before, after, hblocks, hid, by rw [herase]⟩

theorem block?_eq (c : Course) (id : Nat) :
    c.block? id = (c.index? id).bind fun index => c.blocks[index]? :=
  List.find?_eq_bind_findIdx?_getElem?

theorem block?_of_remove? {c changed : Course} {b : Block} {id : Nat}
    (h : c.remove? id = some (b, changed)) : c.block? id = some b := by
  unfold remove? at h
  obtain ⟨index, hindex, h⟩ := Option.bind_eq_some_iff.1 h
  obtain ⟨block, hblock, h⟩ := Option.bind_eq_some_iff.1 h
  cases h
  rw [block?_eq, hindex]
  exact hblock

theorem mem_of_block? {c : Course} {b : Block} {id : Nat} (h : c.block? id = some b) :
    b ∈ c.blocks :=
  List.mem_of_find?_eq_some h

theorem id_of_block? {c : Course} {b : Block} {id : Nat} (h : c.block? id = some b) :
    b.id = id := by
  have hid := List.find?_some h
  exact beq_iff_eq.1 hid

theorem modify_of_block? {c : Course} {b : Block} {id : Nat} (h : c.block? id = some b)
    (change : Block → Block) : (c.modify id fun _ => change b) = c.modify id change := by
  rw [block?_eq] at h
  obtain ⟨index, hindex, hblock⟩ := Option.bind_eq_some_iff.1 h
  have hlist : (c.blocks.modify index fun _ => change b) = c.blocks.modify index change := by
    refine List.ext_getElem? ?_
    intro i
    rw [List.getElem?_modify, List.getElem?_modify]
    by_cases hi : index = i
    · subst hi
      rw [hblock]
      rfl
    · simp only [if_neg hi]
  unfold modify
  rw [hindex]
  simp only [hlist]

/-- A block whose dates are changed overlaps none of the others in its new dates,
and is put into its place among them. -/
theorem changePeriod_cases {c after : Course} {id : Nat} {change : Block → Except Error Block}
    (h : c.changePeriod id change = .ok after) :
    ∃ front b back changed, c.blocks = front ++ b :: back ∧ b.id = id ∧
      change b = .ok changed ∧
      (∀ first last, changed.span? = some (first, last) →
        ∀ other ∈ front ++ back, other.overlaps first last = false) ∧
      after = { c with blocks := insertSorted changed (front ++ back) } := by
  unfold changePeriod at h
  split at h
  · exact absurd h (by simp)
  · case h_2 index hindex =>
    obtain ⟨front, b, back, hblocks, hid, -, hget, herase⟩ := index?_cases hindex
    rw [hget] at h
    obtain ⟨changed, hchange, h⟩ := bind_eq_ok.1 h
    rw [herase] at h
    refine ⟨front, b, back, changed, hblocks, hid, hchange, ?_, ?_⟩
    · intro first last hspan
      rw [hspan] at h
      obtain ⟨_, hover, -⟩ := bind_eq_ok.1 h
      exact checkOverlap_eq_ok.1 hover
    · cases hspan : changed.span? with
      | none =>
        rw [hspan] at h
        cases h
        rfl
      | some range =>
        rw [hspan] at h
        obtain ⟨_, -, hok⟩ := bind_eq_ok.1 h
        cases hok
        rfl

theorem modify_cases (c : Course) (id : Nat) (change : Block → Block) :
    c.modify id change = c ∨ ∃ front b back, c.blocks = front ++ b :: back ∧ b.id = id ∧
      c.modify id change = { c with blocks := front ++ change b :: back } := by
  unfold modify
  cases hindex : c.index? id with
  | none => exact Or.inl rfl
  | some index =>
    obtain ⟨front, b, back, hblocks, hid, hlen, -, -⟩ := index?_cases hindex
    refine Or.inr ⟨front, b, back, hblocks, hid, ?_⟩
    have hlt : front.length < (front ++ b :: back).length := by simp
    simp [hblocks, hlen, List.modify_eq_take_cons_drop hlt]

theorem partition_cases {c : Course} {g : Granularity} {ps : List Process}
    (h : c.partition g = .ok ps) :
    c.appearances ≠ [] ∧ ((g = .asImported ∧ c.imported = some ps) ∨
      (g ≠ .asImported ∧ ps = g.group c.appearances)) := by
  unfold partition at h
  split at h
  · exact absurd h (by simp)
  · case h_2 happ =>
    refine ⟨happ, ?_⟩
    split at h
    · case isTrue hg =>
      split at h
      · case h_1 imported hi =>
        cases h
        exact Or.inl ⟨hg, hi⟩
      · exact absurd h (by simp)
    · case isFalse hg =>
      cases h
      exact Or.inr ⟨hg, rfl⟩

theorem split_cases {c changed : Course} {g : Granularity} (h : c.split g = .ok changed) :
    ∃ processes, c.partition g = .ok processes ∧ changed = { c with processes } := by
  obtain ⟨processes, hp, hok⟩ := bind_eq_ok.1 h
  cases hok
  exact ⟨processes, hp, rfl⟩

/-! ## Requests -/

/-- A request that hands over no block may be made of any course. -/
theorem Reachable.asked {c d : Course} (hc : c.Reachable) (r : Request) (hr : r.blocks = [])
    (h : c.perform r = d) : d.Reachable := by
  subst h
  refine hc.perform ?_
  rw [hr]
  exact fun b hb => absurd hb List.not_mem_nil

theorem Reachable.given {c : Course} {b : Block} (hc : c.Reachable) (hb : b.Obtained) :
    (c.perform (.add b)).Reachable := by
  refine hc.perform ?_
  intro x hx
  rw [List.mem_singleton.1 hx]
  exact hb

theorem Reachable.added {c changed : Course} {b : Block} {id : Nat} (hc : c.Reachable)
    (hb : b.Obtained) (h : c.add b = .ok (id, changed)) : changed.Reachable := by
  have hperform : c.perform (.add b) = changed := by simp only [Course.perform, h]
  rw [← hperform]
  exact hc.given hb

/-! ## Documents -/

/-- Adding the block of an element draws a number and adds a block with its dates
and issues. -/
theorem addElement_cases {c changed : Course} {e : BlockElement}
    (h : c.addElement e = .ok changed) :
    ∃ b id, Block.Dating.apply (.period e.first e.last) c.newBlock.1 = .ok b ∧
      c.newBlock.2.add { b with issues := e.issues.map IssueElement.toIssue } =
        .ok (id, changed) := by
  obtain ⟨b, hb, h⟩ := bind_eq_ok.1 h
  obtain ⟨⟨id, added⟩, hadd, hok⟩ := bind_eq_ok.1 h
  cases hok
  exact ⟨b, id, hb, hadd⟩

theorem checkProcess_eq_ok {c : Course} {p : Process} :
    c.checkProcess p = .ok () ↔ p ≠ [] ∧ ∀ a ∈ p, (c.blockOn? a.date).isSome = true := by
  unfold checkProcess
  cases p with
  | nil => simp
  | cons a p =>
    simp only [List.isEmpty_cons, Bool.false_eq_true, if_false]
    cases hf : (a :: p).find? fun a => (c.blockOn? a.date).isNone with
    | none =>
      simp only [true_iff]
      refine ⟨by simp, ?_⟩
      intro b hb
      have hsome := List.find?_eq_none.1 hf b hb
      rwa [Option.isNone_eq_false_iff.symm, Bool.eq_false_iff]
    | some b =>
      simp only [reduceCtorEq, false_iff]
      intro hall
      have hb := List.find?_some hf
      have hsome := hall.2 b (List.mem_of_find?_eq_some hf)
      simp only [Option.isNone_iff_eq_none] at hb
      rw [hb] at hsome
      exact absurd hsome (by simp)

/-- A document is accepted if its blocks can be added one after the other and each
of its processes passes. -/
theorem ofDocument_eq_ok {d : CourseDocument} {c : Course} :
    ofDocument d = .ok c ↔ ∃ plain, d.blocks.foldlM addElement empty = .ok plain ∧
      (∀ p ∈ d.processes, plain.checkProcess p = .ok ()) ∧
      c = if d.processes.isEmpty then plain else plain.withImported d.processes := by
  unfold ofDocument
  simp only [bind_eq_ok, mapError_eq_ok]
  refine exists_congr fun plain => and_congr_right fun _ => ?_
  cases hp : d.processes.isEmpty with
  | true =>
    have hnil : d.processes = [] := List.isEmpty_iff.1 hp
    simp [hnil, pure, Except.pure, eq_comm]
  | false =>
    simp only [Bool.false_eq_true, if_false, bind_eq_ok, ← forM_eq_ok]
    constructor
    · rintro ⟨_, hall, hok⟩
      cases hok
      exact ⟨hall, rfl⟩
    · rintro ⟨hall, rfl⟩
      exact ⟨(), hall, rfl⟩

theorem ofXml_eq_ok {text : String} {c : Course} :
    ofXml text = .ok c ↔ ∃ d, CourseDocument.read text = .ok d ∧ ofDocument d = .ok c := by
  unfold ofXml
  cases CourseDocument.read text <;> simp

end Course

end PressCalendar
