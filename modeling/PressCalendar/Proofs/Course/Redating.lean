/-
Adding blocks and changing their dates: when it succeeds, what comes of it, and why it
is refused.

Everything is said in days.  A block `Meets` another one if some day lies within both,
and what a course is given must meet none of the others.  A change of dates is judged by
the block as it would become, `dated`, whose former dates count for nothing.  Each of
`AddRefusal` and `RedateRefusal` lists the reasons of a refusal in the order in which
they are looked for; `add_and_redate` shows that there are no others.
-/
import PressCalendar.Proofs.Course.Bare

namespace PressCalendar

/-- An entry of a list stands between two parts of the list without it. -/
theorem exists_split_eraseIdx {α : Type} {xs : List α} {i : Nat} {x : α} (h : xs[i]? = some x) :
    ∃ front back, xs.eraseIdx i = front ++ back ∧ xs = front ++ x :: back := by
  obtain ⟨hi, rfl⟩ := List.getElem?_eq_some_iff.1 h
  refine ⟨xs.take i, xs.drop (i + 1), List.eraseIdx_eq_take_drop_succ .., ?_⟩
  rw [List.getElem_cons_drop, List.take_append_drop]

namespace Block

theorem span?_eq_none_iff {b : Block} : b.span? = none ↔ b.first = none ∧ b.last = none := by
  obtain ⟨id, first?, last?, issues⟩ := b
  cases first? <;> cases last? <;> simp [span?]

theorem isSome_span? {b : Block} :
    b.span?.isSome = true ↔ b.first.isSome = true ∨ b.last.isSome = true := by
  obtain ⟨id, first?, last?, issues⟩ := b
  cases first? <;> cases last? <;> simp [span?]

theorem dated_id (d : Dating) (b : Block) : (d.dated b).id = b.id := by
  cases d <;> rfl

theorem dated_issues (d : Dating) (b : Block) : (d.dated b).issues = b.issues := by
  cases d <;> rfl

end Block

namespace Course

variable {c changed : Course} {b other : Block} {blocks : List Block} {first last : Date}

/-! ## The block in the way -/

/-- The first of some blocks that shares a day with a block. -/
def FirstMeeting (blocks : List Block) (b other : Block) : Prop :=
  ∃ front back, blocks = front ++ other :: back ∧ (∀ x ∈ front, ¬x.Meets b) ∧ other.Meets b

theorem free_or_firstMeeting (blocks : List Block) (b : Block) :
    (∀ other ∈ blocks, ¬other.Meets b) ∨ ∃ other, FirstMeeting blocks b other := by
  induction blocks with
  | nil => exact Or.inl (by simp)
  | cons x blocks ih =>
    by_cases hx : x.Meets b
    · exact Or.inr ⟨x, [], blocks, rfl, by simp, hx⟩
    · rcases ih with hfree | ⟨other, front, back, rfl, hfront, hmeets⟩
      · exact Or.inl (List.forall_mem_cons.2 ⟨hx, hfree⟩)
      · exact Or.inr ⟨other, x :: front, back, rfl, List.forall_mem_cons.2 ⟨hx, hfront⟩, hmeets⟩

theorem not_overlaps (hblocks : ∀ x ∈ blocks, x.Ordered) (hb : b.Ordered)
    (hspan : b.span? = some (first, last)) (hfree : ∀ x ∈ blocks, ¬x.Meets b) :
    ∀ x ∈ blocks, x.overlaps first last = false := by
  intro x hx
  rw [Bool.eq_false_iff, Ne, Block.overlaps_iff_meets (hblocks x hx) hb hspan]
  exact hfree x hx

theorem checkOverlap_of_firstMeeting (hblocks : ∀ x ∈ blocks, x.Ordered) (hb : b.Ordered)
    (hspan : b.span? = some (first, last)) (h : FirstMeeting blocks b other) :
    checkOverlap blocks first last = .error (.overlap first last other.label) := by
  obtain ⟨front, back, rfl, hfront, hmeets⟩ := h
  have hother : other.overlaps first last = true :=
    (Block.overlaps_iff_meets (hblocks other (by simp)) hb hspan).2 hmeets
  have hbefore := not_overlaps (fun x hx => hblocks x (by simp [hx])) hb hspan hfront
  have hfind : (front ++ other :: back).find? (·.overlaps first last) = some other := by
    rw [List.find?_eq_some_iff_append]
    refine ⟨hother, front, back, rfl, ?_⟩
    intro x hx
    rw [hbefore x hx]
    rfl
  rw [checkOverlap, hfind]

/-! ## The other blocks -/

/-- All blocks but the one of a number. -/
def others (c : Course) (id : Nat) : List Block := c.blocks.filter (·.id != id)

theorem Valid.others_eq (h : c.Valid) {front back : List Block}
    (hblocks : c.blocks = front ++ b :: back) : c.others b.id = front ++ back := by
  have hne := h.ne_of_split hblocks
  have hkept : (front ++ back).filter (·.id != b.id) = front ++ back := by
    rw [List.filter_eq_self]
    intro x hx
    exact bne_iff_ne.2 (hne x hx)
  rw [others, hblocks, List.filter_append, List.filter_cons_of_neg (by simp), ← List.filter_append,
    hkept]

theorem Valid.others_eq_eraseIdx (h : c.Valid) {i : Nat} (hb : c.blocks[i]? = some b) :
    c.others b.id = c.blocks.eraseIdx i := by
  obtain ⟨front, back, herase, hblocks⟩ := exists_split_eraseIdx hb
  rw [h.others_eq hblocks, herase]

theorem ordered_others (h : InOrder c.blocks) (id : Nat) : InOrder (c.others id) :=
  h.sublist List.filter_sublist

theorem Valid.block?_of_mem (h : c.Valid) (hb : b ∈ c.blocks) : c.block? b.id = some b := by
  obtain ⟨i, hi⟩ := List.getElem?_of_mem hb
  exact h.block?_eq hi

/-- Where a block goes among others that it does not meet. -/
theorem others_insertSorted (h : changed.Valid) (horder : InOrder blocks) (hb : b.Ordered)
    (hspan : b.span? = some (first, last)) (hfree : ∀ x ∈ blocks, x.overlaps first last = false)
    (hblocks : changed.blocks = insertSorted b blocks) :
    changed.block? b.id = some b ∧ changed.others b.id = blocks := by
  obtain ⟨front, back, rfl, heq, -, -⟩ :=
    insertSorted_eq horder hspan (hb.span_le hspan) hfree
  rw [heq] at hblocks
  have hmem : b ∈ changed.blocks := by simp [hblocks]
  exact ⟨h.block?_of_mem hmem, h.others_eq hblocks⟩

/-! ## Adding a block -/

/-- What adding a block does: the block goes to its place, and nothing else changes but
the count of numbers. -/
structure Adds (c : Course) (b : Block) (id : Nat) (changed : Course) : Prop where
  number : id = c.numberFor b
  fresh : ∀ other ∈ c.blocks, other.id ≠ id
  block : changed.block? id = some { b with id }
  others : changed.others id = c.blocks
  inOrder : InOrder changed.blocks
  lastId : changed.lastId = max c.lastId id
  processes : changed.processes = c.processes
  imported : changed.imported = c.imported

/-- Why a block is not added. -/
inductive AddRefusal (c : Course) (b : Block) : Error → Prop
  | undated (hfirst : b.first = none) (hlast : b.last = none) :
    AddRefusal c b (.invalidRange "a block needs at least one date")
  | overlap {first last : Date} {other : Block} (hspan : b.span? = some (first, last))
    (hother : FirstMeeting c.blocks b other) :
    AddRefusal c b (.overlap first last other.label)

theorem Sound.add_of_free (h : c.Sound) (hb : b.Obtained) (hdated : b.span?.isSome = true)
    (hfree : ∀ x ∈ c.blocks, ¬x.Meets b) :
    ∃ added, c.add b = .ok added ∧ c.Adds b added.1 added.2 := by
  obtain ⟨⟨first, last⟩, hspan⟩ := Option.isSome_iff_exists.1 hdated
  have hno := not_overlaps h.ordered (Block.sound_of_obtained hb).ordered hspan hfree
  have hadd := add_of_dated (c := c) hspan
  rw [checkOverlap_eq_ok.2 hno] at hadd
  have hvalid := (h.add (Block.sound_of_obtained hb) hadd).toValid
  have hplace := others_insertSorted (b := { b with id := c.numberFor b }) hvalid h.toInOrder
    (Block.sound_of_obtained hb).ordered hspan hno rfl
  exact ⟨_, hadd, rfl, numberFor_ne h.numbered b, hplace.1, hplace.2, hvalid.toInOrder, rfl, rfl,
    rfl⟩

theorem Sound.add_of_refusal (h : c.Sound) (hb : b.Obtained) {cause : Error}
    (hrefusal : c.AddRefusal b cause) : c.add b = .error cause := by
  cases hrefusal with
  | undated hfirst hlast =>
    rw [Course.add, Block.span?_eq_none_iff.2 ⟨hfirst, hlast⟩]
  | overlap hspan hother =>
    have hordered := (Block.sound_of_obtained hb).ordered
    rw [add_of_dated hspan, checkOverlap_of_firstMeeting h.ordered hordered hspan hother]
    rfl

theorem addRefusal_or_free (c : Course) (b : Block) :
    (∃ cause, c.AddRefusal b cause) ∨
      b.span?.isSome = true ∧ ∀ other ∈ c.blocks, ¬other.Meets b := by
  cases hspan : b.span? with
  | none =>
    obtain ⟨hfirst, hlast⟩ := Block.span?_eq_none_iff.1 hspan
    exact Or.inl ⟨_, .undated hfirst hlast⟩
  | some range =>
    rcases free_or_firstMeeting c.blocks b with hfree | ⟨other, hother⟩
    · exact Or.inr ⟨rfl, hfree⟩
    · exact Or.inl ⟨_, .overlap hspan hother⟩

theorem Sound.add_iff (h : c.Sound) (hb : b.Obtained) :
    ((∃ added, c.add b = .ok added) ↔
      b.span?.isSome = true ∧ ∀ other ∈ c.blocks, ¬other.Meets b) ∧
    (∀ added, c.add b = .ok added → c.Adds b added.1 added.2) ∧
    ∀ cause, c.add b = .error cause ↔ c.AddRefusal b cause := by
  refine outcome_iff (addRefusal_or_free c b) (fun _ => h.add_of_refusal hb) ?_
  intro ⟨hdated, hfree⟩
  exact h.add_of_free hb hdated hfree

/-! ## Changing the dates of a block -/

/-- What a change of dates does to a course: one block has the new dates, perhaps at
another place, and nothing else changes. -/
structure Redates (c : Course) (id : Nat) (d : Block.Dating) (changed : Course) : Prop where
  block : ∃ b, c.block? id = some b ∧ changed.block? id = some (d.dated b) ∧
    (d.dated b).id = b.id ∧ (d.dated b).issues = b.issues
  others : changed.others id = c.others id
  inOrder : InOrder changed.blocks
  lastId : changed.lastId = c.lastId
  processes : changed.processes = c.processes
  imported : changed.imported = c.imported

/-- Why the dates of a block are not changed.  Each reason excludes those before it. -/
inductive RedateRefusal (c : Course) (id : Nat) (d : Block.Dating) : Error → Prop
  | unknown (h : ∀ b ∈ c.blocks, b.id ≠ id) : RedateRefusal c id d (.unknownBlock id)
  | reversed {b : Block} {first last : Date} (hb : b ∈ c.blocks) (hid : b.id = id)
    (hfirst : (d.dated b).first = some first) (hlast : (d.dated b).last = some last)
    (hlt : last < first) :
    RedateRefusal c id d (.invalidRange
      s!"first appearance {first.display} is after last appearance {last.display}")
  | overlap {b other : Block} {first last : Date} (hb : b ∈ c.blocks) (hid : b.id = id)
    (hordered : (d.dated b).Ordered) (hspan : (d.dated b).span? = some (first, last))
    (hother : FirstMeeting (c.others id) (d.dated b) other) :
    RedateRefusal c id d (.overlap first last other.label)

/-- A block of a course gets new dates if they are in order and free of the others. -/
theorem Valid.redate_eq (h : c.Valid) (hb : b ∈ c.blocks) (d : Block.Dating)
    (hspan : (d.dated b).span? = some (first, last)) :
    d.ofCourse c b.id = do
      let changed ← (d.dated b).checked
      checkOverlap (c.others b.id) first last
      return { c with blocks := insertSorted changed (c.others b.id) } := by
  obtain ⟨i, hget⟩ := List.getElem?_of_mem hb
  rw [Block.Dating.ofCourse_eq, changePeriod, h.index?_eq hget, h.others_eq_eraseIdx hget]
  simp only [hget, Block.dating_eq]
  rcases (d.dated b).ordered_or_reversed with hordered | ⟨x, y, hx, hy, hlt⟩
  · simp only [hordered.checked_eq, bind, Except.bind, hspan]
  · rw [Block.checked_of_reversed hx hy hlt]
    rfl

theorem Sound.redate_of_free (h : c.Sound) (hb : b ∈ c.blocks) {d : Block.Dating}
    (hordered : (d.dated b).Ordered) (hfree : ∀ x ∈ c.others b.id, ¬x.Meets (d.dated b)) :
    ∃ changed, d.ofCourse c b.id = .ok changed ∧ c.Redates b.id d changed := by
  obtain ⟨⟨first, last⟩, hspan⟩ := Option.isSome_iff_exists.1 (Block.isSome_span?_dated d b)
  have hothers := ordered_others h.toInOrder b.id
  have hno := not_overlaps hothers.ordered hordered hspan hfree
  have hredate := h.toValid.redate_eq hb d hspan
  rw [hordered.checked_eq, checkOverlap_eq_ok.2 hno] at hredate
  have hvalid := (h.redate hredate).toValid
  have hplace := others_insertSorted hvalid hothers hordered hspan hno rfl
  rw [Block.dated_id] at hplace
  refine ⟨_, hredate, ⟨b, h.toValid.block?_of_mem hb, hplace.1, ?_, ?_⟩, hplace.2,
    hvalid.toInOrder, rfl, rfl, rfl⟩
  · exact Block.dated_id d b
  · exact Block.dated_issues d b

theorem Sound.redate_of_refusal (h : c.Sound) {id : Nat} {d : Block.Dating} {cause : Error}
    (hrefusal : c.RedateRefusal id d cause) : d.ofCourse c id = .error cause := by
  cases hrefusal with
  | unknown hnone =>
    have hindex : c.index? id = none := by
      rw [index?, List.findIdx?_eq_none_iff]
      intro b hb
      exact beq_eq_false_iff_ne.2 (hnone b hb)
    rw [Block.Dating.ofCourse_eq, changePeriod, hindex]
  | @reversed b first last hb hid hfirst hlast hlt =>
    obtain ⟨⟨x, y⟩, hspan⟩ := Option.isSome_iff_exists.1 (Block.isSome_span?_dated d b)
    rw [← hid, h.toValid.redate_eq hb d hspan, Block.checked_of_reversed hfirst hlast hlt]
    rfl
  | @overlap b other first last hb hid hordered hspan hother =>
    subst hid
    have hothers := ordered_others h.toInOrder b.id
    rw [h.toValid.redate_eq hb d hspan, hordered.checked_eq]
    show (checkOverlap _ first last >>= _) = _
    rw [checkOverlap_of_firstMeeting hothers.ordered hordered hspan hother]
    rfl

theorem redateRefusal_or_free (c : Course) (id : Nat) (d : Block.Dating) :
    (∃ cause, c.RedateRefusal id d cause) ∨ ∃ b ∈ c.blocks, b.id = id ∧
      (d.dated b).Ordered ∧ ∀ other ∈ c.others id, ¬other.Meets (d.dated b) := by
  by_cases hknown : ∃ b ∈ c.blocks, b.id = id
  · obtain ⟨b, hb, hid⟩ := hknown
    rcases (d.dated b).ordered_or_reversed with hordered | ⟨first, last, hfirst, hlast, hlt⟩
    · rcases free_or_firstMeeting (c.others id) (d.dated b) with hfree | ⟨other, hother⟩
      · exact Or.inr ⟨b, hb, hid, hordered, hfree⟩
      · obtain ⟨_, hspan⟩ := Option.isSome_iff_exists.1 (Block.isSome_span?_dated d b)
        exact Or.inl ⟨_, .overlap hb hid hordered hspan hother⟩
    · exact Or.inl ⟨_, .reversed hb hid hfirst hlast hlt⟩
  · refine Or.inl ⟨_, .unknown ?_⟩
    intro b hb hid
    exact hknown ⟨b, hb, hid⟩

theorem Sound.redate_iff (h : c.Sound) (id : Nat) (d : Block.Dating) :
    ((∃ changed, d.ofCourse c id = .ok changed) ↔ ∃ b ∈ c.blocks, b.id = id ∧
      (d.dated b).Ordered ∧ ∀ other ∈ c.others id, ¬other.Meets (d.dated b)) ∧
    (∀ changed, d.ofCourse c id = .ok changed → c.Redates id d changed) ∧
    ∀ cause, d.ofCourse c id = .error cause ↔ c.RedateRefusal id d cause := by
  refine outcome_iff (redateRefusal_or_free c id d) (fun _ => h.redate_of_refusal) ?_
  intro ⟨b, hb, hid, hordered, hfree⟩
  subst hid
  exact h.redate_of_free hb hordered hfree

/-! ## The whole of it -/

/-- A block is added to a course exactly if it has a date and no block of the course
shares a day with it.  New dates are given to a block exactly if the course has it, they
are in order, and no other block shares a day with the block as it becomes.  What comes
of it is said by `Adds` and `Redates`; otherwise the course stays as it is, for the
first reason that applies. -/
theorem add_and_redate (hc : c.Reachable) :
    (∀ b : Block, b.Obtained →
      ((∃ added, c.add b = .ok added) ↔
        (b.first.isSome = true ∨ b.last.isSome = true) ∧ ∀ other ∈ c.blocks, ¬other.Meets b) ∧
      (∀ added, c.add b = .ok added → c.Adds b added.1 added.2) ∧
      (∀ cause, c.add b = .error cause ↔ c.AddRefusal b cause) ∧
      ((∃ cause, c.add b = .error cause) → c.perform (.add b) = c)) ∧
    ∀ (id : Nat) (d : Block.Dating),
      ((∃ changed, d.ofCourse c id = .ok changed) ↔ ∃ b ∈ c.blocks, b.id = id ∧
        (d.dated b).Ordered ∧ ∀ other ∈ c.others id, ¬other.Meets (d.dated b)) ∧
      (∀ changed, d.ofCourse c id = .ok changed → c.Redates id d changed) ∧
      (∀ cause, d.ofCourse c id = .error cause ↔ c.RedateRefusal id d cause) ∧
      ((∃ cause, d.ofCourse c id = .error cause) → c.perform (.redate id d) = c) := by
  have hsound := sound_of_reachable hc
  constructor
  · intro b hb
    obtain ⟨hok, heffect, herror⟩ := hsound.add_iff hb
    rw [Block.isSome_span?] at hok
    refine ⟨hok, heffect, herror, ?_⟩
    intro hfails
    obtain ⟨cause, hcause⟩ := hfails
    rw [perform, hcause]
  · intro id d
    obtain ⟨hok, heffect, herror⟩ := hsound.redate_iff id d
    refine ⟨hok, heffect, herror, ?_⟩
    intro hfails
    obtain ⟨cause, hcause⟩ := hfails
    rw [perform, hcause]

/-- A course of a block of one year and of one that is only begun, later on. -/
def neighbours : Course :=
  (Course.empty.perform
    (.add ⟨1, some ⟨1870, 1, 1, by decide⟩, some ⟨1870, 12, 31, by decide⟩, []⟩)).perform
    (.add ⟨1, some ⟨1872, 1, 1, by decide⟩, none, []⟩)

/-- The first block may move past the second one, but not end when that has begun; and
the second may not begin in the days of the first. -/
theorem add_and_redate_neighbours :
    neighbours.Reachable ∧
    ((neighbours.setPeriod 1 ⟨1873, 1, 1, by decide⟩ ⟨1873, 1, 31, by decide⟩).map
      fun changed => changed.blocks.map Block.id) = .ok [2, 1] ∧
    (∃ changed, neighbours.Redates 1
      (.period ⟨1873, 1, 1, by decide⟩ ⟨1873, 1, 31, by decide⟩) changed) ∧
    neighbours.RedateRefusal 1 (.last ⟨1872, 1, 1, by decide⟩)
      (.overlap ⟨1870, 1, 1, by decide⟩ ⟨1872, 1, 1, by decide⟩ "01.01.1872 – ") ∧
    neighbours.RedateRefusal 2 (.first ⟨1870, 12, 31, by decide⟩)
      (.overlap ⟨1870, 12, 31, by decide⟩ ⟨1870, 12, 31, by decide⟩ "01.01.1870 – 31.12.1870") ∧
    neighbours.AddRefusal (Block.blank 1) (.invalidRange "a block needs at least one date") := by
  have hblank : (Block.blank 1).Obtained := .new .empty
  have hreach : neighbours.Reachable :=
    (Reachable.empty.given (hblank.withPeriod (by decide))).given
      (@Block.Obtained.redate _ _ (.first ⟨1872, 1, 1, by decide⟩) hblank rfl)
  obtain ⟨hadd, hredate⟩ := add_and_redate hreach
  refine ⟨hreach, by decide +kernel, ?_, ?_, ?_, ?_⟩
  · obtain ⟨changed, hchanged⟩ := exists_of_isOk (x := Block.Dating.ofCourse
      (.period ⟨1873, 1, 1, by decide⟩ ⟨1873, 1, 31, by decide⟩) neighbours 1) (by decide +kernel)
    exact ⟨changed, (hredate 1 _).2.1 changed hchanged⟩
  · exact ((hredate 1 _).2.2.1 _).1 (by decide +kernel)
  · exact ((hredate 2 _).2.2.1 _).1 (by decide +kernel)
  · exact ((hadd _ hblank).2.2.1 _).1 (by decide +kernel)

end Course

end PressCalendar
