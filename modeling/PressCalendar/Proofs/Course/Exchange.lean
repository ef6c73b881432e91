/-
A course that is written and read back.

What is written of a course is its complete blocks and its processes.  Reading adds
the blocks one after the other, so they get new numbers but keep their order, dates
and issues; `ofXml_toXml_eq_ok` says which course comes back, and that only
processes outside the complete blocks keep it from coming back.
-/
import PressCalendar.Proofs.Course.Appearances
import PressCalendar.Proofs.CourseDocument.Written

namespace PressCalendar

/-! ## Issues -/

namespace Issue

theorem foldl_addExclusion (dates : List Date) (issue : Issue) :
    (dates.foldl addExclusion issue).heading = issue.heading ∧
      (dates.foldl addExclusion issue).pattern = issue.pattern ∧
      (∀ d, d ∈ (dates.foldl addExclusion issue).additions ↔ d ∈ issue.additions ∧ d ∉ dates) ∧
      ∀ d, d ∈ (dates.foldl addExclusion issue).exclusions ↔ d ∈ issue.exclusions ∨ d ∈ dates := by
  induction dates generalizing issue with
  | nil => simp
  | cons date dates ih =>
    obtain ⟨hheading, hpattern, hadditions, hexclusions⟩ := ih (issue.addExclusion date)
    refine ⟨hheading, hpattern, ?_, ?_⟩
    · intro d
      rw [List.foldl_cons, hadditions]
      show d ∈ issue.additions.erase date ∧ _ ↔ _
      rw [DateSet.mem_erase, List.mem_cons, not_or, and_assoc]
    · intro d
      rw [List.foldl_cons, hexclusions]
      show d ∈ issue.exclusions.insert date ∨ _ ↔ _
      rw [DateSet.mem_insert, List.mem_cons, or_comm (a := d = date), or_assoc]

theorem foldl_addAddition (dates : List Date) (issue : Issue) :
    (dates.foldl addAddition issue).heading = issue.heading ∧
      (dates.foldl addAddition issue).pattern = issue.pattern ∧
      (∀ d, d ∈ (dates.foldl addAddition issue).additions ↔ d ∈ issue.additions ∨ d ∈ dates) ∧
      ∀ d, d ∈ (dates.foldl addAddition issue).exclusions ↔
        d ∈ issue.exclusions ∧ d ∉ dates := by
  induction dates generalizing issue with
  | nil => simp
  | cons date dates ih =>
    obtain ⟨hheading, hpattern, hadditions, hexclusions⟩ := ih (issue.addAddition date)
    refine ⟨hheading, hpattern, ?_, ?_⟩
    · intro d
      rw [List.foldl_cons, hadditions]
      show d ∈ issue.additions.insert date ∨ _ ↔ _
      rw [DateSet.mem_insert, List.mem_cons, or_comm (a := d = date), or_assoc]
    · intro d
      rw [List.foldl_cons, hexclusions]
      show d ∈ issue.exclusions.erase date ∧ _ ↔ _
      rw [DateSet.mem_erase, List.mem_cons, not_or, and_assoc]

theorem ext_mem {a b : Issue} (hheading : a.heading = b.heading) (hpattern : a.pattern = b.pattern)
    (hadditions : ∀ d, d ∈ a.additions ↔ d ∈ b.additions)
    (hexclusions : ∀ d, d ∈ a.exclusions ↔ d ∈ b.exclusions) : a = b := by
  cases a
  cases b
  simp only [mk.injEq]
  exact ⟨hheading, hpattern, DateSet.ext_mem hadditions, DateSet.ext_mem hexclusions⟩

end Issue

theorem IssueElement.toIssue_ofIssue {issue : Issue} (h : issue.Consistent) :
    (ofIssue issue).toIssue = issue := by
  obtain ⟨hheading, hpattern, hadditions, hexclusions⟩ :=
    Issue.foldl_addExclusion issue.exclusions.dates
      (Issue.weekly issue.heading issue.pattern.toList)
  obtain ⟨hheading', hpattern', hadditions', hexclusions'⟩ :=
    Issue.foldl_addAddition issue.additions.dates (issue.exclusions.dates.foldl Issue.addExclusion
      (Issue.weekly issue.heading issue.pattern.toList))
  refine Issue.ext_mem (hheading'.trans hheading) ?_ ?_ ?_
  · exact (hpattern'.trans hpattern).trans issue.pattern.ofList_toList
  · intro d
    refine (hadditions' d).trans ?_
    rw [hadditions]
    show (d ∈ DateSet.empty ∧ _) ∨ d ∈ issue.additions ↔ _
    simp
  · intro d
    refine (hexclusions' d).trans ?_
    rw [hexclusions]
    show (d ∈ DateSet.empty ∨ d ∈ issue.exclusions) ∧ d ∉ issue.additions ↔ _
    simp only [DateSet.not_mem_empty, false_or, and_iff_left_iff_imp]
    intro he ha
    exact h d ha he

theorem BlockElement.ofBlock?_eq_some {b : Block} {e : BlockElement} :
    ofBlock? b = some e ↔ ∃ first last, b.first = some first ∧ b.last = some last ∧
      e = ⟨first, last, b.issues.map IssueElement.ofIssue⟩ := by
  unfold ofBlock?
  cases b.first <;> cases b.last <;> simp [eq_comm]

theorem BlockElement.filterMap_ofBlock? (blocks : List Block) :
    blocks.filterMap ofBlock? = (blocks.filter Block.isComplete).filterMap ofBlock? := by
  rw [List.filterMap_filter]
  refine List.filterMap_congr ?_
  intro b _
  split
  · rfl
  · case isFalse h =>
    rw [Option.eq_none_iff_forall_ne_some]
    intro e he
    obtain ⟨first, last, hfirst, hlast, -⟩ := ofBlock?_eq_some.1 he
    exact h (by rw [Block.isComplete, hfirst, hlast]; rfl)

namespace Course

/-! ## Blocks -/

/-- Reading the element of a block that comes after all the others puts the block at
the end, under the next number. -/
theorem addElement_eq {c : Course} {b : Block} {e : BlockElement} (h : InOrder c.blocks)
    (hnumbered : ∀ other ∈ c.blocks, other.id ≤ c.lastId) (hb : b.Sound)
    (he : BlockElement.ofBlock? b = some e) (hbefore : ∀ other ∈ c.blocks, other.Precedes b) :
    c.addElement e = .ok { c with
      blocks := c.blocks ++ [{ b with id := c.lastId + 1 }], lastId := c.lastId + 1 } := by
  obtain ⟨first, last, hfirst, hlast, rfl⟩ := BlockElement.ofBlock?_eq_some.1 he
  have hspan : b.span? = some (first, last) := by rw [Block.span?, hfirst, hlast]
  have hle := hb.ordered.span_le hspan
  have hissues : (b.issues.map IssueElement.ofIssue).map IssueElement.toIssue = b.issues := by
    rw [List.map_map, List.map_congr_left (g := id), List.map_id]
    intro issue hi
    exact IssueElement.toIssue_ofIssue (hb.consistent issue hi)
  have hnew : { b with id := c.lastId + 1 } = ⟨c.lastId + 1, some first, some last, b.issues⟩ := by
    rw [hfirst, hlast]
  have hadd := add_eq_ok (c := c.newBlock.2) (b := { b with id := c.lastId + 1 }) hspan
    (fun other ho => (hbefore other ho).overlaps_eq_false hspan) (by
      intro other ho
      have hle := hnumbered other ho
      show other.id ≠ c.lastId + 1
      omega)
  have hplace := insertSorted_of_precedes (b := { b with id := c.lastId + 1 }) h hspan hle hbefore
  unfold addElement
  show ((Block.blank (c.lastId + 1)).withPeriod first last >>= _) = _
  rw [Block.withPeriod_eq_ok hle]
  show (c.newBlock.2.add ⟨c.lastId + 1, some first, some last,
    (b.issues.map IssueElement.ofIssue).map IssueElement.toIssue⟩ >>= _) = _
  rw [hissues, ← hnew, hadd]
  show Except.ok _ = Except.ok _
  rw [Except.ok.injEq]
  show Course.mk (insertSorted _ c.blocks) (max (c.lastId + 1) (c.lastId + 1)) _ _ = _
  rw [hplace, Nat.max_self]
  rfl

/-- Blocks with the numbers that they get when they are read. -/
def renumbered (lastId : Nat) : List Block → List Block
  | [] => []
  | b :: blocks => { b with id := lastId + 1 } :: renumbered (lastId + 1) blocks

theorem map_renumbered {α : Type} (f : Option Date → Option Date → List Issue → α) (lastId : Nat)
    (blocks : List Block) :
    (renumbered lastId blocks).map (fun b => f b.first b.last b.issues) =
      blocks.map fun b => f b.first b.last b.issues := by
  induction blocks generalizing lastId with
  | nil => rfl
  | cons b blocks ih => rw [renumbered, List.map_cons, List.map_cons, ih]

theorem foldlM_addElement {blocks : List Block} {c : Course} (h : InOrder (c.blocks ++ blocks))
    (hnumbered : ∀ other ∈ c.blocks, other.id ≤ c.lastId) (hblocks : ∀ b ∈ blocks, b.Sound)
    (hcomplete : ∀ b ∈ blocks, b.isComplete = true) :
    (blocks.filterMap BlockElement.ofBlock?).foldlM addElement c = .ok { c with
      blocks := c.blocks ++ renumbered c.lastId blocks, lastId := c.lastId + blocks.length } := by
  induction blocks generalizing c with
  | nil =>
    rw [renumbered, List.append_nil]
    rfl
  | cons b blocks ih =>
    obtain ⟨first, hfirst⟩ := Option.isSome_iff_exists.1
      (Bool.and_eq_true_iff.1 (hcomplete b List.mem_cons_self)).1
    obtain ⟨last, hlast⟩ := Option.isSome_iff_exists.1
      (Bool.and_eq_true_iff.1 (hcomplete b List.mem_cons_self)).2
    have he := BlockElement.ofBlock?_eq_some.2 ⟨first, last, hfirst, hlast, rfl⟩
    have hbefore : ∀ other ∈ c.blocks, other.Precedes b := fun other ho =>
      (List.pairwise_append.1 h.ascending).2.2 other ho b List.mem_cons_self
    have hadd := addElement_eq (h.sublist (List.sublist_append_left c.blocks (b :: blocks)))
      hnumbered (hblocks b List.mem_cons_self) he hbefore
    have hnext : InOrder (c.blocks ++ [{ b with id := c.lastId + 1 }] ++ blocks) := by
      rw [List.append_assoc]
      exact h.replace rfl rfl
    rw [List.filterMap_cons_some he, List.foldlM_cons, hadd]
    show (blocks.filterMap BlockElement.ofBlock?).foldlM addElement _ = _
    rw [ih hnext ?_ (fun x hx => hblocks x (List.mem_cons_of_mem b hx))
      fun x hx => hcomplete x (List.mem_cons_of_mem b hx)]
    · simp only [renumbered, List.append_assoc, List.cons_append, List.nil_append,
        List.length_cons]
      rw [Nat.add_right_comm c.lastId 1, Nat.add_assoc]
    · intro x hx
      show x.id ≤ c.lastId + 1
      rcases List.mem_append.1 hx with hx | hx
      · exact Nat.le_succ_of_le (hnumbered x hx)
      · rw [List.mem_singleton.1 hx]

/-! ## Courses -/

theorem exists_covers_renumbered {lastId : Nat} {blocks : List Block} {date : Date} :
    (∃ b ∈ renumbered lastId blocks, b.covers date = true) ↔
      ∃ b ∈ blocks, b.covers date = true := by
  induction blocks generalizing lastId with
  | nil => simp [renumbered]
  | cons b blocks ih =>
    simp only [renumbered, List.mem_cons, exists_eq_or_imp, ih]
    rfl

/-- The complete blocks of a course, with the numbers that reading gives them. -/
def completed (c : Course) : Course where
  blocks := renumbered 0 (c.blocks.filter Block.isComplete)
  lastId := (c.blocks.filter Block.isComplete).length
  processes := []
  imported := none

theorem foldlM_toDocument {c : Course} (h : c.Sound) :
    c.toDocument.blocks.foldlM addElement empty = .ok c.completed := by
  have hsub := List.filter_sublist (p := Block.isComplete) (l := c.blocks)
  have horder : InOrder (empty.blocks ++ c.blocks.filter Block.isComplete) :=
    h.toInOrder.sublist hsub
  have hfold := foldlM_addElement horder (by simp [empty]) (fun b hb => h.block (hsub.subset hb))
    fun b hb => (List.mem_filter.1 hb).2
  show (c.blocks.filterMap BlockElement.ofBlock?).foldlM addElement empty = _
  rw [BlockElement.filterMap_ofBlock?, hfold]
  simp [completed, empty]

theorem checkProcess_completed {c : Course} (h : c.Sound) {p : Process} (hp : p ≠ []) :
    c.completed.checkProcess p = .ok () ↔ c.Contains p := by
  have hcompleted : c.completed.Sound :=
    foldlM_invariant (fun _ _ _ _ hs hadd => Sound.addElement hs hadd) sound_empty
      (foldlM_toDocument h)
  rw [checkProcess_eq_ok, and_iff_right hp]
  refine forall₂_congr fun a _ => ?_
  rw [blockOn?_isSome_iff hcompleted.toInOrder]
  refine exists_covers_renumbered.trans ?_
  simp only [List.mem_filter, and_assoc]

def exchanged (c : Course) : Course :=
  if c.processes.isEmpty then c.completed else c.completed.withImported c.processes

theorem blocks_exchanged (c : Course) :
    c.exchanged.blocks = renumbered 0 (c.blocks.filter Block.isComplete) := by
  unfold exchanged
  split <;> rfl

/-- A course comes back exactly if its complete blocks contain its processes. -/
theorem ofXml_toXml_eq_ok {c d : Course} (h : c.Sound) :
    ofXml c.toXml = .ok d ↔ (∀ p ∈ c.processes, c.Contains p) ∧ d = c.exchanged := by
  have hcheck : (∀ p ∈ c.processes, c.completed.checkProcess p = .ok ()) ↔
      ∀ p ∈ c.processes, c.Contains p :=
    forall₂_congr fun p hp => checkProcess_completed h (h.processes p hp)
  rw [ofXml_eq_ok, ← hcheck]
  constructor
  · rintro ⟨document, hread, hdocument⟩
    rw [toXml, CourseDocument.read_text] at hread
    cases hread
    obtain ⟨plain, hfold, hall, rfl⟩ := ofDocument_eq_ok.1 hdocument
    rw [foldlM_toDocument h] at hfold
    cases hfold
    exact ⟨hall, rfl⟩
  · rintro ⟨hall, rfl⟩
    exact ⟨c.toDocument, CourseDocument.read_text c.toDocument,
      ofDocument_eq_ok.2 ⟨c.completed, foldlM_toDocument h, hall, rfl⟩⟩

/-- A course that can be reached comes back exactly if every date of its processes
lies within one of its complete blocks.  What comes back has the dates and issues of
those blocks, in their order, and its processes, which are also the imported ones. -/
theorem ofXml_toXml_iff {c : Course} (h : c.Reachable) :
    ((∃ d, ofXml c.toXml = .ok d) ↔
      ∀ p ∈ c.processes, ∀ a ∈ p, ∃ b ∈ c.blocks, b.isComplete = true ∧ b.covers a.date = true) ∧
    ∀ d, ofXml c.toXml = .ok d →
      d.blocks.map (fun b => (b.first, b.last, b.issues)) =
        (c.blocks.filter Block.isComplete).map (fun b => (b.first, b.last, b.issues)) ∧
      d.processes = c.processes ∧
      d.imported = if c.processes = [] then none else some c.processes := by
  have hsound := sound_of_reachable h
  constructor
  · constructor
    · rintro ⟨d, hd⟩
      exact ((ofXml_toXml_eq_ok hsound).1 hd).1
    · intro hall
      exact ⟨c.exchanged, (ofXml_toXml_eq_ok hsound).2 ⟨hall, rfl⟩⟩
  · intro d hd
    obtain ⟨-, rfl⟩ := (ofXml_toXml_eq_ok hsound).1 hd
    unfold exchanged
    by_cases hempty : c.processes = []
    · rw [if_pos (List.isEmpty_iff.2 hempty), if_pos hempty]
      exact ⟨map_renumbered (fun first last issues => (first, last, issues)) 0 _, hempty.symm, rfl⟩
    · rw [if_neg (by simpa using hempty), if_neg hempty]
      exact ⟨map_renumbered (fun first last issues => (first, last, issues)) 0 _, rfl, rfl⟩

/-- A block of two days in a year before year 0, with an issue whose heading looks
like markup. -/
def ides.block : Block where
  id := 1
  first := some ⟨-43, 3, 15, by decide⟩
  last := some ⟨-43, 3, 16, by decide⟩
  issues := [Issue.made "<b>\"&amp;\"\n</b>" [.addAddition ⟨-43, 3, 15, by decide⟩]]

/-- A course of that block and one that is not complete, split into days. -/
def ides : Course :=
  ((Course.empty.perform (.add ides.block)).perform
    (.add ⟨2, none, some ⟨12000, 1, 1, by decide⟩, []⟩)).perform (.split .days)

theorem ofXml_toXml_iff_ides :
    ides.Reachable ∧ ides.processes.length = 1 ∧
      (∃ d, ofXml ides.toXml = .ok d ∧
        d.blocks.map (fun b => (b.first, b.last, b.issues)) =
          [(ides.block.first, ides.block.last, ides.block.issues)] ∧
        d.imported = some ides.processes) ∧
      ¬∃ d, ofXml (ides.perform (.remove 1)).toXml = .ok d := by
  have hdated : Block.Obtained { ides.block with issues := [] } :=
    (Block.Obtained.new .empty).withPeriod (by decide)
  have hblock : Block.Obtained ides.block :=
    hdated.revise (.add "<b>\"&amp;\"\n</b>" [.addAddition ⟨-43, 3, 15, by decide⟩])
  have hnext : empty.newBlock.2.Reachable :=
    Reachable.empty.asked .newBlock rfl rfl
  have hother : Block.Obtained ⟨2, none, some ⟨12000, 1, 1, by decide⟩, []⟩ :=
    .redate (.new hnext) (show Block.Dating.apply (.last ⟨12000, 1, 1, by decide⟩)
      (Block.blank 2) = .ok ⟨2, none, some ⟨12000, 1, 1, by decide⟩, []⟩ from rfl)
  have hreach : ides.Reachable :=
    ((Reachable.empty.given hblock).given hother).asked (.split .days) rfl rfl
  have hstale : (ides.perform (.remove 1)).Reachable :=
    hreach.asked (.remove 1) rfl rfl
  refine ⟨hreach, by decide +kernel, ?_, ?_⟩
  · obtain ⟨hiff, hback⟩ := ofXml_toXml_iff hreach
    obtain ⟨d, hd⟩ := hiff.2 (by decide +kernel)
    obtain ⟨hblocks, -, himported⟩ := hback d hd
    exact ⟨d, hd, hblocks.trans (by decide +kernel), himported.trans (by decide +kernel)⟩
  · rw [(ofXml_toXml_iff hstale).1]
    decide +kernel

end Course

end PressCalendar
