/-
What holds of every course that can be reached.

The blocks stay in order, whatever block is added or moved; their numbers stay
apart, since a number in use is at most the last one that was given; and no date
is an addition and an exclusion of the same issue.  `Sound` is what one request
keeps, and `valid_of_reachable` what a whole run of them keeps.
-/
import Mathlib.Data.List.SplitBy
import PressCalendar.Proofs.Course.Transition

namespace PressCalendar

/-! ## Issues -/

namespace Issue

def Consistent (issue : Issue) : Prop := ∀ date ∈ issue.additions, date ∉ issue.exclusions

theorem consistent_irregular (heading : String) : (irregular heading).Consistent := by
  intro date h
  exact absurd h (DateSet.not_mem_empty date)

theorem Consistent.revision {issue : Issue} (h : issue.Consistent) (r : Revision) :
    (r.apply issue).Consistent := by
  intro date ha he
  cases r with
  | rename heading => exact h date ha he
  | setRegular day appears => exact h date ha he
  | addAddition added =>
    have he := DateSet.mem_erase.1 he
    rcases DateSet.mem_insert.1 ha with heq | ha
    · exact he.2 heq
    · exact h date ha he.1
  | removeAddition removed => exact h date (DateSet.mem_erase.1 ha).1 he
  | addExclusion added =>
    have ha := DateSet.mem_erase.1 ha
    rcases DateSet.mem_insert.1 he with heq | he
    · exact ha.2 heq
    · exact h date ha.1 he
  | removeExclusion removed => exact h date ha (DateSet.mem_erase.1 he).1

theorem Consistent.foldl {α : Type} {f : Issue → α → Issue} {xs : List α}
    (hstep : ∀ issue x, Consistent issue → (f issue x).Consistent) {issue : Issue}
    (h : issue.Consistent) : (xs.foldl f issue).Consistent := by
  induction xs generalizing issue with
  | nil => exact h
  | cons x xs ih => exact ih (hstep issue x h)

theorem consistent_made (heading : String) (revisions : List Revision) :
    (made heading revisions).Consistent :=
  (consistent_irregular heading).foldl fun _ r h => h.revision r

end Issue

/-- An issue read from an element: the additions come last, so they win. -/
theorem IssueElement.consistent_toIssue (e : IssueElement) : e.toIssue.Consistent := by
  refine Issue.Consistent.foldl (fun _ date h => h.revision (.addAddition date)) ?_
  refine Issue.Consistent.foldl (fun _ date h => h.revision (.addExclusion date)) ?_
  intro date h
  exact absurd h (DateSet.not_mem_empty date)

/-! ## Blocks -/

namespace Block

/-- What is true of every block, in a course or outside of one. -/
structure Sound (b : Block) : Prop where
  ordered : b.Ordered
  consistent : ∀ issue ∈ b.issues, issue.Consistent

theorem sound_blank (id : Nat) : (blank id).Sound :=
  ⟨by simp [Ordered, blank], by simp [blank]⟩

theorem Sound.withIssues {a b : Block} (ha : a.Sound) (hb : b.Sound) :
    { a with issues := b.issues }.Sound :=
  ⟨ha.ordered, hb.consistent⟩

theorem Sound.revision {b : Block} (h : b.Sound) (r : Revision) : (r.apply b).Sound := by
  obtain ⟨issues, heq, hissues⟩ := revision_eq r b
  rw [heq]
  refine ⟨h.ordered, ?_⟩
  intro issue hi
  rcases hissues issue hi with hi | ⟨heading, revisions, rfl⟩ | ⟨old, hold, revision, rfl⟩
  · exact h.consistent issue hi
  · exact Issue.consistent_made heading revisions
  · exact (h.consistent old hold).revision revision

theorem Sound.dating {d : Dating} {b changed : Block} (hb : b.Sound)
    (h : d.apply b = .ok changed) : changed.Sound := by
  obtain ⟨first, last, rfl, hord, -⟩ := dating_cases h
  exact ⟨hord, hb.consistent⟩

end Block

/-! ## Courses -/

namespace Course

/-- The blocks of a course are in order, and numbered apart with numbers that were
given. -/
structure Valid (c : Course) : Prop extends InOrder c.blocks where
  distinct : (c.blocks.map Block.id).Nodup
  numbered : ∀ b ∈ c.blocks, b.id ≤ c.lastId

/-- What is true of every course: it is valid, its issues are consistent, and no
process is empty. -/
structure Sound (c : Course) : Prop extends Valid c where
  consistent : ∀ b ∈ c.blocks, ∀ issue ∈ b.issues, issue.Consistent
  processes : ∀ p ∈ c.processes, p ≠ []
  imported : ∀ ps ∈ c.imported, ∀ p ∈ ps, p ≠ []

theorem Sound.block {c : Course} (h : c.Sound) {b : Block} (hb : b ∈ c.blocks) : b.Sound :=
  ⟨h.ordered b hb, h.consistent b hb⟩

theorem sound_empty : empty.Sound where
  toInOrder := InOrder.nil
  distinct := List.Pairwise.nil
  numbered := by simp [empty]
  consistent := by simp [empty]
  processes := by simp [empty]
  imported := by simp [empty]

theorem Valid.sublist {c : Course} (h : c.Valid) {blocks : List Block} {lastId : Nat}
    (hs : blocks.Sublist c.blocks) (hle : c.lastId ≤ lastId) :
    Valid { c with blocks, lastId } where
  toInOrder := h.toInOrder.sublist hs
  distinct := h.distinct.sublist (hs.map Block.id)
  numbered b hb := Nat.le_trans (h.numbered b (hs.subset hb)) hle

theorem Sound.sublist {c : Course} (h : c.Sound) {blocks : List Block} {lastId : Nat}
    (hs : blocks.Sublist c.blocks) (hle : c.lastId ≤ lastId) :
    Sound { c with blocks, lastId } where
  toValid := h.toValid.sublist hs hle
  consistent b hb := h.consistent b (hs.subset hb)
  processes := h.processes
  imported := h.imported

theorem Sound.withProcesses {c : Course} (h : c.Sound) {processes : List Process}
    {imported : Option (List Process)} (hp : ∀ p ∈ processes, p ≠ [])
    (hi : ∀ ps ∈ imported, ∀ p ∈ ps, p ≠ []) : Sound { c with processes, imported } where
  toInOrder := h.toInOrder
  distinct := h.distinct
  numbered := h.numbered
  consistent := h.consistent
  processes := hp
  imported := hi

/-- No other block has the number of a block. -/
theorem Valid.ne_of_split {c : Course} (h : c.Valid) {front back : List Block} {b : Block}
    (hblocks : c.blocks = front ++ b :: back) : ∀ other ∈ front ++ back, other.id ≠ b.id := by
  intro other ho heq
  have hdistinct := h.distinct
  rw [hblocks, (List.perm_middle.map Block.id).nodup_iff, List.map_cons,
    List.nodup_cons] at hdistinct
  exact hdistinct.1 (List.mem_map.2 ⟨other, ho, heq⟩)

theorem Sound.newBlock {c : Course} (h : c.Sound) : c.newBlock.2.Sound :=
  h.sublist (List.Sublist.refl c.blocks) (Nat.le_succ c.lastId)

theorem Sound.insert {c : Course} (h : c.Sound) {b : Block} {first last : Date} {lastId : Nat}
    (hb : b.Sound) (hspan : b.span? = some (first, last))
    (hno : ∀ other ∈ c.blocks, other.overlaps first last = false)
    (hid : ∀ other ∈ c.blocks, other.id ≠ b.id) (hle : c.lastId ≤ lastId) (hb' : b.id ≤ lastId) :
    Sound { c with blocks := insertSorted b c.blocks, lastId } := by
  have hperm := insertSorted_perm h.toInOrder hspan (hb.ordered.span_le hspan) hno
  have hmem : ∀ x ∈ insertSorted b c.blocks, x = b ∨ x ∈ c.blocks := fun x hx =>
    List.mem_cons.1 (hperm.mem_iff.1 hx)
  refine ⟨⟨h.toInOrder.insertSorted hspan hb.ordered hno, ?_, ?_⟩, ?_, h.processes, h.imported⟩
  · rw [(hperm.map Block.id).nodup_iff, List.map_cons, List.nodup_cons]
    refine ⟨?_, h.distinct⟩
    intro hin
    obtain ⟨other, ho, heq⟩ := List.mem_map.1 hin
    exact hid other ho heq
  · intro x hx
    rcases hmem x hx with rfl | hx
    · exact hb'
    · exact Nat.le_trans (h.numbered x hx) hle
  · intro x hx
    rcases hmem x hx with rfl | hx
    · exact hb.consistent
    · exact h.consistent x hx

theorem Sound.add {c changed : Course} {b : Block} {id : Nat} (h : c.Sound) (hb : b.Sound)
    (hadd : c.add b = .ok (id, changed)) : changed.Sound := by
  obtain ⟨first, last, lastId, hspan, hno, hid, hle, hle', rfl⟩ := add_cases h.numbered hadd
  have hb' : { b with id }.Sound := ⟨hb.ordered, hb.consistent⟩
  exact h.insert hb' hspan hno hid hle hle'

theorem Sound.remove {c changed : Course} {b : Block} {id : Nat} (h : c.Sound)
    (hremove : c.remove? id = some (b, changed)) : changed.Sound := by
  obtain ⟨before, after, hblocks, -, rfl⟩ := remove?_cases hremove
  refine h.sublist ?_ (Nat.le_refl _)
  rw [hblocks]
  exact List.Sublist.append (List.Sublist.refl before) (List.sublist_cons_self b after)

theorem Sound.clear {c : Course} (h : c.Sound) : c.clear.Sound :=
  (h.sublist (List.nil_sublist c.blocks) (Nat.le_refl _)).withProcesses (by simp) (by simp)

theorem Sound.redate {c after : Course} {id : Nat} {dating : Block.Dating} (h : c.Sound)
    (hredate : dating.ofCourse c id = .ok after) : after.Sound := by
  rw [Block.Dating.ofCourse_eq] at hredate
  obtain ⟨front, b, back, changed, hblocks, hid, hchange, hno, rfl⟩ := changePeriod_cases hredate
  have hbmem : b ∈ c.blocks := by simp [hblocks]
  have hchanged := (h.block hbmem).dating hchange
  obtain ⟨first, last, heq, -, hsome⟩ := Block.dating_cases hchange
  obtain ⟨⟨x, y⟩, hspan⟩ := Option.isSome_iff_exists.1 hsome
  have hsub : (front ++ back).Sublist c.blocks := by
    rw [hblocks]
    exact List.Sublist.append (List.Sublist.refl front) (List.sublist_cons_self b back)
  have hsame : changed.id = b.id := by rw [heq]
  have hrest := h.sublist hsub (Nat.le_refl c.lastId)
  refine hrest.insert hchanged hspan (hno x y hspan) ?_ (Nat.le_refl _) ?_
  · rw [hsame]
    exact h.ne_of_split hblocks
  · rw [hsame]
    exact h.numbered b hbmem

theorem Valid.withIssues {c : Course} {front back : List Block} {b : Block} (h : c.Valid)
    (hblocks : c.blocks = front ++ b :: back) (issues : List Issue) :
    Valid { c with blocks := front ++ { b with issues } :: back } := by
  have horder := h.toInOrder
  have hdistinct := h.distinct
  have hnumbered := h.numbered
  rw [hblocks] at horder hdistinct hnumbered
  refine ⟨horder.replace rfl rfl, ?_, ?_⟩
  · simpa using hdistinct
  · intro x hx
    rcases List.mem_append.1 hx with hx | hx
    · exact hnumbered x (List.mem_append_left _ hx)
    · rcases List.mem_cons.1 hx with rfl | hx
      · exact hnumbered b (by simp)
      · exact hnumbered x (by simp [hx])

theorem Sound.revise {c : Course} (h : c.Sound) (id : Nat) (r : Block.Revision) :
    (c.modify id r.apply).Sound := by
  rcases modify_cases c id r.apply with heq | ⟨front, b, back, hblocks, -, heq⟩
  · rw [heq]
    exact h
  · have hb := (h.block (b := b) (by simp [hblocks])).revision r
    obtain ⟨issues, hr, -⟩ := Block.revision_eq r b
    rw [heq, hr]
    rw [hr] at hb
    refine ⟨h.toValid.withIssues hblocks issues, ?_, h.processes, h.imported⟩
    intro x hx
    rcases List.mem_append.1 hx with hx | hx
    · exact h.consistent x (by simp [hblocks, hx])
    · rcases List.mem_cons.1 hx with rfl | hx
      · exact hb.consistent
      · exact h.consistent x (by simp [hblocks, hx])

theorem Sound.split {c changed : Course} {g : Granularity} (h : c.Sound)
    (hsplit : c.split g = .ok changed) : changed.Sound := by
  obtain ⟨ps, hp, rfl⟩ := split_cases hsplit
  refine h.withProcesses ?_ h.imported
  obtain ⟨-, ⟨-, himported⟩ | ⟨-, rfl⟩⟩ := partition_cases hp
  · exact h.imported ps himported
  · intro p hmem
    exact List.ne_nil_of_mem_splitBy hmem

theorem Sound.perform {c : Course} (h : c.Sound) (r : Request)
    (hr : ∀ b ∈ r.blocks, b.Sound) : (c.perform r).Sound := by
  cases r with
  | newBlock => exact h.newBlock
  | copyOf b => exact h.newBlock
  | add b =>
    cases hadd : c.add b with
    | error cause =>
      simp only [Course.perform, hadd]
      exact h
    | ok answer =>
      simp only [Course.perform, hadd]
      exact h.add (hr b (by simp [Request.blocks])) hadd
  | remove id =>
    cases hremove : c.remove? id with
    | none =>
      simp only [Course.perform, hremove]
      exact h
    | some answer =>
      simp only [Course.perform, hremove]
      exact h.remove hremove
  | clear => exact h.clear
  | redate id dating =>
    cases hredate : dating.ofCourse c id with
    | error cause =>
      simp only [Course.perform, hredate]
      exact h
    | ok changed =>
      simp only [Course.perform, hredate]
      exact h.redate hredate
  | revise id revision => exact h.revise id revision
  | split g =>
    cases hsplit : c.split g with
    | error cause =>
      simp only [Course.perform, hsplit]
      exact h
    | ok changed =>
      simp only [Course.perform, hsplit]
      exact h.split hsplit
  | clearProcesses => exact h.withProcesses (by simp) h.imported
  | forgetImported => exact h.withProcesses h.processes (by simp)

/-! ## Documents -/

theorem Sound.addElement {c changed : Course} {e : BlockElement} (h : c.Sound)
    (hadd : c.addElement e = .ok changed) : changed.Sound := by
  obtain ⟨b, id, hb, hadd⟩ := addElement_cases hadd
  have hblock := (Block.sound_blank (c.lastId + 1)).dating hb
  refine h.newBlock.add (b := { b with issues := e.issues.map IssueElement.toIssue })
    ⟨hblock.ordered, ?_⟩ hadd
  intro issue hi
  obtain ⟨element, -, rfl⟩ := List.mem_map.1 hi
  exact element.consistent_toIssue

theorem sound_ofDocument {d : CourseDocument} {c : Course} (h : ofDocument d = .ok c) :
    c.Sound := by
  obtain ⟨plain, hfold, hcheck, rfl⟩ := ofDocument_eq_ok.1 h
  have hplain : plain.Sound :=
    foldlM_invariant (fun _ _ _ _ hc hadd => Sound.addElement hc hadd) sound_empty hfold
  split
  · exact hplain
  · have hne : ∀ p ∈ d.processes, p ≠ [] := fun p hp => (checkProcess_eq_ok.1 (hcheck p hp)).1
    refine hplain.withProcesses hne ?_
    intro ps hps
    cases hps
    exact hne

end Course

/-! ## What whole runs of requests keep -/

mutual

/-- Every block that a caller can hold is sound, and so is every course that can be
reached on the way. -/
theorem Block.sound_of_obtained : ∀ {b : Block}, b.Obtained → b.Sound
  | _, .new _ => Block.sound_blank _
  | _, .copy _ hb => (Block.sound_blank _).withIssues (Block.sound_of_obtained hb)
  | _, .part hc hmem => (Course.sound_of_reachable hc).block hmem
  | _, .redate hb hredate => (Block.sound_of_obtained hb).dating hredate
  | _, .revise revision hb => (Block.sound_of_obtained hb).revision revision

theorem Course.sound_of_reachable : ∀ {c : Course}, c.Reachable → c.Sound
  | _, .empty => Course.sound_empty
  | _, .read hread => by
    obtain ⟨d, -, hd⟩ := Course.ofXml_eq_ok.1 hread
    exact Course.sound_ofDocument hd
  | _, .perform hc hr =>
    (Course.sound_of_reachable hc).perform _ fun b hb => Block.sound_of_obtained (hr b hb)

end

/-- In every course that can be reached the blocks have dates in order, each ends
before the next begins, so that no two share a day, and their numbers are apart and
at most the last one given, so that the next new block has a number of its own. -/
theorem Course.valid_of_reachable {c : Course} (h : c.Reachable) :
    c.Valid ∧ (∀ date, ∀ a ∈ c.blocks, ∀ b ∈ c.blocks, a.covers date = true →
      b.covers date = true → a = b) ∧ ∀ b ∈ c.blocks, b.id ≠ c.newBlock.1.id := by
  have hvalid := (Course.sound_of_reachable h).toValid
  refine ⟨hvalid, ?_, ?_⟩
  · intro date a ha b hb hac hbc
    exact hvalid.eq_of_covers ha hb hac hbc
  · intro b hb
    have hle := hvalid.numbered b hb
    show b.id ≠ c.lastId + 1
    omega

/-- A course that is given two blocks of the same number, the later one first. -/
def Course.joined : Course :=
  (Course.empty.perform (.add ⟨1, some ⟨1850, 1, 1, by decide⟩, none, []⟩)).perform
    (.add ⟨1, some ⟨1849, 1, 1, by decide⟩, none, []⟩)

theorem Course.valid_of_reachable_joined :
    Course.joined.Reachable ∧ Course.joined.blocks.map Block.id = [2, 1] ∧
      Course.joined.Valid ∧ ∀ b ∈ Course.joined.blocks, b.id ≠ Course.joined.newBlock.1.id := by
  have held : ∀ date, Block.Obtained ⟨1, some date, none, []⟩ := fun date =>
    @Block.Obtained.redate (Block.blank 1) _ (.first date) (.new .empty) rfl
  have hreach : Course.joined.Reachable :=
    (Course.Reachable.empty.given (held _)).given (held _)
  obtain ⟨hvalid, -, hfresh⟩ := Course.valid_of_reachable hreach
  exact ⟨hreach, by decide +kernel, hvalid, hfresh⟩

end PressCalendar
