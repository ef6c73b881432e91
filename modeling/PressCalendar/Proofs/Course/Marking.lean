/-
Marking an issue on one date, and what that does to the count.

`Issue.Marks` says of an issue that whether it appeared on a date was settled and that
nothing else about it is different.  Selecting and unselecting mark an issue whatever
exceptions it had before: which of the two sets is changed depends on the weekday, but an
addition that the pattern came to cover later is dropped together with the exclusion that
takes its place.  `Course.countAppearances_marked` carries this over to everything that
appears during a course.
-/
import Mathlib.Algebra.GroupWithZero.Nat
import PressCalendar.Proofs.Course.Daily

namespace PressCalendar

/-! ## One item of a list replaced -/

theorem exists_split_set {α : Type} {xs : List α} {i : Nat} {x : α} (h : xs[i]? = some x) :
    ∃ front back, xs = front ++ x :: back ∧ front.length = i ∧
      ∀ y, xs.set i y = front ++ y :: back := by
  obtain ⟨hi, rfl⟩ := List.getElem?_eq_some_iff.1 h
  refine ⟨xs.take i, xs.drop (i + 1), ?_, ?_, ?_⟩
  · rw [List.getElem_cons_drop, List.take_append_drop]
  · rw [List.length_take]
    omega
  · intro y
    exact List.set_eq_take_cons_drop y hi

theorem sum_map_set {α : Type} {xs : List α} {i : Nat} {x : α} (h : xs[i]? = some x)
    (f : α → Nat) (y : α) : ((xs.set i y).map f).sum + f x = (xs.map f).sum + f y := by
  obtain ⟨front, back, hxs, -, hset⟩ := exists_split_set h
  rw [hset, hxs]
  simp only [List.map_append, List.map_cons, List.sum_append, List.sum_cons]
  omega

theorem countP_set {α : Type} {xs : List α} {i : Nat} {x : α} (h : xs[i]? = some x)
    (p : α → Bool) (y : α) :
    (xs.set i y).countP p + (p x).toNat = xs.countP p + (p y).toNat := by
  obtain ⟨front, back, hxs, -, hset⟩ := exists_split_set h
  rw [hset, hxs]
  simp only [List.countP_append, List.countP_cons]
  cases p x <;> cases p y <;> simp <;> omega

/-- Sums over dates whose terms differ on one date only. -/
theorem sum_map_of_eq {dates : List Date} {date : Date} {f g : Date → Nat}
    (hnodup : dates.Nodup) (hdate : date ∈ dates)
    (h : ∀ other, other ≠ date → f other = g other) :
    (dates.map f).sum + g date = (dates.map g).sum + f date := by
  obtain ⟨front, back, rfl⟩ := List.append_of_mem hdate
  have hnot := (List.nodup_cons.1 (List.nodup_middle.1 hnodup)).1
  have hfront : front.map f = front.map g := by
    refine List.map_congr_left fun other hother => h other ?_
    intro heq
    exact hnot (List.mem_append_left _ (heq ▸ hother))
  have hback : back.map f = back.map g := by
    refine List.map_congr_left fun other hother => h other ?_
    intro heq
    exact hnot (List.mem_append_right _ (heq ▸ hother))
  simp only [List.map_append, List.map_cons, List.sum_append, List.sum_cons, hfront, hback]
  omega

/-! ## Issues -/

namespace DateSet

theorem mem_insert_of_ne {s : DateSet} {d e : Date} (h : e ≠ d) : e ∈ s.insert d ↔ e ∈ s := by
  rw [mem_insert]
  exact or_iff_right h

theorem mem_erase_of_ne {s : DateSet} {d e : Date} (h : e ≠ d) : e ∈ s.erase d ↔ e ∈ s := by
  rw [mem_erase]
  exact and_iff_left h

end DateSet

namespace Issue

variable {issue changed : Issue} {date : Date} {appeared : Bool}

/-- Whether the issue appeared on a date is settled.  Its heading, its pattern and its
exceptions of other dates are what they were. -/
structure Marks (issue : Issue) (date : Date) (appeared : Bool) (changed : Issue) : Prop where
  there : changed.appearsOn date = appeared
  heading : changed.heading = issue.heading
  pattern : changed.pattern = issue.pattern
  additions : ∀ other, other ≠ date → (other ∈ changed.additions ↔ other ∈ issue.additions)
  exclusions : ∀ other, other ≠ date → (other ∈ changed.exclusions ↔ other ∈ issue.exclusions)

/-- On a date it does not matter what is an exception of other dates. -/
theorem Marks.elsewhere (h : issue.Marks date appeared changed) {other : Date}
    (hother : other ≠ date) : changed.appearsOn other = issue.appearsOn other := by
  have hadditions := h.additions other hother
  have hexclusions := h.exclusions other hother
  simp only [appearsOn, isRegularOn, DateSet.contains, h.pattern, hadditions, hexclusions]

theorem appearsOn_iff {d : Date} : issue.appearsOn d = true ↔
    (issue.isRegularOn d.weekday = true ∧ d ∉ issue.exclusions) ∨ d ∈ issue.additions := by
  simp [appearsOn, DateSet.contains]

theorem marks_select (issue : Issue) (date : Date) :
    issue.Marks date true (issue.select date) := by
  unfold select
  by_cases hregular : issue.isRegularOn date.weekday = true
  · rw [if_pos hregular]
    have hdropped : date ∉ issue.exclusions.erase date := fun h => (DateSet.mem_erase.1 h).2 rfl
    exact ⟨appearsOn_iff.2 (.inl ⟨hregular, hdropped⟩), rfl, rfl, fun _ _ => Iff.rfl,
      fun _ hother => DateSet.mem_erase_of_ne hother⟩
  · rw [if_neg hregular]
    have hadded : date ∈ issue.additions.insert date := DateSet.mem_insert.2 (.inl rfl)
    exact ⟨appearsOn_iff.2 (.inr hadded), rfl, rfl,
      fun _ hother => DateSet.mem_insert_of_ne hother,
      fun _ hother => DateSet.mem_erase_of_ne hother⟩

theorem marks_unselect (issue : Issue) (date : Date) :
    issue.Marks date false (issue.unselect date) := by
  have hdropped : date ∉ issue.additions.erase date := fun h => (DateSet.mem_erase.1 h).2 rfl
  unfold unselect
  by_cases hregular : issue.isRegularOn date.weekday = true
  · rw [if_pos hregular]
    have hexcluded : date ∈ issue.exclusions.insert date := DateSet.mem_insert.2 (.inl rfl)
    have hnot : ¬(issue.addExclusion date).appearsOn date = true := by
      intro h
      rcases appearsOn_iff.1 h with ⟨-, h⟩ | h
      · exact h hexcluded
      · exact hdropped h
    exact ⟨Bool.eq_false_iff.2 hnot, rfl, rfl, fun _ hother => DateSet.mem_erase_of_ne hother,
      fun _ hother => DateSet.mem_insert_of_ne hother⟩
  · rw [if_neg hregular]
    have hnot : ¬(issue.removeAddition date).appearsOn date = true := by
      intro h
      rcases appearsOn_iff.1 h with ⟨h, -⟩ | h
      · exact hregular h
      · exact hdropped h
    exact ⟨Bool.eq_false_iff.2 hnot, rfl, rfl, fun _ hother => DateSet.mem_erase_of_ne hother,
      fun _ _ => Iff.rfl⟩

/-- The issue marked the other way round. -/
def toggled (issue : Issue) (date : Date) : Issue :=
  if issue.appearsOn date then issue.unselect date else issue.select date

theorem marks_toggled (issue : Issue) (date : Date) :
    issue.Marks date (!issue.appearsOn date) (issue.toggled date) := by
  unfold toggled
  cases issue.appearsOn date with
  | true => exact issue.marks_unselect date
  | false => exact issue.marks_select date

end Issue

/-! ## Blocks and courses -/

variable {index : Nat} {date : Date} {issue changed : Issue} {appeared : Bool}

namespace Block

variable {b : Block}

theorem setIssue_dates (b : Block) (index : Nat) (changed : Issue) :
    (b.setIssue index changed).dates = b.dates := rfl

theorem countP_marked (hissue : b.issues[index]? = some issue)
    (h : issue.Marks date appeared changed) {other : Date} (hother : other ≠ date) :
    (b.issues.set index changed).countP (·.appearsOn other) =
      b.issues.countP (·.appearsOn other) := by
  have hcount := countP_set hissue (·.appearsOn other) changed
  rw [h.elsewhere hother] at hcount
  omega

/-- A mark on a day of the block counts by as much as it changes. -/
theorem countAppearances_marked (hissue : b.issues[index]? = some issue)
    (h : issue.Marks date appeared changed) (hdate : date ∈ b.dates) :
    (b.setIssue index changed).countAppearances + (issue.appearsOn date).toNat =
      b.countAppearances + appeared.toNat := by
  have hsum := sum_map_of_eq (Date.nodup_of_ascending b.pairwise_dates) hdate
    (f := fun d => (b.issues.set index changed).countP (·.appearsOn d))
    (g := fun d => b.issues.countP (·.appearsOn d)) fun _ hother => countP_marked hissue h hother
  have hcount := countP_set hissue (·.appearsOn date) changed
  rw [h.there] at hcount
  rw [countAppearances_eq, countAppearances_eq, setIssue_dates]
  show (b.dates.map _).sum + _ = (b.dates.map _).sum + _
  simp only [setIssue]
  omega

/-- Nothing appears in a block that is only begun. -/
theorem countAppearances_of_not_isComplete (h : b.isComplete = false) :
    b.countAppearances = 0 := by
  rw [← length_appearances, appearances_of_not_isComplete h, List.length_nil]

end Block

namespace Course

variable {c after : Course} {place : Nat} {b : Block}

theorem countAppearances_set (hb : c.blocks[place]? = some b) (x : Block)
    (hblocks : after.blocks = c.blocks.set place x) :
    after.countAppearances + b.countAppearances = c.countAppearances + x.countAppearances := by
  unfold countAppearances
  rw [hblocks]
  exact sum_map_set hb Block.countAppearances x

/-- If a mark is on a day of a complete block, then the course counts by as much as it
changes; otherwise the course counts the same. -/
theorem countAppearances_marked (hb : c.blocks[place]? = some b)
    (hissue : b.issues[index]? = some issue) (h : issue.Marks date appeared changed)
    (hcovers : b.covers date = true)
    (hblocks : after.blocks = c.blocks.set place (b.setIssue index changed)) :
    (b.isComplete = true → after.countAppearances + (issue.appearsOn date).toNat =
      c.countAppearances + appeared.toNat) ∧
    (b.isComplete = false → after.countAppearances = c.countAppearances) := by
  have hcount := countAppearances_set hb (b.setIssue index changed) hblocks
  constructor
  · intro hcomplete
    have hmarked := Block.countAppearances_marked hissue h
      (Block.mem_dates_iff.2 ⟨hcomplete, hcovers⟩)
    omega
  · intro hbegun
    have hbefore := Block.countAppearances_of_not_isComplete hbegun
    have hafter := Block.countAppearances_of_not_isComplete (b := b.setIssue index changed) hbegun
    omega

end Course
end PressCalendar
