/-
Selecting, unselecting and toggling an issue on a date.

The three requests differ in nothing but what they make of the appearance that was there,
so each of them is `Edit.Marks` for a function on truth values, and `marks_of_run` proves it
for any edit that runs as a change of the issue that was looked up.  `marks_of_reachable` is
the statement for the editors of a session: one appearance is settled, all others are what
they were, and the count of a course changes by that one appearance.
-/
import PressCalendar.Proofs.Course.Bare
import PressCalendar.Proofs.Course.Marking
import PressCalendar.Proofs.Editor.Selection

namespace PressCalendar

namespace Course

/-- Whether an issue appeared on a date, by the place of its block and its own. -/
def appeared? (c : Course) (place index : Nat) (date : Date) : Option Bool :=
  (c.blocks[place]?.bind fun b => b.issues[index]?).map (·.appearsOn date)

/-- Why an issue cannot be marked on a date; each reason counts only where those before it
do not. -/
inductive MarkRefusal (c : Course) (id index : Nat) (date : Date) : Error → Prop
  | block (h : ∀ b ∈ c.blocks, b.id ≠ id) : MarkRefusal c id index date (.unknownBlock id)
  | date {b : Block} (hb : b ∈ c.blocks) (hid : b.id = id) (h : b.covers date = false) :
    MarkRefusal c id index date
      (.invalidRange s!"{date.display} is outside the block {b.label}")
  | issue {b : Block} (hb : b ∈ c.blocks) (hid : b.id = id) (hcovers : b.covers date = true)
    (h : b.issues.length ≤ index) : MarkRefusal c id index date (.unknownIssue index)

end Course

namespace Editor

/-- An issue was marked on a date.  The issue at its place is now one that differs from it in
this only, and nothing else in the editor is different, except that the processes are
dropped. -/
structure Marked (e : Editor) (place : Nat) (b : Block) (index : Nat) (issue : Issue)
    (date : Date) (appeared : Bool) (after : Editor) : Prop where
  block : e.course.blocks[place]? = some b
  entry : b.issues[index]? = some issue
  blocks : ∃ changed, issue.Marks date appeared changed ∧
    after.course.blocks = e.course.blocks.set place (b.setIssue index changed)
  rest : after = Editor.touch { e with course := { e.course with blocks := after.course.blocks } }

namespace Marked

variable {e after : Editor} {place index : Nat} {b : Block} {issue : Issue} {date : Date}
  {appeared : Bool}

theorem before (h : e.Marked place b index issue date appeared after) :
    e.course.appeared? place index date = some (issue.appearsOn date) := by
  simp only [Course.appeared?, h.block, Option.bind_some, h.entry, Option.map_some]

theorem there (h : e.Marked place b index issue date appeared after) :
    after.course.appeared? place index date = some appeared := by
  obtain ⟨changed, hmarks, hblocks⟩ := h.blocks
  have hplace := (List.getElem?_eq_some_iff.1 h.block).1
  have hindex := (List.getElem?_eq_some_iff.1 h.entry).1
  simp only [Course.appeared?, hblocks, List.getElem?_set_self hplace, Option.bind_some,
    Block.setIssue, List.getElem?_set_self hindex, Option.map_some, hmarks.there]

theorem elsewhere (h : e.Marked place b index issue date appeared after) {p i : Nat} {d : Date}
    (hne : (p, i, d) ≠ (place, index, date)) :
    after.course.appeared? p i d = e.course.appeared? p i d := by
  obtain ⟨changed, hmarks, hblocks⟩ := h.blocks
  have hplace := (List.getElem?_eq_some_iff.1 h.block).1
  have hindex := (List.getElem?_eq_some_iff.1 h.entry).1
  by_cases hp : p = place
  · subst hp
    simp only [Course.appeared?, hblocks, List.getElem?_set_self hplace, h.block,
      Option.bind_some, Block.setIssue]
    by_cases hi : i = index
    · subst hi
      have hd : d ≠ date := by
        intro heq
        exact hne (by rw [heq])
      simp only [List.getElem?_set_self hindex, h.entry, Option.map_some, hmarks.elsewhere hd]
    · rw [List.getElem?_set_ne (Ne.symm hi)]
  · simp only [Course.appeared?, hblocks, List.getElem?_set_ne (Ne.symm hp)]

theorem count (h : e.Marked place b index issue date appeared after)
    (hcovers : b.covers date = true) :
    (b.isComplete = true → after.course.countAppearances + (issue.appearsOn date).toNat =
      e.course.countAppearances + appeared.toNat) ∧
    (b.isComplete = false → after.course.countAppearances = e.course.countAppearances) := by
  obtain ⟨changed, hmarks, hblocks⟩ := h.blocks
  exact Course.countAppearances_marked h.block h.entry hmarks hcovers hblocks

/-- The issue can be marked again. -/
theorem free (h : e.Marked place b index issue date appeared after) {id : Nat} (hid : b.id = id)
    (hcovers : b.covers date = true) : ∃ x ∈ after.course.blocks, x.id = id ∧
      x.covers date = true ∧ index < x.issues.length := by
  obtain ⟨changed, -, hblocks⟩ := h.blocks
  have hplace := (List.getElem?_eq_some_iff.1 h.block).1
  have hindex := (List.getElem?_eq_some_iff.1 h.entry).1
  refine ⟨b.setIssue index changed, ?_, hid, hcovers, ?_⟩
  · rw [hblocks]
    exact List.mem_set hplace _
  · simp only [Block.setIssue, List.length_set]
    exact hindex

end Marked
end Editor

namespace Edit

variable {α : Type} {e : Editor} {id index : Nat} {date : Date}

/-- An edit marks an issue on a date: `mark` makes the answer and the new appearance out of
whether the issue appeared before.  It succeeds for every issue of a block on every date
within it, whatever exceptions there are. -/
structure Marks (x : Edit α) (e : Editor) (id index : Nat) (date : Date)
    (mark : Bool → α × Bool) : Prop where
  succeeds : (∃ a after, x.run e = (.ok a, after)) ↔
    ∃ b ∈ e.course.blocks, b.id = id ∧ b.covers date = true ∧ index < b.issues.length
  marked : ∀ a after, x.run e = (.ok a, after) → ∃ place b issue, b.id = id ∧
    b.covers date = true ∧ a = (mark (issue.appearsOn date)).1 ∧
    e.Marked place b index issue date (mark (issue.appearsOn date)).2 after ∧
    after.course.appeared? place index date = some (mark (issue.appearsOn date)).2 ∧
    (∀ p i d, (p, i, d) ≠ (place, index, date) →
      after.course.appeared? p i d = e.course.appeared? p i d) ∧
    (b.isComplete = true → after.course.countAppearances + (issue.appearsOn date).toNat =
      e.course.countAppearances + (mark (issue.appearsOn date)).2.toNat) ∧
    (b.isComplete = false → after.course.countAppearances = e.course.countAppearances)
  refused : ∀ cause after, x.run e = (.error cause, after) ↔
    e.course.MarkRefusal id index date cause ∧ after = e

variable {cause : Error} {b : Block} {issue : Issue}

theorem issueOn_of_refusal (hvalid : e.course.Valid)
    (h : e.course.MarkRefusal id index date cause) : issueOn id index date e = .error cause := by
  unfold issueOn
  cases h with
  | block h =>
    have hnone : e.course.block? id = none := by
      refine List.find?_eq_none.2 fun b hb => ?_
      simp only [beq_iff_eq]
      exact h b hb
    rw [hnone]
  | @date b hb hid h =>
    rw [← hid, hvalid.block?_of_mem hb]
    simp only [h, Bool.not_false, if_true]
  | @issue b hb hid hcovers h =>
    have hnone := issueAt_of_none (List.getElem?_eq_none h)
    rw [← hid, hvalid.block?_of_mem hb]
    simp only [hcovers, Bool.not_true, hnone]
    rfl

theorem issueOn_of_mem (hvalid : e.course.Valid) (hb : b ∈ e.course.blocks)
    (hcovers : b.covers date = true) (hissue : b.issues[index]? = some issue) :
    issueOn b.id index date e = .ok (b, issue) := by
  unfold issueOn
  rw [hvalid.block?_of_mem hb]
  simp only [hcovers, Bool.not_true, issueAt_of_some hissue]
  rfl

theorem refusal_or_free (e : Editor) (id index : Nat) (date : Date) :
    (∃ cause, e.course.MarkRefusal id index date cause) ∨
      ∃ b ∈ e.course.blocks, b.id = id ∧ b.covers date = true ∧ index < b.issues.length := by
  by_cases hblock : ∃ b ∈ e.course.blocks, b.id = id
  · obtain ⟨b, hb, hid⟩ := hblock
    cases hcovers : b.covers date with
    | false => exact .inl ⟨_, .date hb hid hcovers⟩
    | true =>
      by_cases hindex : index < b.issues.length
      · exact .inr ⟨b, hb, hid, hcovers, hindex⟩
      · exact .inl ⟨_, .issue hb hid hcovers (by omega)⟩
  · refine .inl ⟨_, .block fun b hb hid => ?_⟩
    exact hblock ⟨b, hb, hid⟩

theorem exists_issueOn_of_free (hvalid : e.course.Valid)
    (h : ∃ b ∈ e.course.blocks, b.id = id ∧ b.covers date = true ∧ index < b.issues.length) :
    ∃ found, issueOn id index date e = .ok found ∧ found.1.id = id := by
  obtain ⟨b, hb, rfl, hcovers, hindex⟩ := h
  exact ⟨_, issueOn_of_mem hvalid hb hcovers (List.getElem?_eq_getElem hindex), rfl⟩

/-- The editor once an issue was put back that was found with its block. -/
def putBack (id index : Nat) (b : Block) (changed : Issue) (e : Editor) : Editor :=
  Editor.touch { e with course := e.course.modify id fun _ => b.setIssue index changed }

theorem marked_putBack (hvalid : e.course.Valid) (h : issueOn id index date e = .ok (b, issue))
    {appeared : Bool} {changed : Issue} (hmarks : issue.Marks date appeared changed) :
    ∃ place, e.Marked place b index issue date appeared (putBack id index b changed e) := by
  obtain ⟨hblock, -, hentry⟩ := issueOn_eq_ok h
  obtain ⟨place, hplace⟩ := List.getElem?_of_mem (Course.mem_of_block? hblock)
  have hmodify := hvalid.modify_eq hplace (b.setIssue index changed)
  rw [Course.id_of_block? hblock] at hmodify
  refine ⟨place, hplace, hentry, ⟨changed, hmarks, ?_⟩, ?_⟩
  · exact congrArg Course.blocks hmodify
  · unfold putBack
    rw [hmodify]
    rfl

theorem marks_of_run (hvalid : e.course.Valid) {x : Edit α} {mark : Bool → α × Bool}
    {change : Issue → Issue}
    (herror : ∀ cause, issueOn id index date e = .error cause → x.run e = (.error cause, e))
    (hok : ∀ b issue, issueOn id index date e = .ok (b, issue) →
      x.run e = (.ok (mark (issue.appearsOn date)).1, putBack id index b (change issue) e))
    (hmarks : ∀ issue : Issue, issue.Marks date (mark (issue.appearsOn date)).2 (change issue)) :
    x.Marks e id index date mark := by
  obtain ⟨hsucceeds, -, hrefused⟩ := outcome_iff (refusal_or_free e id index date)
    (fun cause h => issueOn_of_refusal hvalid h) (exists_issueOn_of_free hvalid)
  refine ⟨?_, ?_, ?_⟩
  · rw [← hsucceeds]
    constructor
    · intro ⟨a, after, hrun⟩
      cases hfound : issueOn id index date e with
      | ok found => exact ⟨found, rfl⟩
      | error cause =>
        rw [herror cause hfound] at hrun
        cases hrun
    · intro ⟨(b, issue), hfound⟩
      exact ⟨_, _, hok b issue hfound⟩
  · intro a after hrun
    cases hfound : issueOn id index date e with
    | error cause =>
      rw [herror cause hfound] at hrun
      cases hrun
    | ok found =>
      obtain ⟨b, issue⟩ := found
      rw [hok b issue hfound] at hrun
      cases hrun
      obtain ⟨hblock, hcovers, -⟩ := issueOn_eq_ok hfound
      obtain ⟨place, h⟩ := marked_putBack hvalid hfound (hmarks issue)
      obtain ⟨hcomplete, hbegun⟩ := h.count hcovers
      exact ⟨place, b, issue, Course.id_of_block? hblock, hcovers, rfl, h, h.there,
        fun _ _ _ => h.elsewhere, hcomplete, hbegun⟩
  · intro cause after
    rw [← hrefused]
    constructor
    · intro hrun
      cases hfound : issueOn id index date e with
      | ok found =>
        rw [hok found.1 found.2 hfound] at hrun
        cases hrun
      | error other =>
        rw [herror other hfound] at hrun
        cases hrun
        exact ⟨rfl, rfl⟩
    · rintro ⟨hfound, rfl⟩
      exact herror cause hfound

/-! ## The three requests -/

theorem run_changeIssueOn {f : Issue → Issue} (h : issueOn id index date e = .ok (b, issue)) :
    (changeIssueOn id index date f).run e = (.ok (), putBack id index b (f issue) e) :=
  run_ask_bind h

theorem marks_selectIssue (hvalid : e.course.Valid) :
    (selectIssue id index date).Marks e id index date fun _ => ((), true) :=
  marks_of_run hvalid (fun _ => run_ask_bind_of_error) (fun _ _ => run_changeIssueOn)
    fun issue => issue.marks_select date

theorem marks_unselectIssue (hvalid : e.course.Valid) :
    (unselectIssue id index date).Marks e id index date fun _ => ((), false) :=
  marks_of_run hvalid (fun _ => run_ask_bind_of_error) (fun _ _ => run_changeIssueOn)
    fun issue => issue.marks_unselect date

/-- The second time the issue is looked up it is the same as the first time. -/
theorem run_toggleIssue (h : issueOn id index date e = .ok (b, issue)) :
    (toggleIssue id index date).run e =
      (.ok (!issue.appearsOn date), putBack id index b (issue.toggled date) e) := by
  refine (run_ask_bind h).trans ?_
  dsimp only
  cases happears : issue.appearsOn date with
  | true =>
    rw [if_pos rfl, Issue.toggled, happears]
    exact run_bind_ok (run_changeIssueOn h)
  | false =>
    rw [if_neg Bool.false_ne_true, Issue.toggled, happears]
    exact run_bind_ok (run_changeIssueOn h)

theorem marks_toggleIssue (hvalid : e.course.Valid) :
    (toggleIssue id index date).Marks e id index date fun was => (!was, !was) :=
  marks_of_run hvalid (fun _ => run_ask_bind_of_error) (fun _ _ => run_toggleIssue)
    fun issue => issue.marks_toggled date

/-- The block that was marked is still the one of its number, at the same place. -/
theorem place_eq {after : Editor} (hvalid : after.course.Valid) {place place' : Nat}
    {b b' : Block} {issue : Issue} {appeared : Bool}
    (h : e.Marked place b index issue date appeared after)
    (hb' : after.course.blocks[place']? = some b') (hid : b'.id = b.id) : place' = place := by
  obtain ⟨changed, -, hblocks⟩ := h.blocks
  have hplace := (List.getElem?_eq_some_iff.1 h.block).1
  have hb : after.course.blocks[place]? = some (b.setIssue index changed) := by
    rw [hblocks, List.getElem?_set_self hplace]
  have hindex := hvalid.index?_eq hb
  have hindex' := hvalid.index?_eq hb'
  rw [hid] at hindex'
  exact Option.some.inj (hindex'.symm.trans hindex)

theorem toggleIssue_twice {after : Editor} {answer : Bool} (hvalid : e.course.Valid)
    (hafter : after.course.Valid)
    (h : (toggleIssue id index date).run e = (.ok answer, after)) :
    ∃ last, (toggleIssue id index date).run after = (.ok (!answer), last) ∧
      ∀ p i d, last.course.appeared? p i d = e.course.appeared? p i d := by
  obtain ⟨place, b, issue, hid, hcovers, hanswer, hmarked, hthere, helsewhere, -⟩ :=
    (marks_toggleIssue hvalid).marked answer after h
  have hagain : (toggleIssue id index date).Marks after id index date fun was => (!was, !was) :=
    marks_toggleIssue hafter
  have hfree : ∃ b ∈ after.course.blocks, b.id = id ∧ b.covers date = true ∧
      index < b.issues.length := hmarked.free hid hcovers
  obtain ⟨answer', last, hrun⟩ := hagain.succeeds.2 hfree
  obtain ⟨place', b', issue', hid', -, hanswer', hmarked', hthere', helsewhere', -⟩ :=
    hagain.marked answer' last hrun
  have hplace := place_eq hafter hmarked hmarked'.block (hid'.trans hid.symm)
  subst hplace
  -- the second time the issue is found as the first time has left it
  have hwas : issue'.appearsOn date = !issue.appearsOn date :=
    Option.some.inj (hmarked'.before.symm.trans hthere)
  refine ⟨last, ?_, ?_⟩
  · have hback : answer' = !answer := by
      rw [hanswer, hanswer']
      exact congrArg (!·) hwas
    rw [← hback]
    exact hrun
  · intro p i d
    by_cases heq : (p, i, d) = (place', index, date)
    · cases heq
      rw [hthere', hwas, hmarked.before, Bool.not_not]
    · rw [helsewhere' p i d heq, helsewhere p i d heq]

end Edit

namespace Editor

/-- In the editors of a session selecting, unselecting and toggling an issue on a date
succeed exactly if the block is there, covers the date and has the issue, and else say which
of these is the first that fails.  They change whether that issue appeared on that date and
nothing else, whatever exceptions it has; the count of a course follows.  Toggling twice
undoes it. -/
theorem marks_of_reachable {e : Editor} (h : e.Reachable) (id index : Nat) (date : Date) :
    (Edit.selectIssue id index date).Marks e id index date (fun _ => ((), true)) ∧
      (Edit.unselectIssue id index date).Marks e id index date (fun _ => ((), false)) ∧
      (Edit.toggleIssue id index date).Marks e id index date (fun was => (!was, !was)) ∧
      ∀ answer after, (Edit.toggleIssue id index date).run e = (.ok answer, after) →
        ∃ last, (Edit.toggleIssue id index date).run after = (.ok (!answer), last) ∧
          ∀ p i d, last.course.appeared? p i d = e.course.appeared? p i d := by
  have hvalid := (sound_of_reachable h).valid
  refine ⟨Edit.marks_selectIssue hvalid, Edit.marks_unselectIssue hvalid,
    Edit.marks_toggleIssue hvalid, ?_⟩
  intro answer after hrun
  have hperform : e.perform (.toggleIssue id index date) = after := congrArg Prod.snd hrun
  have hafter := (sound_of_reachable (hperform ▸ h.perform (.toggleIssue id index date))).valid
  exact Edit.toggleIssue_twice hvalid hafter hrun

/-- A session in which an issue was selected on a Monday before Mondays became regular. -/
def overtaken : Editor :=
  [.setPeriod "1.1.1850" "14.1.1850", .addIssue "Morning",
    .selectIssue 1 0 ⟨1850, 1, 7, by decide⟩, .setRegular 0 .mon true].foldl perform
    (blank .standard ⟨2025, 3, 1, by decide⟩)

theorem marks_of_reachable_overtaken :
    overtaken.Reachable ∧
      overtaken.course.blocks.map (fun b => b.issues.map (·.additions.dates)) =
        [[[⟨1850, 1, 7, by decide⟩]]] ∧
      overtaken.course.countAppearances = 2 ∧
      (Edit.unselectIssue 1 0 ⟨1850, 1, 7, by decide⟩).Marks overtaken 1 0
        ⟨1850, 1, 7, by decide⟩ (fun _ => ((), false)) ∧
      ((Edit.unselectIssue 1 0 ⟨1850, 1, 7, by decide⟩).run overtaken).2.course.countAppearances
        = 1 := by
  have hreach : overtaken.Reachable := (Reachable.blank _ _).foldl _
  obtain ⟨-, hunselect, -⟩ := marks_of_reachable hreach 1 0 ⟨1850, 1, 7, by decide⟩
  exact ⟨hreach, by decide +kernel, by decide +kernel, hunselect, by decide +kernel⟩

end Editor
end PressCalendar
