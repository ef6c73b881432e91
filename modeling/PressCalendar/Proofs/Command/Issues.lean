/-
Commands on the issues of a block.

A user names a block and an issue by their numbers, counted from 1.  `Change.Affects` says
what each command makes of the issues of the block, the issue of a number being the one with
one fewer in front of it, and `Change.IssueRefusal` why a command is refused, with the numbers
as they were typed.  `performs_issue` shows that in an editor one or the other happens.
-/
import PressCalendar.Proofs.Command.Change
import PressCalendar.Proofs.Date.Typed
import PressCalendar.Proofs.Editor.Editing
import PressCalendar.Weekday.Typed

namespace PressCalendar

/-! ## Days by name -/

namespace Weekday

/-- A word is a name of the day, whatever letters of it are capitals. -/
def IsNamed (d : Weekday) (name : String) : Prop :=
  name.toList.map Char.toLower = d.key.toList ∨ name.toList.map Char.toLower = d.long.toList

/-- A list of names has one of the day among them.  The word for no day is no list. -/
def NamedIn (d : Weekday) (word : String) : Prop :=
  (Text.trim word.toList).map Char.toLower ≠ "none".toList ∧
    ∃ name ∈ Text.items ',' word, d.IsNamed name

/-- No name is that of two days. -/
theorem ofName?_eq_some_iff {name : String} {d : Weekday} :
    ofName? name = some d ↔ d.IsNamed name := by
  unfold ofName? IsNamed
  generalize name.toList.map Char.toLower = lower
  constructor
  · intro h
    have hd := List.find?_some h
    simp only [Bool.or_eq_true, beq_iff_eq] at hd
    exact hd.imp Eq.symm Eq.symm
  · intro h
    rcases h with rfl | rfl <;> cases d <;> decide

theorem mem_of_readList {word : String} {days : List Weekday} (h : readList word = .ok days)
    (d : Weekday) : d ∈ days ↔ d.NamedIn word := by
  have hread : ∀ name, read name = .ok d ↔ d.IsNamed name := by
    intro name
    rw [← ofName?_eq_some_iff, read]
    cases ofName? name <;> simp
  unfold readList at h
  by_cases hnone : (Text.trim word.toList).map Char.toLower = "none".toList
  · rw [if_pos hnone] at h
    cases h
    exact iff_of_false List.not_mem_nil fun hnamed => hnamed.1 hnone
  · rw [if_neg hnone] at h
    simp only [mem_of_mapM_eq_ok h, hread, NamedIn, ne_eq, hnone, not_false_eq_true, true_and]

end Weekday

namespace Change

open Edit (Parallel)

/-- The block and, where there is one already, the issue that a command is about. -/
def issuePlace? : Change → Option (Nat × Option Nat)
  | .addIssue block _ _ => some (block, none)
  | .removeIssue block issue => some (block, some issue)
  | .setDays block issue _ => some (block, some issue)
  | .renameIssue block issue _ => some (block, some issue)
  | .toggleIssue block issue _ => some (block, some issue)
  | _ => none

/-- What a command on an issue makes of the issues of the block, and what it reports.  The
issues in front of the one it names, and those behind it, stay as they are. -/
inductive Affects (today : Date) (b : Block) : Change → Deed → List Issue → Prop
  | add {block : Nat} {heading : String} {days : List Weekday} {issue : Issue}
    (hheading : issue.heading = heading) (hdays : ∀ d, issue.isRegularOn d = true ↔ d ∈ days)
    (hadditions : issue.additions = .empty) (hexclusions : issue.exclusions = .empty) :
    Affects today b (.addIssue block heading days)
      (.issueAdded block (b.issues.length + 1) heading) (b.issues ++ [issue])
  | remove {block : Nat} {front back : List Issue} {issue : Issue}
    (h : b.issues = front ++ issue :: back) :
    Affects today b (.removeIssue block (front.length + 1)) (.issueRemoved block issue.heading)
      (front ++ back)
  | setDays {block : Nat} {days : List Weekday} {front back : List Issue} {issue changed : Issue}
    (h : b.issues = front ++ issue :: back) (hheading : changed.heading = issue.heading)
    (hadditions : changed.additions = issue.additions)
    (hexclusions : changed.exclusions = issue.exclusions)
    (hdays : ∀ d, changed.isRegularOn d = true ↔ d ∈ days) :
    Affects today b (.setDays block (front.length + 1) days) (.daysSet block (front.length + 1))
      (front ++ changed :: back)
  | rename {block : Nat} {heading : String} {front back : List Issue} {issue : Issue}
    (h : b.issues = front ++ issue :: back) :
    Affects today b (.renameIssue block (front.length + 1) heading)
      (.issueRenamed block (front.length + 1) heading) (front ++ { issue with heading } :: back)
  | toggle {block : Nat} {input : String} {typed : TypedDate} {front back : List Issue}
    {issue changed : Issue} (h : b.issues = front ++ issue :: back)
    (hread : TypedDate.read today input = .ok typed) (hcovers : b.covers typed.date = true)
    (hmarks : issue.Marks typed.date (!issue.appearsOn typed.date) changed) :
    Affects today b (.toggleIssue block (front.length + 1) input)
      (.issueToggled (front.length + 1) (!issue.appearsOn typed.date) typed.date)
      (front ++ changed :: back)

/-- Why a command on an issue is refused.  That no issue has the number 0 is found out first,
before the block is looked for, and that the block has no such issue last, after the date of
a toggle was read and found to lie within the block. -/
inductive IssueRefusal (today : Date) (c : Course) : Change → Error → Prop
  | zero {change : Change} {block : Nat} (h : change.issuePlace? = some (block, some 0)) :
    IssueRefusal today c change (.unknownIssue 0)
  | block {change : Change} {block : Nat} {issue? : Option Nat}
    (h : change.issuePlace? = some (block, issue?)) (hissue : issue? ≠ some 0)
    (hblock : block = 0 ∨ c.blocks.length < block) :
    IssueRefusal today c change (.unknownBlock block)
  | date {i issue : Nat} {b : Block} {input : String} {cause : Error}
    (hb : c.blocks[i]? = some b) (hissue : issue ≠ 0)
    (hread : TypedDate.read today input = .error cause) :
    IssueRefusal today c (.toggleIssue (i + 1) issue input) cause
  | outside {i issue : Nat} {b : Block} {input : String} {typed : TypedDate}
    (hb : c.blocks[i]? = some b) (hissue : issue ≠ 0)
    (hread : TypedDate.read today input = .ok typed) (hcovers : b.covers typed.date = false) :
    IssueRefusal today c (.toggleIssue (i + 1) issue input)
      (.invalidRange s!"{typed.date.display} is outside the block {b.label}")
  | issue {change : Change} {i issue : Nat} {b : Block}
    (h : change.issuePlace? = some (i + 1, some issue)) (hb : c.blocks[i]? = some b)
    (hissue : b.issues.length < issue)
    (hdate : ∀ input, change = .toggleIssue (i + 1) issue input →
      ∃ typed, TypedDate.read today input = .ok typed ∧ b.covers typed.date = true) :
    IssueRefusal today c change (.unknownIssue issue)

variable {α : Type} {e a : Editor} {i : Nat} {b : Block} {k : Nat → Edit Outcome}

/-! ## From the numbers of the user to the editor and back -/

/-- The edit on an issue of a block, or what refuses it before a course is looked at. -/
def editOn (block issue : Nat) (k : Nat → Edit Outcome) : Edit Outcome :=
  match onIssue block issue k with
  | .ok edit => edit
  | .error cause => throw cause

theorem run_editOn_zero (block : Nat) (k : Nat → Edit Outcome) (e : Editor) :
    (editOn block 0 k).run e = (.error (.unknownIssue 0), e) := rfl

theorem run_editOn_of_none {block issue : Nat} (hissue : issue ≠ 0)
    (h : block = 0 ∨ e.course.blocks.length < block) (k : Nat → Edit Outcome) :
    (editOn block issue k).run e = (.error (.unknownBlock block), e) := by
  obtain ⟨index, rfl⟩ := Nat.exists_eq_succ_of_ne_zero hissue
  show (ExceptT.adapt numbered (Edit.selectNumber block >>= fun _ => k index)).run e = _
  rw [Parallel.run_adapt, run_bind_error (Edit.run_selectNumber_of_none h)]
  rfl

/-- Where the block is, the edit is made on its issue of the index before, and a number in
the failure is turned back. -/
theorem exists_run_editOn (he : e.course.Valid) (hb : e.course.blocks[i]? = some b)
    (index : Nat) (k : Nat → Edit Outcome) :
    ∃ a, e.Editing i b b.issues a ∧ (editOn (i + 1) (index + 1) k).run e =
      (((k index).run a).1.mapError numbered, ((k index).run a).2) := by
  obtain ⟨a, hrun, -, hediting⟩ := Edit.exists_run_selectNumber he hb
  refine ⟨a, hediting, ?_⟩
  show (ExceptT.adapt numbered (Edit.selectNumber (i + 1) >>= fun _ => k index)).run e = _
  rw [Parallel.run_adapt, run_bind_ok hrun]

theorem run_editOn_ok (he : e.course.Valid) (hb : e.course.blocks[i]? = some b) {index : Nat}
    {issues : List Issue} {u : Outcome}
    (h : ∀ a, e.Editing i b b.issues a →
      ∃ after, (k index).run a = (.ok u, after) ∧ e.Editing i b issues after) :
    ∃ after, (editOn (i + 1) (index + 1) k).run e = (.ok u, after) ∧
      e.Editing i b issues after := by
  obtain ⟨a, hediting, hrun⟩ := exists_run_editOn he hb index k
  obtain ⟨after, hk, hafter⟩ := h a hediting
  refine ⟨after, ?_, hafter⟩
  rw [hrun, hk]
  rfl

theorem run_editOn_error (he : e.course.Valid) (hb : e.course.blocks[i]? = some b) {index : Nat}
    (cause : Error) (h : ∀ a, e.Editing i b b.issues a → (k index).run a = (.error cause, a)) :
    ∃ after, (editOn (i + 1) (index + 1) k).run e = (.error (numbered cause), after) := by
  obtain ⟨a, hediting, hrun⟩ := exists_run_editOn he hb index k
  refine ⟨a, ?_⟩
  rw [hrun, h a hediting]
  rfl

theorem perform_removeIssue (block issue : Nat) :
    perform (.removeIssue block issue) = editOn block issue fun index => do
      let removed ← Edit.removeIssue index
      return ⟨[], .issueRemoved block removed.heading⟩ := rfl

theorem perform_setDays (block issue : Nat) (days : List Weekday) :
    perform (.setDays block issue days) = editOn block issue fun index => do
      setDaysOf index days
      return ⟨[], .daysSet block issue⟩ := rfl

theorem perform_renameIssue (block issue : Nat) (heading : String) :
    perform (.renameIssue block issue heading) = editOn block issue fun index => do
      Edit.setHeading index heading
      return ⟨[], .issueRenamed block issue heading⟩ := rfl

theorem perform_toggleIssue (block issue : Nat) (input : String) :
    perform (.toggleIssue block issue input) = editOn block issue fun index => do
      let (date, appeared, notices) ← toggleOn index input
      return ⟨notices, .issueToggled issue appeared date⟩ := rfl

/-! ## Commands that are refused -/

variable {today : Date} {change : Change} {cause : Error} {index : Nat} {issues : List Issue}

/-- A command adds an issue, or it is an edit on an issue that has a number. -/
theorem issuePlace?_cases {block : Nat} {issue? : Option Nat}
    (h : change.issuePlace? = some (block, issue?)) :
    (issue? = none ∧ ∃ heading days, change = .addIssue block heading days) ∨
      ∃ issue k, issue? = some issue ∧ change.perform = editOn block issue k := by
  cases change with
  | addIssue block' heading days =>
    cases h
    exact .inl ⟨rfl, heading, days, rfl⟩
  | removeIssue block' issue =>
    cases h
    exact .inr ⟨issue, _, rfl, perform_removeIssue block issue⟩
  | setDays block' issue days =>
    cases h
    exact .inr ⟨issue, _, rfl, perform_setDays block issue days⟩
  | renameIssue block' issue heading =>
    cases h
    exact .inr ⟨issue, _, rfl, perform_renameIssue block issue heading⟩
  | toggleIssue block' issue input =>
    cases h
    exact .inr ⟨issue, _, rfl, perform_toggleIssue block issue input⟩
  | addBlock first last => cases h
  | setBlock block' first last => cases h
  | copyBlock block' => cases h
  | removeBlock block' => cases h

theorem run_toggleOn {typed : TypedDate} (h : e.Editing i b issues a) {input : String}
    (hread : TypedDate.read e.today input = .ok typed) :
    (toggleOn index input).run a = (Edit.toggleIssue b.id index typed.date >>= fun appeared =>
      pure (typed.date, appeared, typed.hints.map (Notice.ofHint .issueDate))).run a := by
  have hdate : (Edit.readDate input .issueDate).run a =
      (.ok (typed.date, typed.hints.map (Notice.ofHint .issueDate)), a) := by
    rw [Edit.run_readDate, h.today, hread]
    rfl
  unfold toggleOn
  rw [run_bind_ok hdate, Edit.run_get_bind]
  simp only [h.showing]

theorem run_toggleOn_of_refusal (he : e.course.Valid) (h : e.Editing i b issues a)
    {typed : TypedDate} {input : String} (hread : TypedDate.read e.today input = .ok typed)
    (hrefusal : a.course.MarkRefusal b.id index typed.date cause) :
    (toggleOn index input).run a = (.error cause, a) := by
  rw [run_toggleOn h hread]
  exact run_bind_error (((Edit.marks_toggleIssue (h.valid he)).refused cause a).2 ⟨hrefusal, rfl⟩)

/-- The block of an editor on the way is one of its course. -/
theorem mem_blocks (h : e.Editing i b issues a) : { b with issues } ∈ a.course.blocks :=
  List.mem_of_getElem? h.getElem?

theorem run_of_refusal_issue (he : e.course.Valid)
    (h : change.issuePlace? = some (i + 1, some (index + 1)))
    (hb : e.course.blocks[i]? = some b) (hissue : b.issues[index]? = none)
    (hdate : ∀ input, change = .toggleIssue (i + 1) (index + 1) input →
      ∃ typed, TypedDate.read e.today input = .ok typed ∧ b.covers typed.date = true) :
    ∃ after, change.perform.run e = (.error (.unknownIssue (index + 1)), after) := by
  cases change with
  | removeIssue block' issue =>
    cases h
    rw [perform_removeIssue]
    refine run_editOn_error he hb (.unknownIssue index) fun a hediting => ?_
    exact run_bind_error (Edit.run_removeIssue_of_none he hediting hissue)
  | setDays block' issue days =>
    cases h
    rw [perform_setDays]
    refine run_editOn_error he hb (.unknownIssue index) fun a hediting => ?_
    exact run_bind_error (run_bind_error (Edit.run_changeIssue_of_none he hediting hissue _))
  | renameIssue block' issue heading =>
    cases h
    rw [perform_renameIssue]
    refine run_editOn_error he hb (.unknownIssue index) fun a hediting => ?_
    exact run_bind_error (Edit.run_changeIssue_of_none he hediting hissue _)
  | toggleIssue block' issue input =>
    cases h
    obtain ⟨typed, hread, hcovers⟩ := hdate input rfl
    rw [perform_toggleIssue]
    refine run_editOn_error he hb (.unknownIssue index) fun a hediting => ?_
    refine run_bind_error (run_toggleOn_of_refusal he hediting hread ?_)
    exact .issue (mem_blocks hediting) rfl hcovers (List.getElem?_eq_none_iff.1 hissue)
  | addIssue block' heading days => cases h
  | addBlock first last => cases h
  | setBlock block' first last => cases h
  | copyBlock block' => cases h
  | removeBlock block' => cases h

theorem run_of_refusal (he : e.course.Valid) (h : IssueRefusal e.today e.course change cause) :
    ∃ after, change.perform.run e = (.error cause, after) := by
  cases h with
  | @zero _ block h =>
    rcases issuePlace?_cases h with ⟨hnone, -⟩ | ⟨issue, k, hissue, hperform⟩
    · cases hnone
    · cases hissue
      exact ⟨e, by rw [hperform, run_editOn_zero]⟩
  | @block _ number issue? h hissue hblock =>
    rcases issuePlace?_cases h with ⟨-, heading, days, rfl⟩ | ⟨issue, k, rfl, hperform⟩
    · exact ⟨e, run_bind_error (Edit.run_selectNumber_of_none hblock)⟩
    · refine ⟨e, ?_⟩
      rw [hperform]
      exact run_editOn_of_none (fun hzero => hissue (congrArg some hzero)) hblock k
  | @date i issue b input _ hb hissue hread =>
    obtain ⟨index, rfl⟩ := Nat.exists_eq_succ_of_ne_zero hissue
    obtain ⟨rfl, -⟩ := TypedDate.read_eq_error_iff.1 hread
    rw [perform_toggleIssue]
    refine run_editOn_error he hb (.unreadableDate input) fun a hediting => ?_
    have hdate : (Edit.readDate input .issueDate).run a = (.error (.unreadableDate input), a) := by
      rw [Edit.run_readDate, hediting.today, hread]
      rfl
    exact run_bind_error (run_bind_error hdate)
  | @outside i issue b input typed hb hissue hread hcovers =>
    obtain ⟨index, rfl⟩ := Nat.exists_eq_succ_of_ne_zero hissue
    rw [perform_toggleIssue]
    refine run_editOn_error he hb (.invalidRange _) fun a hediting => ?_
    refine run_bind_error (run_toggleOn_of_refusal he hediting hread ?_)
    exact .date (mem_blocks hediting) rfl hcovers
  | @issue _ i number b h hb hissue hdate =>
    obtain ⟨index, rfl⟩ := Nat.exists_eq_succ_of_ne_zero (by omega : number ≠ 0)
    exact run_of_refusal_issue he h hb (List.getElem?_eq_none (by omega)) hdate

/-! ## Commands that are carried out -/

/-- A command is carried out on the block at a place. -/
def Performs (change : Change) (e : Editor) (i : Nat) (b : Block) : Prop :=
  ∃ u issues after, change.perform.run e = (.ok u, after) ∧
    Affects e.today b change u.deed issues ∧ e.Editing i b issues after

theorem performs_addIssue (he : e.course.Valid) (hb : e.course.blocks[i]? = some b)
    (heading : String) (days : List Weekday) :
    (addIssue (i + 1) heading days).Performs e i b := by
  obtain ⟨a, hselect, -, ha⟩ := Edit.exists_run_selectNumber he hb
  obtain ⟨a', hadd, ha'⟩ := Edit.exists_run_addIssue he ha heading
  have hlast : (b.issues ++ [Issue.irregular heading])[b.issues.length]? =
      some (.irregular heading) := List.getElem?_concat_length
  obtain ⟨after, hset, hafter⟩ := Edit.exists_run_setRegularEach he (fun _ => true) days ha' hlast
  have hissues : (b.issues ++ [Issue.irregular heading]).set b.issues.length
      ((Issue.irregular heading).withDays (fun _ => true) days) =
        b.issues ++ [(Issue.irregular heading).withDays (fun _ => true) days] := by
    rw [List.set_append_right _ _ (Nat.le_refl _), Nat.sub_self, List.set_cons_zero]
  rw [hissues] at hafter
  obtain ⟨hheading, hadditions, hexclusions⟩ :=
    (Issue.irregular heading).withDays_rest (fun _ => true) days
  have hdays : ∀ d, ((Issue.irregular heading).withDays (fun _ => true) days).isRegularOn d =
      true ↔ d ∈ days := by
    intro d
    have hnever : (Issue.irregular heading).isRegularOn d = false := WeekPattern.has_never d
    rw [Issue.isRegularOn_withDays, hnever]
    simp
  refine ⟨⟨[], .issueAdded (i + 1) (b.issues.length + 1) heading⟩, _, after, ?_,
    .add hheading hdays hadditions hexclusions, hafter⟩
  show (addIssueEdit (i + 1) heading days).run e = _
  unfold addIssueEdit
  rw [run_bind_ok hselect, run_bind_ok hadd, run_bind_ok hset]
  rfl

variable {issue : Issue} {front back : List Issue}

/-- The issue of an index has as many others in front of it. -/
theorem exists_position (h : b.issues[index]? = some issue) :
    ∃ front back, b.issues = front ++ issue :: back ∧ index = front.length ∧
      (∀ changed, b.issues.set index changed = front ++ changed :: back) ∧
      b.issues.eraseIdx index = front ++ back := by
  obtain ⟨front, back, hissues, rfl, hset⟩ := exists_split_set h
  refine ⟨front, back, hissues, rfl, hset, ?_⟩
  rw [hissues, List.eraseIdx_append_of_length_le (Nat.le_refl _), Nat.sub_self,
    List.eraseIdx_cons_zero]

theorem performs_editOn (he : e.course.Valid) (hb : e.course.blocks[i]? = some b)
    (hperform : change.perform = editOn (i + 1) (index + 1) k) (u : Outcome)
    (haffects : Affects e.today b change u.deed issues)
    (h : ∀ a, e.Editing i b b.issues a →
      ∃ after, (k index).run a = (.ok u, after) ∧ e.Editing i b issues after) :
    change.Performs e i b := by
  obtain ⟨after, hrun, hafter⟩ := run_editOn_ok he hb h
  exact ⟨u, issues, after, hperform ▸ hrun, haffects, hafter⟩

theorem performs_removeIssue (he : e.course.Valid) (hb : e.course.blocks[i]? = some b)
    (h : b.issues[index]? = some issue) : (removeIssue (i + 1) (index + 1)).Performs e i b := by
  obtain ⟨front, back, hissues, rfl, -, herase⟩ := exists_position h
  refine performs_editOn he hb (perform_removeIssue _ _) ⟨[], _⟩ (.remove hissues) fun a ha => ?_
  obtain ⟨after, hremove, hafter⟩ := Edit.exists_run_removeIssue he ha h
  rw [herase] at hafter
  exact ⟨after, run_bind_ok hremove, hafter⟩

theorem performs_setDays (he : e.course.Valid) (hb : e.course.blocks[i]? = some b)
    (h : b.issues[index]? = some issue) (days : List Weekday) :
    (setDays (i + 1) (index + 1) days).Performs e i b := by
  obtain ⟨front, back, hissues, rfl, hset, -⟩ := exists_position h
  obtain ⟨hheading, hadditions, hexclusions⟩ :=
    issue.withDays_rest (days.contains ·) Weekday.all
  have hdays : ∀ d, (issue.withDays (days.contains ·) Weekday.all).isRegularOn d = true ↔
      d ∈ days := by
    intro d
    rw [Issue.isRegularOn_withDays, if_pos (Weekday.mem_all d), List.contains_iff_mem]
  refine performs_editOn he hb (perform_setDays _ _ _) ⟨[], _⟩
    (.setDays hissues hheading hadditions hexclusions hdays) fun a ha => ?_
  obtain ⟨after, hrun, hafter⟩ :=
    Edit.exists_run_setRegularEach he (days.contains ·) Weekday.all ha h
  rw [hset] at hafter
  exact ⟨after, run_bind_ok hrun, hafter⟩

theorem performs_renameIssue (he : e.course.Valid) (hb : e.course.blocks[i]? = some b)
    (h : b.issues[index]? = some issue) (heading : String) :
    (renameIssue (i + 1) (index + 1) heading).Performs e i b := by
  obtain ⟨front, back, hissues, rfl, hset, -⟩ := exists_position h
  refine performs_editOn he hb (perform_renameIssue _ _ _) ⟨[], _⟩ (.rename hissues) fun a ha => ?_
  obtain ⟨after, hrename, hafter⟩ := Edit.exists_run_changeIssue he ha h (·.rename heading)
  rw [hset] at hafter
  exact ⟨after, run_bind_ok hrename, hafter⟩

theorem performs_toggleIssue (he : e.course.Valid) (hb : e.course.blocks[i]? = some b)
    (h : b.issues[index]? = some issue) {typed : TypedDate} {input : String}
    (hread : TypedDate.read e.today input = .ok typed) (hcovers : b.covers typed.date = true) :
    (toggleIssue (i + 1) (index + 1) input).Performs e i b := by
  obtain ⟨front, back, hissues, rfl, hset, -⟩ := exists_position h
  refine performs_editOn he hb (perform_toggleIssue _ _ _)
    ⟨typed.hints.map (Notice.ofHint .issueDate), _⟩
    (.toggle hissues hread hcovers (issue.marks_toggled typed.date)) fun a ha => ?_
  obtain ⟨after, htoggle, hafter⟩ := Edit.exists_run_toggleIssue he ha h hcovers
  rw [hset] at hafter
  have hon : (toggleOn front.length input).run a = (.ok (typed.date, !issue.appearsOn typed.date,
      typed.hints.map (Notice.ofHint .issueDate)), after) := by
    rw [run_toggleOn ha hread]
    exact run_bind_ok htoggle
  exact ⟨after, run_bind_ok hon, hafter⟩

/-- Once its block is found and, for a toggle, its date, a command on an issue depends only on
whether there is the issue. -/
theorem refusal_or_performs_of_block (hb : e.course.blocks[i]? = some b)
    (h : change.issuePlace? = some (i + 1, some (index + 1)))
    (hdate : ∀ input, change = .toggleIssue (i + 1) (index + 1) input →
      ∃ typed, TypedDate.read e.today input = .ok typed ∧ b.covers typed.date = true)
    (hperforms : ∀ issue, b.issues[index]? = some issue → change.Performs e i b) :
    (∃ cause, IssueRefusal e.today e.course change cause) ∨ change.Performs e i b := by
  cases hissue : b.issues[index]? with
  | some issue => exact .inr (hperforms issue hissue)
  | none =>
    have hlt := List.getElem?_eq_none_iff.1 hissue
    exact .inl ⟨_, .issue h hb (by omega) hdate⟩

/-- A command on an issue that is not refused is carried out. -/
theorem refusal_or_performs (he : e.course.Valid) {number : Nat} {issue? : Option Nat}
    (h : change.issuePlace? = some (number, issue?)) :
    (∃ cause, IssueRefusal e.today e.course change cause) ∨
      ∃ i b, number = i + 1 ∧ change.Performs e i b := by
  by_cases hzero : issue? = some 0
  · exact .inl ⟨_, .zero (hzero ▸ h)⟩
  by_cases hnumber : number = 0 ∨ e.course.blocks.length < number
  · exact .inl ⟨_, .block h hzero hnumber⟩
  obtain ⟨i, b, rfl, hb⟩ := Edit.exists_place_of_number hnumber
  have hfound : (∃ cause, IssueRefusal e.today e.course change cause) ∨
      change.Performs e i b := by
    cases change with
    | addIssue block heading days =>
      cases h
      exact .inr (performs_addIssue he hb heading days)
    | removeIssue block issue =>
      cases h
      obtain ⟨index, rfl⟩ := Nat.exists_eq_succ_of_ne_zero (fun heq => hzero (congrArg some heq))
      exact refusal_or_performs_of_block hb rfl (fun _ heq => by cases heq)
        fun _ hissue => performs_removeIssue he hb hissue
    | setDays block issue days =>
      cases h
      obtain ⟨index, rfl⟩ := Nat.exists_eq_succ_of_ne_zero (fun heq => hzero (congrArg some heq))
      exact refusal_or_performs_of_block hb rfl (fun _ heq => by cases heq)
        fun _ hissue => performs_setDays he hb hissue days
    | renameIssue block issue heading =>
      cases h
      obtain ⟨index, rfl⟩ := Nat.exists_eq_succ_of_ne_zero (fun heq => hzero (congrArg some heq))
      exact refusal_or_performs_of_block hb rfl (fun _ heq => by cases heq)
        fun _ hissue => performs_renameIssue he hb hissue heading
    | toggleIssue block issue input =>
      cases h
      obtain ⟨index, rfl⟩ := Nat.exists_eq_succ_of_ne_zero (fun heq => hzero (congrArg some heq))
      cases hread : TypedDate.read e.today input with
      | error cause => exact .inl ⟨_, .date hb (Nat.succ_ne_zero index) hread⟩
      | ok typed =>
        cases hcovers : b.covers typed.date with
        | false => exact .inl ⟨_, .outside hb (Nat.succ_ne_zero index) hread hcovers⟩
        | true =>
          refine refusal_or_performs_of_block hb rfl ?_
            fun _ hissue => performs_toggleIssue he hb hissue hread hcovers
          intro input' heq
          cases heq
          exact ⟨typed, hread, hcovers⟩
    | addBlock first last => cases h
    | setBlock block first last => cases h
    | copyBlock block => cases h
    | removeBlock block => cases h
  exact hfound.imp_right fun hperforms => ⟨i, b, rfl, hperforms⟩

/-- In an editor a command on an issue fails exactly for the reasons there are to refuse it,
and else it affects the block of its number. -/
theorem performs_issue (he : e.course.Valid) {number : Nat} {issue? : Option Nat}
    (h : change.issuePlace? = some (number, issue?)) :
    (∀ cause, (∃ after, change.perform.run e = (.error cause, after)) ↔
      IssueRefusal e.today e.course change cause) ∧
    ∀ u after, change.perform.run e = (.ok u, after) → ∃ i b issues, number = i + 1 ∧
      Affects e.today b change u.deed issues ∧ e.Editing i b issues after := by
  rcases refusal_or_performs he h with ⟨cause, hrefusal⟩ | ⟨i, b, hnumber, hperforms⟩
  · obtain ⟨after, hrun⟩ := run_of_refusal he hrefusal
    refine ⟨?_, ?_⟩
    · intro other
      refine ⟨?_, run_of_refusal he⟩
      intro ⟨after', hrun'⟩
      cases hrun.symm.trans hrun'
      exact hrefusal
    · intro u after' hrun'
      cases hrun.symm.trans hrun'
  · obtain ⟨u, issues, after, hrun, haffects, hediting⟩ := hperforms
    refine ⟨?_, ?_⟩
    · intro cause
      refine ⟨?_, run_of_refusal he⟩
      intro ⟨after', hrun'⟩
      cases hrun.symm.trans hrun'
    · intro u' after' hrun'
      cases hrun.symm.trans hrun'
      exact ⟨i, b, issues, hnumber, haffects, hediting⟩

end Change
end PressCalendar
