/-
The issues of the block being edited.

A command first selects a block and then changes its issues, often in several requests.
`Editor.Editing` describes an editor on the way: the block at a place is being edited and
has come to have certain issues, and all other blocks are those of the course it began with.
Each request on issues takes one such editor to the next, or fails and leaves it as it is.
-/
import PressCalendar.Proofs.Editor.Marking
import PressCalendar.Proofs.Editor.Twins

namespace PressCalendar

/-! ## Weekdays set one after the other -/

namespace Issue

/-- An issue with some weekdays set, each as a function of the day. -/
def withDays (issue : Issue) (appears : Weekday → Bool) (days : List Weekday) : Issue :=
  days.foldl (fun issue day => issue.setRegular day (appears day)) issue

variable {appears : Weekday → Bool} {days : List Weekday}

theorem isRegularOn_withDays (issue : Issue) (d : Weekday) :
    (issue.withDays appears days).isRegularOn d =
      if d ∈ days then appears d else issue.isRegularOn d := by
  induction days generalizing issue with
  | nil => rfl
  | cons day days ih =>
    show ((issue.setRegular day (appears day)).withDays appears days).isRegularOn d = _
    have hset : (issue.setRegular day (appears day)).isRegularOn d =
        if d = day then appears day else issue.isRegularOn d :=
      WeekPattern.has_set issue.pattern day d (appears day)
    rw [ih, hset]
    by_cases hd : d = day
    · subst hd
      simp
    · simp [hd]

theorem withDays_rest (issue : Issue) (appears : Weekday → Bool) (days : List Weekday) :
    (issue.withDays appears days).heading = issue.heading ∧
      (issue.withDays appears days).additions = issue.additions ∧
      (issue.withDays appears days).exclusions = issue.exclusions := by
  induction days generalizing issue with
  | nil => exact ⟨rfl, rfl, rfl⟩
  | cons day days ih => exact ih (issue.setRegular day (appears day))

end Issue

namespace Editor

theorem showingBlock?_eq {a : Editor} {i : Nat} {b : Block} (ha : a.course.Valid)
    (hb : a.course.blocks[i]? = some b) (hshowing : a.showing = some b.id) :
    a.showingBlock? = some b := by
  rw [showingBlock?, hshowing]
  exact ha.block?_eq hb

/-- The block at a place is being edited and has some issues now; the dates of that block
and all other blocks are what they were, and so are the count of numbers, the day and the
preferences. -/
structure Editing (e : Editor) (i : Nat) (b : Block) (issues : List Issue) (a : Editor) : Prop where
  place : e.course.blocks[i]? = some b
  blocks : a.course.blocks = e.course.blocks.set i { b with issues }
  lastId : a.course.lastId = e.course.lastId
  showing : a.showing = some b.id
  today : a.today = e.today
  preferences : a.preferences = e.preferences

namespace Editing

variable {e a : Editor} {i : Nat} {b : Block} {issues : List Issue}

theorem getElem? (h : e.Editing i b issues a) : a.course.blocks[i]? = some { b with issues } := by
  rw [h.blocks, List.getElem?_set_self (List.getElem?_eq_some_iff.1 h.place).1]

theorem valid (h : e.Editing i b issues a) (he : e.course.Valid) : a.course.Valid := by
  obtain ⟨front, back, hblocks, -, hset⟩ := exists_split_set h.place
  have hvalid := he.withIssues hblocks issues
  have hafter : a.course.blocks = front ++ { b with issues } :: back := by
    rw [h.blocks, hset]
  refine ⟨?_, ?_, ?_⟩
  · rw [hafter]
    exact hvalid.toInOrder
  · rw [hafter]
    exact hvalid.distinct
  · rw [hafter, h.lastId]
    exact hvalid.numbered

theorem showingBlock (h : e.Editing i b issues a) (he : e.course.Valid) :
    a.showingBlock = .ok { b with issues } :=
  showingBlock_eq (showingBlock?_eq (h.valid he) h.getElem? h.showing)

end Editing
end Editor

namespace Edit

variable {α : Type} {e a : Editor} {i : Nat} {b : Block} {issues issues' : List Issue}

/-! ## Selecting the block -/

theorem run_selectNumber_of_none {number : Nat} (h : number = 0 ∨ e.course.blocks.length < number) :
    (selectNumber number).run e = (.error (.unknownBlock number), e) := by
  unfold selectNumber
  rw [run_get_bind]
  cases number with
  | zero => rfl
  | succ index =>
    have hnone : e.course.blocks[index]? = none := List.getElem?_eq_none (by omega)
    simp only [hnone]
    rfl

theorem exists_place_of_number {number : Nat}
    (h : ¬(number = 0 ∨ e.course.blocks.length < number)) :
    ∃ i b, number = i + 1 ∧ e.course.blocks[i]? = some b := by
  cases number with
  | zero => exact absurd (.inl rfl) h
  | succ i => exact ⟨i, _, rfl, List.getElem?_eq_getElem (by omega)⟩

theorem exists_run_selectNumber (he : e.course.Valid) (hb : e.course.blocks[i]? = some b) :
    ∃ a, (selectNumber (i + 1)).run e =
        (.ok (if e.showing = some b.id then [] else a.implausibilities), a) ∧
      a.course = e.course ∧ e.Editing i b b.issues a := by
  obtain ⟨a, hrun, hcourse, hshowing, htoday, hpreferences⟩ := exists_run_selectBlock he hb
  refine ⟨a, ?_, hcourse, hb, ?_, by rw [hcourse], hshowing, htoday, hpreferences⟩
  · unfold selectNumber
    rw [run_get_bind]
    simp only [hb]
    exact hrun
  · obtain ⟨hi, rfl⟩ := List.getElem?_eq_some_iff.1 hb
    rw [hcourse, List.set_getElem_self]

/-! ## Reading a date -/

theorem run_readDate (input : String) (field : DateField) (e : Editor) :
    (readDate input field).run e = ((TypedDate.read e.today input).map fun typed =>
      (typed.date, typed.hints.map (Notice.ofHint field)), e) := by
  unfold readDate
  rw [run_ask]
  cases TypedDate.read e.today input <;> rfl

/-! ## Requests on the issues of the block -/

theorem exists_run_changeBlock (he : e.course.Valid) (h : e.Editing i b issues a)
    {f : Block → Except Error (α × Block)} {answer : α}
    (hf : f { b with issues } = .ok (answer, { b with issues := issues' })) :
    ∃ a', (changeBlock f).run a = (.ok answer, a') ∧ e.Editing i b issues' a' := by
  have hmodify := (h.valid he).modify_eq h.getElem? { b with issues := issues' }
  let changed := a.course.modify b.id fun _ => { b with issues := issues' }
  refine ⟨Editor.touch { a with course := changed }, ?_, h.place, ?_, ?_, h.showing, h.today,
    h.preferences⟩
  · refine (run_ask_bind (h.showingBlock he)).trans ?_
    exact run_ask_bind (f := fun _ => f { b with issues }) hf
  · show (a.course.modify b.id _).blocks = _
    rw [hmodify, h.blocks, List.set_set]
  · show (a.course.modify b.id _).lastId = _
    rw [hmodify]
    exact h.lastId

theorem run_changeBlock_of_error (he : e.course.Valid) (h : e.Editing i b issues a)
    {f : Block → Except Error (α × Block)} {cause : Error}
    (hf : f { b with issues } = .error cause) :
    (changeBlock f).run a = (.error cause, a) := by
  refine (run_ask_bind (h.showingBlock he)).trans ?_
  exact run_ask_bind_of_error (f := fun _ => f { b with issues }) hf

variable {index : Nat} {issue : Issue}

theorem exists_run_changeIssue (he : e.course.Valid) (h : e.Editing i b issues a)
    (hissue : issues[index]? = some issue) (f : Issue → Issue) :
    ∃ a', (changeIssue index f).run a = (.ok (), a') ∧
      e.Editing i b (issues.set index (f issue)) a' := by
  refine exists_run_changeBlock he h ?_
  rw [issueAt_of_some hissue]
  rfl

theorem run_changeIssue_of_none (he : e.course.Valid) (h : e.Editing i b issues a)
    (hissue : issues[index]? = none) (f : Issue → Issue) :
    (changeIssue index f).run a = (.error (.unknownIssue index), a) := by
  refine run_changeBlock_of_error he h ?_
  rw [issueAt_of_none hissue]
  rfl

/-- One weekday after the other is set. -/
theorem exists_run_setRegularEach (he : e.course.Valid) (appears : Weekday → Bool)
    (days : List Weekday) (h : e.Editing i b issues a) (hissue : issues[index]? = some issue) :
    ∃ a', (days.forM fun day => setRegular index day (appears day)).run a = (.ok (), a') ∧
      e.Editing i b (issues.set index (issue.withDays appears days)) a' := by
  have hindex := (List.getElem?_eq_some_iff.1 hissue).1
  induction days generalizing a issues issue with
  | nil =>
    refine ⟨a, rfl, ?_⟩
    obtain ⟨_, rfl⟩ := List.getElem?_eq_some_iff.1 hissue
    rw [Issue.withDays, List.foldl_nil, List.set_getElem_self]
    exact h
  | cons day days ih =>
    obtain ⟨a', hrun, h'⟩ := exists_run_changeIssue he h hissue (·.setRegular day (appears day))
    have hnext : (issues.set index (issue.setRegular day (appears day)))[index]? =
        some (issue.setRegular day (appears day)) := List.getElem?_set_self hindex
    obtain ⟨last, hrest, hlast⟩ := ih h' hnext (by rwa [List.length_set])
    rw [List.set_set] at hlast
    exact ⟨last, (run_bind_ok hrun).trans hrest, hlast⟩

theorem exists_run_addIssue (he : e.course.Valid) (h : e.Editing i b issues a) (heading : String) :
    ∃ a', (addIssue heading).run a = (.ok issues.length, a') ∧
      e.Editing i b (issues ++ [.irregular heading]) a' :=
  exists_run_changeBlock he h rfl

theorem exists_run_removeIssue (he : e.course.Valid) (h : e.Editing i b issues a)
    (hissue : issues[index]? = some issue) :
    ∃ a', (removeIssue index).run a = (.ok issue, a') ∧
      e.Editing i b (issues.eraseIdx index) a' := by
  refine exists_run_changeBlock he h ?_
  simp only [Block.removeIssue?, hissue, Option.map_some]

theorem run_removeIssue_of_none (he : e.course.Valid) (h : e.Editing i b issues a)
    (hissue : issues[index]? = none) :
    (removeIssue index).run a = (.error (.unknownIssue index), a) := by
  refine run_changeBlock_of_error he h ?_
  simp only [Block.removeIssue?, hissue, Option.map_none]

theorem exists_run_toggleIssue (he : e.course.Valid) (h : e.Editing i b issues a)
    (hissue : issues[index]? = some issue) {date : Date} (hcovers : b.covers date = true) :
    ∃ a', (toggleIssue b.id index date).run a = (.ok (!issue.appearsOn date), a') ∧
      e.Editing i b (issues.set index (issue.toggled date)) a' := by
  have hfound : issueOn b.id index date a = .ok ({ b with issues }, issue) :=
    issueOn_of_mem (h.valid he) (List.mem_of_getElem? h.getElem?) hcovers hissue
  have hmodify := (h.valid he).modify_eq h.getElem?
    (Block.setIssue { b with issues } index (issue.toggled date))
  refine ⟨_, run_toggleIssue hfound, h.place, ?_, ?_, h.showing, h.today, h.preferences⟩
  · show (a.course.modify b.id _).blocks = _
    rw [hmodify, h.blocks, List.set_set]
    rfl
  · show (a.course.modify b.id _).lastId = _
    rw [hmodify]
    exact h.lastId

end Edit
end PressCalendar
