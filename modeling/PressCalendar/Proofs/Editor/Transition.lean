/-
What each request does to the course of an editor.

`edited_perform` says that whatever is asked of an editor, its course undergoes one
of the changes listed by `Course.Edited`, also if the request fails.
-/
import PressCalendar.Proofs.Course.Current
import PressCalendar.Proofs.Editor.Download
import PressCalendar.Proofs.Editor.Request

namespace PressCalendar

/-! ## The course behind an edit -/

namespace Editor

theorem course_navigate (e : Editor) : e.navigate.course = e.course := by
  unfold navigate
  split <;> rfl

theorem showing_navigate (e : Editor) : e.navigate.showing = e.showing := by
  unfold navigate
  split <;> rfl

theorem today_navigate (e : Editor) : e.navigate.today = e.today := by
  unfold navigate
  split <;> rfl

theorem preferences_navigate (e : Editor) : e.navigate.preferences = e.preferences := by
  unfold navigate
  split <;> rfl

theorem course_touch (e : Editor) :
    e.touch.course = e.course.clearProcesses.forgetImported := rfl

theorem showingId_eq {e : Editor} {id : Nat} (h : e.showing = some id) : e.showingId = .ok id := by
  rw [showingId, h]

theorem showingId_eq_error {e : Editor} (h : e.showing = none) :
    e.showingId = .error .noBlockSelected := by
  rw [showingId, h]

theorem course_load (e : Editor) (c : Course) : (e.load c).course = c := course_navigate _

end Editor

namespace Edit

variable {α β : Type} {e : Editor}

/-- A question first, which changes nothing, and then the rest. -/
theorem edited_ask_bind {f : Editor → Except Error α} {k : α → Edit β}
    (h : ∀ a, f e = .ok a → e.course.Edited ((k a).run e).2.course) :
    e.course.Edited ((ask f >>= k).run e).2.course :=
  ask_bind_induction (P := fun after => e.course.Edited after.course) .same h

theorem edited_ask (f : Editor → Except Error α) : e.course.Edited ((ask f).run e).2.course :=
  .same

theorem edited_update {f : Editor → Editor} (h : e.course.Edited (f e).course) :
    e.course.Edited ((update f).run e).2.course :=
  h

/-! ## Choosing a block -/

theorem edited_selectBlock (id : Nat) : e.course.Edited ((selectBlock id).run e).2.course := by
  unfold selectBlock
  rw [run_get_bind]
  split
  · exact .same
  · split
    · exact .same
    · show e.course.Edited (Editor.navigate { e with showing := some id }).course
      rw [Editor.course_navigate]
      exact .same

theorem edited_selectNumber (number : Nat) :
    e.course.Edited ((selectNumber number).run e).2.course := by
  unfold selectNumber
  rw [run_get_bind]
  split
  · exact .same
  · split
    · exact edited_selectBlock _
    · exact .same

theorem edited_neglect : e.course.Edited (neglect.run e).2.course := by
  refine edited_update ?_
  split
  · exact .same
  · case h_2 id _ =>
    split
    · exact .same
    · case h_2 block hblock =>
      split
      · case isTrue hempty =>
        split
        · case h_1 removed course hremove =>
          have hsame := Course.block?_of_remove? hremove
          rw [hblock] at hsame
          cases hsame
          exact .dropped hremove (Bool.not_eq_true' _ ▸ (Bool.and_eq_true_iff.1 hempty).2)
        · exact .same
      · exact .same

theorem edited_startNewBlock : e.course.Edited (startNewBlock.run e).2.course := by
  have hneglect := edited_neglect (e := e)
  have hrun : neglect.run e = (.ok (), (neglect.run e).2) := rfl
  show e.course.Edited ((neglect >>= fun _ => update _).run e).2.course
  rw [run_bind_ok hrun]
  exact hneglect

/-! ## Dates -/

theorem edited_settleDates {c : Course} (notices : List Notice)
    (h : c.Reachable → e.course.Reachable) :
    c.Edited ((settleDates notices).run e).2.course := by
  show c.Edited e.navigate.touch.course
  rw [Editor.course_touch, Editor.course_navigate]
  exact .touched h

theorem run_drawBlock (e : Editor) : drawBlock.run e =
    (.ok e.course.newBlock.1, { e with course := e.course.newBlock.2 }) := rfl

theorem run_beginBlock_ok {dated : Except Error Block} {b : Block} {id : Nat} {added : Course}
    (hdated : dated = .ok b) (hadd : e.course.add b = .ok (id, added)) :
    (beginBlock dated).run e = (.ok id, { e with course := added, showing := some id }) :=
  (run_ask_bind (f := fun _ => dated) hdated).trans (run_ask_bind (f := (·.course.add b)) hadd)

theorem run_beginBlock_error {dated : Except Error Block} {cause : Error}
    (h : (dated >>= e.course.add) = .error cause) :
    (beginBlock dated).run e = (.error cause, e) := by
  rcases bind_eq_error.1 h with hdated | ⟨b, hdated, hadd⟩
  · exact run_ask_bind_of_error (f := fun _ => dated) hdated
  · exact (run_ask_bind (f := fun _ => dated) hdated).trans
      (run_ask_bind_of_error (f := (·.course.add b)) hadd)

/-- A block that is begun.  If it is refused, its number stays drawn. -/
theorem edited_begin {f : Block → Except Error Block} {k : Nat → Edit α}
    (hblock : ∀ b, f e.course.newBlock.1 = .ok b → e.course.Reachable → Block.Obtained b)
    (hk : ∀ id, ∀ begun : Editor, (e.course.Reachable → begun.course.Reachable) →
      e.course.Edited ((k id).run begun).2.course) :
    e.course.Edited ((drawBlock >>= fun blank =>
      beginBlock (f blank) >>= k).run e).2.course := by
  rw [run_bind_ok (run_drawBlock e)]
  cases hbegin : (f e.course.newBlock.1 >>= e.course.newBlock.2.add) with
  | error cause =>
    rw [run_bind_error (run_beginBlock_error hbegin)]
    exact .drawn
  | ok answer =>
    obtain ⟨id, added⟩ := answer
    obtain ⟨b, hf, hadd⟩ := bind_eq_ok.1 hbegin
    rw [run_bind_ok (run_beginBlock_ok hf hadd)]
    refine hk id _ ?_
    intro hreach
    have hnext := hreach.asked .newBlock rfl rfl
    exact Course.Reachable.added hnext (hblock b hf hreach) hadd

theorem run_changeCourse_ok {f : Course → Except Error Course} {changed : Course}
    (h : f e.course = .ok changed) :
    (changeCourse f).run e = (.ok (), { e with course := changed }) :=
  run_ask_bind (f := (f ·.course)) h

theorem run_changeCourse_error {f : Course → Except Error Course} {cause : Error}
    (h : f e.course = .error cause) : (changeCourse f).run e = (.error cause, e) :=
  run_ask_bind_of_error (f := (f ·.course)) h

theorem edited_redate (id : Nat) (dating : Block.Dating) (notices : List Notice) :
    e.course.Edited ((changeCourse (dating.ofCourse · id) >>= fun _ =>
      settleDates notices).run e).2.course := by
  cases hredate : dating.ofCourse e.course id with
  | error cause =>
    rw [run_bind_error (run_changeCourse_error hredate)]
    exact .same
  | ok changed =>
    rw [run_bind_ok (run_changeCourse_ok hredate)]
    refine edited_settleDates notices ?_
    intro hreach
    exact hreach.asked (.redate id dating) rfl (by simp only [Course.perform, hredate])

theorem edited_giveDates (dating : Block.Dating) (notices : List Notice) :
    e.course.Edited ((giveDates dating notices).run e).2.course := by
  unfold giveDates
  rw [run_get_bind]
  split
  · refine edited_begin ?_ fun _ begun hreach => edited_settleDates notices hreach
    intro b hb hreach
    exact .redate (.new hreach) hb
  · exact edited_redate _ dating notices

/-- A date that the block has already changes nothing. -/
theorem edited_setDate (field : DateField) (dateOf : Block → Option Date)
    (dating : Date → Block.Dating) (input : String) :
    e.course.Edited ((setDate field dateOf dating input).run e).2.course := by
  unfold setDate
  refine edited_ask_bind ?_
  rintro ⟨date, notices⟩ -
  rw [run_get_bind]
  split
  · exact .same
  · exact edited_giveDates (dating date) notices

theorem edited_setPeriod (firstInput lastInput : String) :
    e.course.Edited ((setPeriod firstInput lastInput).run e).2.course := by
  unfold setPeriod
  refine edited_ask_bind ?_
  rintro ⟨first, firstNotices⟩ -
  refine edited_ask_bind ?_
  rintro ⟨last, lastNotices⟩ -
  exact edited_giveDates (.period first last) (firstNotices ++ lastNotices)

/-! ## Blocks -/

theorem showingBlock?_of_source {source : Block} {start : Date}
    (h : (do
      let some source := e.showingBlock? | .error .noBlockSelected
      return (source, ← dayAfter e.course) : Except Error (Block × Date)) = .ok (source, start)) :
    e.showingBlock? = some source := by
  split at h
  · case h_1 shown hshown =>
    obtain ⟨day, -, hok⟩ := bind_eq_ok.1 h
    cases hok
    exact hshown
  · cases h

theorem edited_copyBlock : e.course.Edited (copyBlock.run e).2.course := by
  unfold copyBlock
  refine edited_ask_bind ?_
  rintro ⟨source, start⟩ hask
  obtain ⟨id, -, hblock⟩ := Option.bind_eq_some_iff.1 (showingBlock?_of_source hask)
  refine edited_begin ?_ ?_
  · intro b hb hreach
    have hcopy := Block.Obtained.copy hreach (.part hreach (Course.mem_of_block? hblock))
    exact @Block.Obtained.redate _ _ (.period start start) hcopy hb
  · intro id begun hreach
    show e.course.Edited begun.navigate.touch.course
    rw [Editor.course_touch, Editor.course_navigate]
    exact .touched hreach

theorem indexOf_eq_ok {c : Course} {id index : Nat} (h : indexOf c id = .ok index) :
    c.index? id = some index := by
  unfold indexOf at h
  split at h
  · case h_1 found hfound =>
    cases h
    exact hfound
  · cases h

theorem indexOf_eq {c : Course} {id index : Nat} (h : c.index? id = some index) :
    indexOf c id = .ok index := by
  rw [indexOf, h]

theorem edited_removeBlock : e.course.Edited (removeBlock.run e).2.course := by
  unfold removeBlock
  refine edited_ask_bind ?_
  rintro id -
  rw [run_get_bind]
  split
  · refine .touched fun hreach => ?_
    exact hreach.asked .clear rfl rfl
  · refine edited_ask_bind ?_
    intro index hindex
    have hremove := indexOf_eq_ok hindex
    let m : Editor :=
      { e with
        course := { e.course with blocks := e.course.blocks.eraseIdx index }
        showing := (e.course.blocks.eraseIdx index)[index - 1]?.map Block.id }
    show e.course.Edited m.navigate.touch.course
    rw [Editor.course_touch, Editor.course_navigate]
    refine .touched fun hreach => ?_
    have hperform : e.course.perform (.remove id) = m.course := by
      obtain ⟨front, b, back, -, -, -, hget, -⟩ := Course.index?_cases hremove
      simp only [Course.perform, Course.remove?, hremove, hget, Option.bind_eq_bind,
        Option.bind_some]
      rfl
    exact hreach.asked (.remove id) rfl hperform

/-! ## Issues -/

theorem edited_revise {block changed : Block} {id : Nat} (r : Block.Revision)
    (hblock : e.course.block? id = some block) (hr : r.apply block = changed) :
    e.course.Edited
      (Editor.touch { e with course := e.course.modify id fun _ => changed }).course := by
  rw [Editor.course_touch]
  refine .touched fun hreach => ?_
  show (e.course.modify id fun _ => changed).Reachable
  rw [← hr, Course.modify_of_block? hblock r.apply]
  exact hreach.asked (.revise id r) rfl rfl

theorem block?_of_showingBlock {b : Block} (h : e.showingBlock = .ok b) :
    e.showing = some b.id ∧ e.course.block? b.id = some b := by
  unfold Editor.showingBlock at h
  split at h
  · cases h
  · case h_2 id hid =>
    split at h
    · case h_1 found hfound =>
      cases h
      rw [Course.id_of_block? hfound]
      exact ⟨hid, hfound⟩
    · cases h

theorem edited_changeBlock {f : Block → Except Error (α × Block)}
    (h : ∀ block a changed, f block = .ok (a, changed) →
      ∃ r : Block.Revision, r.apply block = changed) :
    e.course.Edited ((changeBlock f).run e).2.course := by
  refine edited_ask_bind ?_
  intro block hshowing
  refine edited_ask_bind ?_
  intro ⟨a, changed⟩ hf
  obtain ⟨r, hr⟩ := h block a changed hf
  exact edited_revise r (block?_of_showingBlock hshowing).2 hr

theorem issueAt_of_some {block : Block} {index : Nat} {issue : Issue}
    (h : block.issues[index]? = some issue) : issueAt block index = .ok issue := by
  rw [issueAt, h]

theorem issueAt_of_none {block : Block} {index : Nat} (h : block.issues[index]? = none) :
    issueAt block index = .error (.unknownIssue index) := by
  rw [issueAt, h]

theorem issueAt_eq_ok {block : Block} {index : Nat} {issue : Issue}
    (h : issueAt block index = .ok issue) : block.issues[index]? = some issue := by
  unfold issueAt at h
  split at h
  · case h_1 found hfound =>
    cases h
    exact hfound
  · exact absurd h (by simp)

theorem revise_apply {block : Block} {index : Nat} {issue : Issue}
    (h : block.issues[index]? = some issue) (r : Issue.Revision) :
    Block.Revision.apply (.revise index r) block = block.setIssue index (r.apply issue) := by
  simp only [Block.Revision.apply, h]

theorem edited_addIssue (heading : String) :
    e.course.Edited ((addIssue heading).run e).2.course := by
  refine edited_changeBlock ?_
  intro block a changed h
  cases h
  exact ⟨.add heading [], rfl⟩

theorem edited_removeIssue (index : Nat) :
    e.course.Edited ((removeIssue index).run e).2.course := by
  refine edited_changeBlock ?_
  intro block a changed h
  split at h
  · case h_1 answer hanswer =>
    cases h
    refine ⟨.remove index, ?_⟩
    simp only [Block.Revision.apply, hanswer]
  · exact absurd h (by simp)

theorem edited_changeIssue (index : Nat) {f : Issue → Issue} (r : Issue.Revision)
    (hf : ∀ issue, f issue = r.apply issue) :
    e.course.Edited ((changeIssue index f).run e).2.course := by
  refine edited_changeBlock ?_
  intro block a changed h
  obtain ⟨issue, hissue, hok⟩ := bind_eq_ok.1 h
  cases hok
  refine ⟨.revise index r, ?_⟩
  rw [hf, revise_apply (issueAt_eq_ok hissue)]

theorem issueOn_eq_ok {id index : Nat} {date : Date} {block : Block} {issue : Issue}
    (h : issueOn id index date e = .ok (block, issue)) :
    e.course.block? id = some block ∧ block.covers date = true ∧
      block.issues[index]? = some issue := by
  unfold issueOn at h
  split at h
  · case h_1 found hfound =>
    split at h
    · cases h
    · case isFalse hcovers =>
      obtain ⟨entry, hentry, hok⟩ := bind_eq_ok.1 h
      cases hok
      exact ⟨hfound, by simpa using hcovers, issueAt_eq_ok hentry⟩
  · cases h

theorem edited_changeIssueOn (id index : Nat) (date : Date) (f : Issue → Issue)
    (hf : ∀ issue, ∃ r : Issue.Revision, f issue = r.apply issue) :
    e.course.Edited ((changeIssueOn id index date f).run e).2.course := by
  refine edited_ask_bind ?_
  intro ⟨block, issue⟩ hissue
  obtain ⟨hblock, -, hentry⟩ := issueOn_eq_ok hissue
  obtain ⟨r, hr⟩ := hf issue
  refine edited_revise (.revise index r) hblock ?_
  rw [hr, revise_apply hentry]

/-- Marking an issue as appeared drops an exclusion or adds an addition. -/
theorem select_eq (issue : Issue) (date : Date) :
    ∃ r : Issue.Revision, issue.select date = r.apply issue := by
  unfold Issue.select
  split
  · exact ⟨.removeExclusion date, rfl⟩
  · exact ⟨.addAddition date, rfl⟩

theorem unselect_eq (issue : Issue) (date : Date) :
    ∃ r : Issue.Revision, issue.unselect date = r.apply issue := by
  unfold Issue.unselect
  split
  · exact ⟨.addExclusion date, rfl⟩
  · exact ⟨.removeAddition date, rfl⟩

theorem edited_toggleIssue (id index : Nat) (date : Date) :
    e.course.Edited ((toggleIssue id index date).run e).2.course := by
  refine edited_ask_bind ?_
  rintro ⟨block, issue⟩ -
  dsimp only
  split
  · rw [run_bind_pure]
    exact edited_changeIssueOn id index date (·.unselect date) fun issue => unselect_eq issue date
  · rw [run_bind_pure]
    exact edited_changeIssueOn id index date (·.select date) fun issue => select_eq issue date

/-! ## The course as a whole -/

theorem edited_upload (xml : String) : e.course.Edited ((upload xml).run e).2.course := by
  refine edited_ask_bind ?_
  intro course hread
  show e.course.Edited (e.load course).course
  rw [Editor.course_load]
  exact .read hread

theorem edited_split (g : Granularity) : e.course.Edited ((split g).run e).2.course := by
  refine edited_ask_bind ?_
  intro course hsplit
  exact .split hsplit

theorem edited_download : e.course.Edited (download.run e).2.course := by
  rw [Editor.run_download]
  exact .same

end Edit

/-- Whatever is asked of an editor, its course undergoes one of the listed changes. -/
theorem Editor.edited_perform (e : Editor) (r : Request) :
    e.course.Edited (e.perform r).course := by
  cases r with
  | selectBlock id => exact Edit.edited_selectBlock id
  | selectNumber number => exact Edit.edited_selectNumber number
  | neglect => exact Edit.edited_neglect
  | startNewBlock => exact Edit.edited_startNewBlock
  | readDate input field => exact Edit.edited_ask _
  | setFirst input => exact Edit.edited_setDate .firstAppearance Block.first .first input
  | setLast input => exact Edit.edited_setDate .lastAppearance Block.last .last input
  | setPeriod firstInput lastInput => exact Edit.edited_setPeriod firstInput lastInput
  | copyBlock => exact Edit.edited_copyBlock
  | removeBlock => exact Edit.edited_removeBlock
  | addIssue heading => exact Edit.edited_addIssue heading
  | removeIssue index => exact Edit.edited_removeIssue index
  | setHeading index heading => exact Edit.edited_changeIssue index (.rename heading) fun _ => rfl
  | setRegular index day appears =>
    exact Edit.edited_changeIssue index (.setRegular day appears) fun _ => rfl
  | selectIssue id index date =>
    exact Edit.edited_changeIssueOn id index date (·.select date) fun issue =>
      Edit.select_eq issue date
  | unselectIssue id index date =>
    exact Edit.edited_changeIssueOn id index date (·.unselect date) fun issue =>
      Edit.unselect_eq issue date
  | toggleIssue id index date => exact Edit.edited_toggleIssue id index date
  | setYear year => exact Edit.edited_update .same
  | previousYear => exact Edit.edited_update .same
  | nextYear => exact Edit.edited_update .same
  | upload xml => exact Edit.edited_upload xml
  | download => exact Edit.edited_download
  | checkReady => exact Edit.edited_ask _
  | split g => exact Edit.edited_split g

end PressCalendar
