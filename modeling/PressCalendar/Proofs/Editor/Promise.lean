/-
What each request leaves to be edited.

One lemma for each edit, in the terms of `Turned` and `Steady`: whether the displayed year
has followed a block, or the same block is still being edited.  None of the failures is
that the block being edited could not be found, which is `Error.BlockFound`.
-/
import PressCalendar.Proofs.Course.Acceptance
import PressCalendar.Proofs.Editor.Leaves
import PressCalendar.Proofs.Editor.Showing

namespace PressCalendar

/-- The failure is not that there is no such block. -/
def Error.BlockFound (cause : Error) : Prop := ∀ number, cause ≠ .unknownBlock number

theorem TypedDate.blockFound_of_read {today : Date} {input : String} {cause : Error}
    (h : read today input = .error cause) : cause.BlockFound := by
  intro number
  unfold read at h
  split at h
  · cases h
  · cases h
    simp

/-! ## Why a course refuses -/

namespace Course

open Error (BlockFound)

variable {c : Course} {cause : Error}

theorem blockFound_of_dating {d : Block.Dating} {b : Block} (h : d.apply b = .error cause) :
    cause.BlockFound := by
  rw [Block.dating_eq] at h
  rcases (d.dated b).ordered_or_reversed with hordered | ⟨first, last, hfirst, hlast, hlt⟩
  · rw [hordered.checked_eq] at h
    cases h
  · rw [Block.checked_of_reversed hfirst hlast hlt] at h
    cases h
    intro number
    simp

theorem blockFound_of_add (hc : c.Reachable) {b : Block} (hb : b.Obtained)
    (h : c.add b = .error cause) : cause.BlockFound := by
  intro number
  cases ((sound_of_reachable hc).add_iff hb).2.2 cause |>.1 h <;> simp

theorem blockFound_of_redate (hc : c.Reachable) {b : Block} (hb : b ∈ c.blocks)
    {d : Block.Dating} (h : d.ofCourse c b.id = .error cause) : cause.BlockFound := by
  intro number
  cases ((sound_of_reachable hc).redate_iff b.id d).2.2 cause |>.1 h with
  | unknown hnone => exact absurd rfl (hnone b hb)
  | reversed => simp
  | overlap => simp

theorem blockFound_of_partition {g : Granularity} (h : c.partition g = .error cause) :
    cause.BlockFound := by
  intro number
  unfold partition at h
  split at h
  · cases h
    simp
  · split at h
    · split at h
      · cases h
      · cases h
        simp
    · cases h

theorem blockFound_of_split {g : Granularity} (h : c.split g = .error cause) :
    cause.BlockFound :=
  blockFound_of_partition (error_of_bind h fun _ => rfl)

/-- A change of a block that keeps its number leaves all numbers in their places. -/
theorem ids_modify (c : Course) (id : Nat) {change : Block → Block}
    (h : ∀ b, b.id = id → (change b).id = id) :
    (c.modify id change).blocks.map Block.id = c.blocks.map Block.id := by
  rcases modify_cases c id change with heq | ⟨front, b, back, hblocks, hid, heq⟩
  · rw [heq]
  · rw [heq, hblocks]
    simp [h b hid, hid]

end Course

/-! ## What each request leaves -/

namespace Edit

open Error (BlockFound)

variable {α : Type} {e : Editor}

theorem leaves_turned {m : Editor} {E : Error → Prop} (hyear : m.year = e.year)
    (hshown : m.showingBlock?.isSome = true) (notices : List Notice) :
    (settleDates notices).Leaves m E e.Turned :=
  .ok rfl ⟨m, hyear, hshown, Or.inr rfl⟩

theorem leaves_selectBlock (h : e.Sound) (id : Nat) :
    (selectBlock id).Leaves e (fun cause => e.showing = some id → cause.BlockFound)
      fun after => (e.showing = some id ∧ after = e) ∨ e.Turned after := by
  unfold selectBlock
  refine .get_bind ?_
  split
  · case isTrue hnone =>
    refine .error rfl ?_
    intro hshowing
    obtain ⟨b, -, -, hblock, -⟩ := h.exists_showing hshowing
    rw [hblock] at hnone
    cases hnone
  · case isFalse hknown =>
    split
    · case isTrue hshowing => exact .ok rfl (Or.inl ⟨hshowing, rfl⟩)
    · have hshown : (Editor.showingBlock? { e with showing := some id }).isSome = true :=
        Option.isSome_iff_ne_none.2 fun hnone => hknown (Option.isNone_iff_eq_none.2 hnone)
      exact .ok rfl (Or.inr ⟨{ e with showing := some id }, rfl, hshown, Or.inl rfl⟩)

theorem leaves_selectNumber (h : e.Sound) (number : Nat) :
    (selectNumber number).Leaves e (fun _ => True) fun after => after = e ∨ e.Turned after := by
  refine .get_bind ?_
  split
  · exact .error rfl trivial
  · split
    · case h_1 b _ =>
      exact (leaves_selectBlock h b.id).mono (fun _ _ => trivial) fun _ => Or.imp_left And.right
    · exact .error rfl trivial

theorem leaves_neglect {E : Error → Prop} :
    neglect.Leaves e E fun after => e.Steady after ∨ after.showing = none := by
  refine .update ?_
  split
  · exact Or.inl (.refl e)
  · split
    · exact Or.inl (.refl e)
    · split
      · split
        · exact Or.inr rfl
        · exact Or.inl (.refl e)
      · exact Or.inl (.refl e)

theorem leaves_startNewBlock {E : Error → Prop} :
    startNewBlock.Leaves e E fun after => after.showing = none :=
  leaves_neglect.bind fun _ _ _ => .update rfl

/-- A block that is begun, unless it is refused, comes up in place of none. -/
theorem leaves_begin {f : Block → Except Error Block} {k : Nat → Edit α} {Q : Editor → Prop}
    (hc : e.course.Reachable)
    (herror : ∀ cause, f e.course.newBlock.1 = .error cause → cause.BlockFound)
    (hobtained : ∀ b, f e.course.newBlock.1 = .ok b → b.Obtained)
    (hk : ∀ id, ∀ m : Editor, m.year = e.year → m.showingBlock?.isSome = true →
      (k id).Leaves m BlockFound Q) :
    (drawBlock >>= fun blank => beginBlock (f blank) >>= k).Leaves e BlockFound Q := by
  have hnext : e.course.newBlock.2.Reachable := hc.asked .newBlock rfl rfl
  have hbegin : (beginBlock (f e.course.newBlock.1)).Leaves { e with course := e.course.newBlock.2 }
      BlockFound fun m => m.year = e.year ∧ m.showingBlock?.isSome = true := by
    refine .ask_bind herror ?_
    intro b hb
    refine .ask_bind ?_ ?_
    · intro cause hadd
      exact Course.blockFound_of_add hnext (hobtained b hb) hadd
    · intro ⟨id, added⟩ hadd
      have hadds := ((Course.sound_of_reachable hnext).add_iff (hobtained b hb)).2.1 _ hadd
      exact .ok rfl ⟨rfl, Option.isSome_iff_exists.2 ⟨_, hadds.block⟩⟩
  cases hbegin.bind fun id m hm => hk id m hm.1 hm.2 with
  | ok hok hQ => exact .ok ((run_bind_ok (run_drawBlock e)).trans hok) hQ
  | error hfail hE => exact .error ((run_bind_ok (run_drawBlock e)).trans hfail) hE

theorem leaves_redate (h : e.Sound) {id : Nat} (hshowing : e.showing = some id)
    (d : Block.Dating) (notices : List Notice) :
    (changeCourse (d.ofCourse · id) >>= fun _ => settleDates notices).Leaves e BlockFound
      e.Turned := by
  obtain ⟨b, hb, rfl, -, -⟩ := h.exists_showing hshowing
  have hchange : (changeCourse (d.ofCourse · b.id)).Leaves e BlockFound fun m =>
      m.year = e.year ∧ m.showingBlock?.isSome = true := by
    refine .ask_bind (fun cause => Course.blockFound_of_redate h.reachable hb) ?_
    intro changed hredate
    have hredates := ((Course.sound_of_reachable h.reachable).redate_iff b.id d).2.1 _ hredate
    obtain ⟨b', -, hblock, -⟩ := hredates.block
    refine .ok rfl ⟨rfl, Option.isSome_iff_exists.2 ⟨d.dated b', ?_⟩⟩
    show e.showing.bind changed.block? = _
    rw [hshowing]
    exact hblock
  exact hchange.bind fun _ m hm => leaves_turned hm.1 hm.2 notices

theorem leaves_giveDates (h : e.Sound) (d : Block.Dating) (notices : List Notice) :
    (giveDates d notices).Leaves e BlockFound e.Turned := by
  unfold giveDates
  refine .get_bind ?_
  cases hshowing : e.showing with
  | none =>
    refine leaves_begin h.reachable (fun _ => Course.blockFound_of_dating) ?_ ?_
    · intro b hb
      exact .redate (.new h.reachable) hb
    · intro _ m hyear hshown
      exact leaves_turned hyear hshown notices
  | some id => exact leaves_redate h hshowing d notices

theorem leaves_readDate_bind {input : String} {field : DateField} {k : Date × List Notice → Edit α}
    {Q : Editor → Prop} (h : ∀ date notices, (k (date, notices)).Leaves e BlockFound Q) :
    (readDate input field >>= k).Leaves e BlockFound Q := by
  refine .ask_bind ?_ fun answer _ => h answer.1 answer.2
  intro cause hfail
  exact TypedDate.blockFound_of_read (error_of_bind hfail fun _ => rfl)

theorem leaves_setDate (h : e.Sound) (field : DateField) (dateOf : Block → Option Date)
    (dating : Date → Block.Dating) (input : String) :
    (setDate field dateOf dating input).Leaves e BlockFound
      fun after => after = e ∨ e.Turned after := by
  refine leaves_readDate_bind ?_
  intro date notices
  refine .get_bind ?_
  split
  · exact .ok rfl (Or.inl rfl)
  · exact (leaves_giveDates h (dating date) notices).mono (fun _ hfound => hfound) fun _ => Or.inr

theorem leaves_setPeriod (h : e.Sound) (firstInput lastInput : String) :
    (setPeriod firstInput lastInput).Leaves e BlockFound e.Turned := by
  refine leaves_readDate_bind ?_
  intro first firstNotices
  refine leaves_readDate_bind ?_
  intro last lastNotices
  exact leaves_giveDates h (.period first last) (firstNotices ++ lastNotices)

/-! ### Blocks -/

theorem leaves_copyBlock (h : e.Sound) : copyBlock.Leaves e BlockFound e.Turned := by
  unfold copyBlock
  refine .ask_bind ?_ ?_
  · intro cause hfail number
    split at hfail
    · have hday := error_of_bind hfail fun _ => rfl
      unfold dayAfter at hday
      split at hday
      · cases hday
      · cases hday
        simp
    · cases hfail
      simp
  · intro ⟨source, start⟩ hask
    obtain ⟨id, -, hblock⟩ := Option.bind_eq_some_iff.1 (showingBlock?_of_source hask)
    have hsource : source.Obtained := .part h.reachable (Course.mem_of_block? hblock)
    refine leaves_begin h.reachable ?_ ?_ ?_
    · intro cause
      exact Course.blockFound_of_dating (d := .period start start)
    · intro b hb
      exact @Block.Obtained.redate _ _ (.period start start) (.copy h.reachable hsource) hb
    · intro id m hyear hshown
      exact .ok rfl ⟨m, hyear, hshown, Or.inr rfl⟩

/-- The neighbour that takes the place of a block: the one in front of it, or the second
one for the first. -/
theorem exists_neighbour {blocks : List Block} {i : Nat} (hi : i < blocks.length)
    (hlength : 2 ≤ blocks.length) :
    ∃ neighbour, (blocks.eraseIdx i)[i - 1]? = some neighbour ∧
      blocks[if i = 0 then 1 else i - 1]? = some neighbour := by
  rw [List.getElem?_eraseIdx]
  by_cases hzero : i = 0
  · subst hzero
    exact ⟨blocks[1], List.getElem?_eq_getElem hlength, List.getElem?_eq_getElem hlength⟩
  · have hlt : i - 1 < i := by omega
    rw [if_pos hlt, if_neg hzero]
    exact ⟨blocks[i - 1], List.getElem?_eq_getElem (by omega), List.getElem?_eq_getElem (by omega)⟩

theorem exists_removed (h : e.Sound) {i : Nat} {b : Block} (hb : e.course.blocks[i]? = some b)
    (hshowing : e.showing = some b.id) (hlength : 2 ≤ e.course.blocks.length) :
    ∃ (m : Editor) (neighbour : Block), removeBlock.run e = (.ok (), m.navigate.touch) ∧
      m.year = e.year ∧ m.showingBlock? = some neighbour ∧
      e.course.blocks[if i = 0 then 1 else i - 1]? = some neighbour := by
  obtain ⟨neighbour, hleft, hbefore⟩ :=
    exists_neighbour (List.getElem?_eq_some_iff.1 hb).1 hlength
  let m : Editor := { e with
    course := { e.course with blocks := e.course.blocks.eraseIdx i }, showing := some neighbour.id }
  have hvalid : m.course.Valid :=
    h.valid.sublist (List.eraseIdx_sublist ..) (Nat.le_refl e.course.lastId)
  have hrun : removeBlock.run e = (.ok (), m.navigate.touch) := by
    have hindex := indexOf_eq (h.valid.index?_eq hb)
    refine (run_ask_bind (Editor.showingId_eq hshowing)).trans ?_
    rw [run_get_bind, if_neg (Nat.not_lt.2 hlength)]
    refine (run_ask_bind (f := (indexOf ·.course b.id)) hindex).trans ?_
    show (_, Editor.touch (Editor.navigate { e with
      course := { e.course with blocks := e.course.blocks.eraseIdx i }
      showing := (e.course.blocks.eraseIdx i)[i - 1]?.map Block.id })) = _
    rw [hleft]
    rfl
  exact ⟨m, neighbour, hrun, rfl, hvalid.block?_eq hleft, hbefore⟩

/-- When the last block goes, nothing is left to be edited. -/
theorem leaves_removeBlock (h : e.Sound) :
    removeBlock.Leaves e BlockFound fun after =>
      e.Turned after ∨ after.showing = none ∧ after.course.blocks = [] := by
  cases hshowing : e.showing with
  | none =>
    refine .error (run_ask_bind_of_error (Editor.showingId_eq_error hshowing)) ?_
    intro number
    simp
  | some id =>
    obtain ⟨b, hb, rfl, -⟩ := h.exists_showing hshowing
    obtain ⟨i, hi⟩ := List.getElem?_of_mem hb
    by_cases hlength : e.course.blocks.length < 2
    · have hrun : removeBlock.run e =
          (.ok (), Editor.touch { e with course := e.course.clear, showing := none }) := by
        refine (run_ask_bind (Editor.showingId_eq hshowing)).trans ?_
        rw [run_get_bind, if_pos hlength]
        rfl
      exact .ok hrun (Or.inr ⟨rfl, rfl⟩)
    · obtain ⟨m, neighbour, hrun, hyear, hshown, -⟩ :=
        exists_removed h hi hshowing (Nat.not_lt.1 hlength)
      exact .ok hrun (Or.inl ⟨m, hyear, Option.isSome_iff_exists.2 ⟨neighbour, hshown⟩, Or.inr rfl⟩)

/-! ### Issues -/

theorem blockFound_of_issueAt {block : Block} {index : Nat} {cause : Error}
    (h : issueAt block index = .error cause) : cause.BlockFound := by
  intro number
  unfold issueAt at h
  split at h
  · cases h
  · cases h
    simp

theorem leaves_changeBlock (h : e.Sound) {f : Block → Except Error (α × Block)}
    (hid : ∀ b a changed, f b = .ok (a, changed) → changed.id = b.id)
    (herror : ∀ b cause, f b = .error cause → cause.BlockFound) :
    (changeBlock f).Leaves e BlockFound e.Steady := by
  refine .ask_bind ?_ ?_
  · intro cause hshowing number
    unfold Editor.showingBlock at hshowing
    split at hshowing
    · cases hshowing
      simp
    · case h_2 id hid =>
      obtain ⟨b, -, -, hblock, -⟩ := h.exists_showing hid
      rw [hblock] at hshowing
      cases hshowing
  · intro b _
    refine .ask_bind (herror b) ?_
    intro ⟨a, changed⟩ hf
    exact .ok rfl ⟨rfl, Course.ids_modify e.course b.id fun _ _ => hid b a changed hf⟩

theorem leaves_addIssue (h : e.Sound) (heading : String) :
    (addIssue heading).Leaves e BlockFound e.Steady := by
  refine leaves_changeBlock h ?_ ?_
  · intro b a changed hok
    cases hok
    rfl
  · intro b cause hfail
    cases hfail

theorem leaves_removeIssue (h : e.Sound) (index : Nat) :
    (removeIssue index).Leaves e BlockFound e.Steady := by
  refine leaves_changeBlock h ?_ ?_
  · intro b a changed hok
    split at hok
    · case h_1 answer hanswer =>
      cases hok
      obtain ⟨issue, -, heq⟩ := Option.map_eq_some_iff.1 hanswer
      cases heq
      rfl
    · cases hok
  · intro b cause hfail number
    split at hfail
    · cases hfail
    · cases hfail
      simp

theorem leaves_changeIssue (h : e.Sound) (index : Nat) (f : Issue → Issue) :
    (changeIssue index f).Leaves e BlockFound e.Steady := by
  refine leaves_changeBlock h ?_ ?_
  · intro b a changed hok
    obtain ⟨issue, -, hok⟩ := bind_eq_ok.1 hok
    cases hok
    rfl
  · intro b cause hfail
    exact blockFound_of_issueAt (error_of_bind hfail fun _ => rfl)

theorem blockFound_of_issueOn (h : e.Sound) {id index : Nat} {date : Date} {cause : Error}
    (hfail : issueOn id index date e = .error cause) (hshowing : e.showing = some id) :
    cause.BlockFound := by
  obtain ⟨b, -, -, hblock, -⟩ := h.exists_showing hshowing
  unfold issueOn at hfail
  rw [hblock] at hfail
  simp only at hfail
  split at hfail
  · cases hfail
    intro number
    simp
  · exact blockFound_of_issueAt (error_of_bind hfail fun _ => rfl)

theorem leaves_changeIssueOn (h : e.Sound) (id index : Nat) (date : Date) (f : Issue → Issue) :
    (changeIssueOn id index date f).Leaves e
      (fun cause => e.showing = some id → cause.BlockFound) e.Steady := by
  refine .ask_bind (fun _ => blockFound_of_issueOn h) ?_
  intro ⟨b, issue⟩ hissue
  have hbid : b.id = id := Course.id_of_block? (issueOn_eq_ok hissue).1
  exact .ok rfl ⟨rfl, Course.ids_modify e.course id fun _ _ => hbid⟩

theorem leaves_toggleIssue (h : e.Sound) (id index : Nat) (date : Date) :
    (toggleIssue id index date).Leaves e (fun cause => e.showing = some id → cause.BlockFound)
      e.Steady := by
  refine .ask_bind (fun _ => blockFound_of_issueOn h) ?_
  rintro ⟨b, issue⟩ -
  dsimp only
  split
  · exact (leaves_changeIssueOn h id index date (·.unselect date)).bind
      fun _ _ hsteady => .ok rfl hsteady
  · exact (leaves_changeIssueOn h id index date (·.select date)).bind
      fun _ _ hsteady => .ok rfl hsteady

/-! ### The course as a whole -/

theorem turned_load (e : Editor) {c : Course} (hc : c.Valid) :
    e.Turned (e.load c) ∨ (e.load c).showing = none ∧ (e.load c).course.blocks = [] := by
  rw [Editor.course_load]
  cases hblocks : c.blocks with
  | nil =>
    refine Or.inr ⟨?_, rfl⟩
    rw [Editor.load, Editor.showing_navigate, hblocks]
    rfl
  | cons b blocks =>
    have hblock : c.block? b.id = some b := hc.block?_of_mem (by simp [hblocks])
    refine Or.inl ⟨{ e with course := c, showing := some b.id }, rfl, ?_, Or.inl ?_⟩
    · exact Option.isSome_iff_exists.2 ⟨b, hblock⟩
    · rw [Editor.load, hblocks]
      rfl

theorem leaves_upload (xml : String) :
    (upload xml).Leaves e BlockFound fun after =>
      e.Turned after ∨ after.showing = none ∧ after.course.blocks = [] := by
  refine .ask_bind ?_ ?_
  · intro cause hread number
    obtain ⟨detail, rfl⟩ := Course.exists_malformed_of_ofXml hread
    simp
  · intro c hread
    exact .ok rfl (turned_load e (Course.sound_of_reachable (.read hread)).toValid)

theorem blockFound_of_checkReady {cause : Error} (h : e.checkReady = .error cause) :
    cause.BlockFound := by
  intro number
  unfold Editor.checkReady at h
  split at h
  · cases h
    simp
  · cases h

theorem leaves_download : download.Leaves e BlockFound e.Steady := by
  have hrun := Editor.run_download e
  by_cases hempty : e.course.appearances = []
  · rw [if_pos hempty] at hrun
    refine .error hrun ?_
    intro number
    simp
  · rw [if_neg hempty] at hrun
    exact .ok hrun (.refl e)

theorem leaves_split (g : Granularity) : (split g).Leaves e BlockFound e.Steady := by
  refine .ask_bind (fun cause => Course.blockFound_of_split) ?_
  intro c hsplit
  obtain ⟨_, -, rfl⟩ := Course.split_cases hsplit
  exact .ok rfl ⟨rfl, rfl⟩

end Edit
end PressCalendar
