/-
Copies of a block.

A copy lies behind everything else, on the day after the last one of the course, so it
meets no other block and needs no check: `copyBlock` can only fail where the calendar ends.
From then on the copy and its original go their own ways.  `Confined` describes requests
that have nothing to do with the issues of any block but one, and `Reissued` what becomes
of the blocks under such requests.
-/
import PressCalendar.Proofs.Course.Extent
import PressCalendar.Proofs.Course.Marking
import PressCalendar.Proofs.Editor.Exchange
import PressCalendar.Proofs.Editor.Selection

namespace PressCalendar

/-! ## The end of the calendar -/

namespace Date

theorem le_last (d : Date) : d ≤ last := le_of_next?_eq_none (by decide) d

theorem next?_eq_none_iff {d : Date} : d.next? = none ↔ d = last := by
  constructor
  · intro h
    exact le_antisymm (le_last d) (le_of_next?_eq_none h last)
  · intro h
    rw [h]
    decide

theorem lt_next {d e : Date} (h : d.next? = some e) : d < e := by
  have hnumber := number_next h
  rw [lt_iff_number]
  omega

end Date

/-! ## Issues of one block only -/

/-- The block under a number with its issues changed, and any other block as it is. -/
def Block.reissued (id : Nat) (f : List Issue → List Issue) (b : Block) : Block :=
  if b.id = id then { b with issues := f b.issues } else b

namespace Block

variable {id : Nat} {f g : List Issue → List Issue} {b : Block}

theorem reissued_of_eq (h : b.id = id) : b.reissued id f = { b with issues := f b.issues } :=
  if_pos h

theorem reissued_of_ne (h : b.id ≠ id) : b.reissued id f = b := if_neg h

theorem id_reissued : (b.reissued id f).id = b.id := by
  unfold reissued
  split <;> rfl

theorem reissued_reissued : (b.reissued id f).reissued id g = b.reissued id (g ∘ f) := by
  by_cases h : b.id = id
  · rw [reissued_of_eq (id_reissued.trans h), reissued_of_eq h, reissued_of_eq h]
    rfl
  · rw [reissued_of_ne h, reissued_of_ne h, reissued_of_ne h]

end Block

namespace Course

variable {c : Course} {id : Nat} {f : List Issue → List Issue} {b : Block} {blocks : List Block}

theorem map_reissued_of_ne (h : ∀ b ∈ blocks, b.id ≠ id) :
    blocks.map (Block.reissued id f) = blocks := by
  rw [List.map_congr_left fun b hb => Block.reissued_of_ne (h b hb), List.map_id']

theorem Valid.blocks_modify (h : c.Valid) (hb : c.block? id = some b) (issues : List Issue) :
    (c.modify id fun _ => { b with issues }).blocks =
      c.blocks.map (Block.reissued id fun _ => issues) := by
  obtain ⟨i, hi⟩ := List.getElem?_of_mem (mem_of_block? hb)
  obtain ⟨front, back, hblocks, -, hset⟩ := exists_split_set hi
  have hid := id_of_block? hb
  have hne := h.ne_of_split hblocks
  have hfront : ∀ x ∈ front, x.id ≠ b.id := fun x hx => hne x (List.mem_append_left back hx)
  have hback : ∀ x ∈ back, x.id ≠ b.id := fun x hx => hne x (List.mem_append_right front hx)
  rw [← hid, h.modify_eq hi]
  show c.blocks.set i _ = _
  rw [hset, hblocks, List.map_append, List.map_cons, Block.reissued_of_eq rfl,
    map_reissued_of_ne hfront, map_reissued_of_ne hback]

end Course

namespace Editor

/-- The block whose issues a request is about. -/
def target? (e : Editor) : Request → Option Nat
  | .addIssue _ => e.showing
  | .removeIssue _ => e.showing
  | .setHeading _ _ => e.showing
  | .setRegular _ _ _ => e.showing
  | .selectIssue id _ _ => some id
  | .unselectIssue id _ _ => some id
  | .toggleIssue id _ _ => some id
  | _ => none

/-- Requests one after the other, each of which is about the issues of one block or does
not edit at all. -/
def Confined (id : Nat) : Editor → List Request → Prop
  | _, [] => True
  | e, r :: requests =>
    (r.isLook = true ∨ e.target? r = some id) ∧ Confined id (e.perform r) requests

instance decidableConfined (id : Nat) : ∀ e requests, Decidable (Confined id e requests)
  | _, [] => .isTrue trivial
  | e, r :: requests => @instDecidableAnd _ _ _ (decidableConfined id (e.perform r) requests)

/-- No block has changed but one, which has kept its place and its dates. -/
def Reissued (id : Nat) (e after : Editor) : Prop :=
  ∃ f, after.course.blocks = e.course.blocks.map (Block.reissued id f)

variable {e after last : Editor} {id : Nat}

theorem Reissued.of_blocks_eq (h : after.course.blocks = e.course.blocks) :
    Reissued id e after := by
  refine ⟨fun issues => issues, ?_⟩
  rw [h, List.map_congr_left (g := fun b => b), List.map_id']
  intro b hb
  unfold Block.reissued
  split <;> rfl

theorem Reissued.trans (h : Reissued id e after) (h' : Reissued id after last) :
    Reissued id e last := by
  obtain ⟨f, hf⟩ := h
  obtain ⟨g, hg⟩ := h'
  refine ⟨g ∘ f, ?_⟩
  rw [hg, hf, List.map_map]
  exact List.map_congr_left fun b _ => Block.reissued_reissued

end Editor

namespace Edit

variable {α : Type} {e : Editor} {id : Nat}

/-- A block of which only the issues change is put back where it was. -/
theorem reissued_modify (h : e.course.Valid) {b changed : Block}
    (hb : e.course.block? id = some b) (hchanged : ∃ issues, changed = { b with issues }) :
    Editor.Reissued id e
      (Editor.touch { e with course := e.course.modify id fun _ => changed }) := by
  obtain ⟨issues, rfl⟩ := hchanged
  exact ⟨fun _ => issues, h.blocks_modify hb issues⟩

theorem reissued_changeBlock (h : e.course.Valid) (hid : e.showing = some id)
    {f : Block → Except Error (α × Block)}
    (hf : ∀ b a changed, f b = .ok (a, changed) → ∃ issues, changed = { b with issues }) :
    Editor.Reissued id e ((changeBlock f).run e).2 := by
  refine ask_bind_induction (.of_blocks_eq rfl) ?_
  intro b hshowing
  refine ask_bind_induction (.of_blocks_eq rfl) ?_
  intro ⟨a, changed⟩ hrevised
  obtain ⟨hshown, hblock⟩ := block?_of_showingBlock hshowing
  cases hid.symm.trans hshown
  exact reissued_modify h hblock (hf b a changed hrevised)

theorem reissued_changeIssue (h : e.course.Valid) (hid : e.showing = some id) (index : Nat)
    (f : Issue → Issue) : Editor.Reissued id e ((changeIssue index f).run e).2 := by
  refine reissued_changeBlock h hid ?_
  intro b a changed hok
  obtain ⟨issue, -, hok⟩ := bind_eq_ok.1 hok
  cases hok
  exact ⟨_, rfl⟩

theorem reissued_changeIssueOn (h : e.course.Valid) (index : Nat) (date : Date)
    (f : Issue → Issue) : Editor.Reissued id e ((changeIssueOn id index date f).run e).2 := by
  refine ask_bind_induction (.of_blocks_eq rfl) ?_
  intro ⟨b, issue⟩ hissue
  exact reissued_modify h (issueOn_eq_ok hissue).1 ⟨_, rfl⟩

theorem reissued_toggleIssue (h : e.course.Valid) (index : Nat) (date : Date) :
    Editor.Reissued id e ((toggleIssue id index date).run e).2 := by
  refine ask_bind_induction (.of_blocks_eq rfl) ?_
  rintro ⟨b, issue⟩ -
  dsimp only
  split
  · rw [run_bind_pure]
    exact reissued_changeIssueOn h index date (·.unselect date)
  · rw [run_bind_pure]
    exact reissued_changeIssueOn h index date (·.select date)

end Edit

namespace Editor

variable {e : Editor} {id : Nat}

theorem reissued_perform (h : e.course.Valid) {r : Request}
    (hr : r.isLook = true ∨ e.target? r = some id) : Reissued id e (e.perform r) := by
  rcases hr with hlook | htarget
  · exact .of_blocks_eq (e.sameImport_perform hlook).blocks
  · cases r with
    | addIssue heading =>
      refine Edit.reissued_changeBlock h htarget ?_
      intro b a changed hok
      cases hok
      exact ⟨_, rfl⟩
    | removeIssue index =>
      refine Edit.reissued_changeBlock h htarget ?_
      intro b a changed hok
      split at hok
      · case h_1 answer hanswer =>
        cases hok
        obtain ⟨issue, -, heq⟩ := Option.map_eq_some_iff.1 hanswer
        cases heq
        exact ⟨_, rfl⟩
      · cases hok
    | setHeading index heading => exact Edit.reissued_changeIssue h htarget index _
    | setRegular index day appears => exact Edit.reissued_changeIssue h htarget index _
    | selectIssue number index date =>
      cases htarget
      exact Edit.reissued_changeIssueOn h index date (·.select date)
    | unselectIssue number index date =>
      cases htarget
      exact Edit.reissued_changeIssueOn h index date (·.unselect date)
    | toggleIssue number index date =>
      cases htarget
      exact Edit.reissued_toggleIssue h index date
    | _ => cases htarget

theorem reissued_foldl (h : e.Sound) {requests : List Request} (hr : Confined id e requests) :
    Reissued id e (requests.foldl perform e) := by
  induction requests generalizing e with
  | nil => exact .of_blocks_eq rfl
  | cons r requests ih =>
    obtain ⟨hfirst, hrest⟩ := hr
    exact (reissued_perform h.valid hfirst).trans (ih (h.perform r) hrest)

end Editor

/-! ## Behind the last day -/

namespace Course

variable {c : Course} {b : Block} {day start : Date}

theorem InOrder.exists_isLastDay (h : InOrder c.blocks) (hb : b ∈ c.blocks) :
    ∃ day, c.IsLastDay day := by
  obtain ⟨first, last, hspan, hle⟩ := h.span hb
  have hcovers := (Block.covers_iff hspan).2 ⟨Date.le_refl first, hle⟩
  obtain ⟨day, hday, -⟩ := h.exists_le_last? hb hcovers
  exact ⟨day, h.last?_eq_some_iff.1 hday⟩

theorem IsLastDay.precedes (h : c.IsLastDay day) (horder : InOrder c.blocks)
    (hstart : b.start? = some start) (hlt : day < start) :
    ∀ other ∈ c.blocks, other.Precedes b := by
  intro other hother stop hstop begin hbegin
  obtain ⟨first, last, hspan, hle⟩ := horder.span hother
  rw [Block.stop?_eq hspan] at hstop
  rw [hstart] at hbegin
  cases hstop
  cases hbegin
  have hday := h.2 other hother stop ((Block.covers_iff hspan).2 ⟨hle, Date.le_refl stop⟩)
  rw [Date.le_def] at hday
  rw [Date.lt_def] at hlt ⊢
  omega

end Course

namespace Editor

/-- The copy of a block as it joins the course: one day long, under the next number. -/
def copyOn (e : Editor) (source : Block) (start : Date) : Block :=
  ⟨e.course.lastId + 1, some start, some start, source.issues⟩

/-- The editor once the copy is added, before the rest has taken account of it. -/
def withCopy (e : Editor) (source : Block) (start : Date) : Editor :=
  { e with
    course := { e.course with
      blocks := e.course.blocks ++ [e.copyOn source start]
      lastId := e.course.lastId + 1 }
    showing := some (e.copyOn source start).id }

variable {e : Editor} {source : Block} {day start : Date}

theorem Sound.ne_copyOn (h : e.Sound) (source : Block) (start : Date) :
    ∀ b ∈ e.course.blocks, b.id ≠ (e.copyOn source start).id := by
  intro b hb heq
  have hle := h.valid.numbered b hb
  rw [heq] at hle
  exact Nat.not_succ_le_self _ hle

/-- Since the copy begins behind the last day, it meets no block, and its place is the
last one. -/
theorem Sound.add_copyOn (h : e.Sound) (source : Block) (hday : e.course.IsLastDay day)
    (hnext : day.next? = some start) :
    e.course.newBlock.2.add (e.copyOn source start) =
      .ok ((e.copyOn source start).id, (e.withCopy source start).course) := by
  have horder := h.valid.toInOrder
  have hspan : (e.copyOn source start).span? = some (start, start) := rfl
  have hbefore := hday.precedes horder (Block.start?_eq hspan) (Date.lt_next hnext)
  have hplace := Course.insertSorted_of_precedes horder hspan (Date.le_refl start) hbefore
  have hadd := Course.add_eq_ok (c := e.course.newBlock.2) hspan
    (fun other hother => (hbefore other hother).overlaps_eq_false hspan)
    (h.ne_copyOn source start)
  rw [hadd]
  show Except.ok (_, { e.course with
    blocks := Course.insertSorted (e.copyOn source start) e.course.blocks
    lastId := max (e.course.lastId + 1) (e.course.lastId + 1) }) = _
  rw [hplace, Nat.max_self]
  rfl

end Editor

namespace Edit

variable {e : Editor} {source : Block} {day start : Date}

theorem dayAfter_of_next? (hlast : e.course.last? = some day) (hnext : day.next? = some start) :
    dayAfter e.course = .ok start := by
  rw [dayAfter, hlast, Option.bind_some, hnext]

theorem dayAfter_of_end (hlast : e.course.last? = some Date.last) :
    dayAfter e.course = .error (.invalidRange "the course has no end") := by
  rw [dayAfter, hlast, Option.bind_some, Date.next?_eq_none_iff.2 rfl]

theorem run_copyBlock_of_end (hsource : e.showingBlock? = some source)
    (hlast : e.course.last? = some Date.last) :
    copyBlock.run e = (.error (.invalidRange "the course has no end"), e) := by
  refine run_bind_error ?_
  rw [run_ask, hsource, dayAfter_of_end hlast]
  rfl

theorem run_copyBlock_of_next? (h : e.Sound) (hsource : e.showingBlock? = some source)
    (hday : e.course.IsLastDay day) (hnext : day.next? = some start) :
    copyBlock.run e =
      (.ok (e.copyOn source start).id, (e.withCopy source start).navigate.touch) := by
  have hlast := h.valid.toInOrder.last?_eq_some_iff.2 hday
  have hbegin : (beginBlock ({ e.course.newBlock.1 with issues := source.issues }.withPeriod start
      start)).run { e with course := e.course.newBlock.2 } =
        (.ok (e.copyOn source start).id, e.withCopy source start) :=
    run_beginBlock_ok (Block.withPeriod_eq_ok (Date.le_refl start)) (h.add_copyOn source hday hnext)
  refine (run_ask_bind (a := (source, start)) ?_).trans ?_
  · rw [hsource, dayAfter_of_next? hlast hnext]
    rfl
  refine (run_bind_ok (run_drawBlock e)).trans ?_
  exact run_bind_ok hbegin

end Edit

namespace Editor

variable {e after last : Editor} {source copy : Block} {day start : Date}

/-- A block of one day with the issues of another has come behind all others, on the day
after the last one, and is being edited. -/
structure Copied (e : Editor) (source copy : Block) (after : Editor) : Prop where
  dates : ∃ day start, e.course.IsLastDay day ∧ day.next? = some start ∧
    copy.first = some start ∧ copy.last = some start
  issues : copy.issues = source.issues
  fresh : ∀ b ∈ e.course.blocks, b.id ≠ copy.id
  blocks : after.course.blocks = e.course.blocks ++ [copy]
  inOrder : Course.InOrder after.course.blocks
  showing : after.showing = some copy.id
  processes : after.course.processes = []
  imported : after.course.imported = none

theorem Sound.copied (h : e.Sound) (hsource : e.showingBlock? = some source)
    (hday : e.course.IsLastDay day) (hnext : day.next? = some start) :
    e.Copied source (e.copyOn source start) (e.withCopy source start).navigate.touch where
  dates := ⟨day, start, hday, hnext, rfl, rfl⟩
  issues := rfl
  fresh := h.ne_copyOn source start
  blocks := congrArg Course.blocks (course_navigate (e.withCopy source start))
  inOrder := by
    have hrun := Edit.run_copyBlock_of_next? h hsource hday hnext
    have hafter : e.perform .copyBlock = (e.withCopy source start).navigate.touch :=
      congrArg Prod.snd hrun
    rw [← hafter]
    exact (h.perform .copyBlock).valid.toInOrder
  showing := showing_navigate (e.withCopy source start)
  processes := rfl
  imported := rfl

theorem exists_run_copyBlock (h : e.Sound) (hsource : e.showingBlock? = some source)
    (hend : ¬e.course.IsLastDay Date.last) :
    ∃ copy after, Edit.copyBlock.run e = (.ok copy.id, after) ∧ e.Copied source copy after := by
  obtain ⟨id, -, hblock⟩ := Option.bind_eq_some_iff.1 hsource
  obtain ⟨day, hday⟩ := h.valid.toInOrder.exists_isLastDay (Course.mem_of_block? hblock)
  cases hnext : day.next? with
  | none =>
    rw [Date.next?_eq_none_iff.1 hnext] at hday
    exact absurd hday hend
  | some start =>
    exact ⟨_, _, Edit.run_copyBlock_of_next? h hsource hday hnext, h.copied hsource hday hnext⟩

theorem copyBlock_iff (h : e.Sound) (hsource : e.showingBlock? = some source) :
    ((∃ id, (Edit.copyBlock.run e).1 = .ok id) ↔ ¬e.course.IsLastDay Date.last) ∧
      (∀ id, (Edit.copyBlock.run e).1 = .ok id →
        ∃ copy, copy.id = id ∧ e.Copied source copy (Edit.copyBlock.run e).2) ∧
      ∀ cause, (Edit.copyBlock.run e).1 = .error cause ↔
        e.course.IsLastDay Date.last ∧ cause = .invalidRange "the course has no end" := by
  refine outcome_iff ?_ ?_ ?_
  · by_cases hend : e.course.IsLastDay Date.last
    · exact .inl ⟨_, hend, rfl⟩
    · exact .inr hend
  · intro cause ⟨hend, hcause⟩
    have hlast := h.valid.toInOrder.last?_eq_some_iff.2 hend
    rw [Edit.run_copyBlock_of_end hsource hlast, hcause]
  · intro hend
    obtain ⟨copy, after, hrun, hcopied⟩ := exists_run_copyBlock h hsource hend
    rw [hrun]
    exact ⟨copy.id, rfl, copy, rfl, hcopied⟩

/-- What is done to the copy leaves all blocks as they were before it came. -/
theorem Copied.edit_copy (h : e.Copied source copy after) (hlast : Reissued copy.id after last) :
    ∃ issues, last.course.blocks = e.course.blocks ++ [{ copy with issues }] := by
  obtain ⟨f, hf⟩ := hlast
  refine ⟨f copy.issues, ?_⟩
  rw [hf, h.blocks, List.map_append, Course.map_reissued_of_ne h.fresh, List.map_singleton,
    Block.reissued_of_eq rfl]

/-- What is done to a block that was copied leaves the copy and all other blocks alone. -/
theorem Copied.edit_source (h : e.Copied source copy after) (hsource : source ∈ e.course.blocks)
    (hlast : Reissued source.id after last) :
    ∃ f, last.course.blocks = e.course.blocks.map (Block.reissued source.id f) ++ [copy] := by
  obtain ⟨f, hf⟩ := hlast
  refine ⟨f, ?_⟩
  rw [hf, h.blocks, List.map_append, List.map_singleton,
    Block.reissued_of_ne (h.fresh source hsource).symm]

/-- A copy always fits.  Copying the block being edited fails only where the last day of the
course is the last one of the calendar.  Otherwise the copy is the last block from then on, on
the day after the former last day and under a number of its own; it has the issues of its
original, nothing else has changed in the course, and the copy is being edited.  Whatever is
done to the issues of the copy then leaves every former block as it was, and whatever is done
to those of the original leaves the copy as it was. -/
theorem copyBlock_fits (he : e.Reachable) (hsource : e.showingBlock? = some source) :
    ((∃ id, (Edit.copyBlock.run e).1 = .ok id) ↔ ¬e.course.IsLastDay Date.last) ∧
      (∀ cause, (Edit.copyBlock.run e).1 = .error cause ↔
        e.course.IsLastDay Date.last ∧ cause = .invalidRange "the course has no end") ∧
      ∀ id after, Edit.copyBlock.run e = (.ok id, after) →
        ∃ copy, copy.id = id ∧ e.Copied source copy after ∧
          (∀ requests, Confined id after requests → ∃ issues,
            (requests.foldl perform after).course.blocks =
              e.course.blocks ++ [{ copy with issues }]) ∧
          ∀ requests, Confined source.id after requests → ∃ f,
            (requests.foldl perform after).course.blocks =
              e.course.blocks.map (Block.reissued source.id f) ++ [copy] := by
  have hsound := sound_of_reachable he
  obtain ⟨hok, hcopied, herror⟩ := copyBlock_iff hsound hsource
  refine ⟨hok, herror, ?_⟩
  intro id after hrun
  have hafter : (Edit.copyBlock.run e).2 = after := congrArg Prod.snd hrun
  obtain ⟨copy, rfl, hcopy⟩ := hcopied id (congrArg Prod.fst hrun)
  rw [hafter] at hcopy
  have hsound' : after.Sound := hafter ▸ hsound.perform .copyBlock
  obtain ⟨shown, -, hblock⟩ := Option.bind_eq_some_iff.1 hsource
  refine ⟨copy, rfl, hcopy, ?_, ?_⟩
  · intro requests hrequests
    exact hcopy.edit_copy (reissued_foldl hsound' hrequests)
  · intro requests hrequests
    exact hcopy.edit_source (Course.mem_of_block? hblock) (reissued_foldl hsound' hrequests)

/-- A session with a block of two weeks, which is being edited, and one that is only begun on
28 February of a leap year. -/
def leapYear : Editor :=
  [.setPeriod "1.1.1850" "14.1.1850", .addIssue "Morning", .setRegular 0 .mon true,
    .selectIssue 1 0 ⟨1850, 1, 2, by decide⟩, .startNewBlock, .setFirst "28.2.1852",
    .selectNumber 1, .split .weeks].foldl perform (blank .standard ⟨2024, 6, 8, by decide⟩)

/-- The same with a block that is begun on the last day of the calendar. -/
def lastDay : Editor :=
  [.startNewBlock, .setFirst "31.12.262142"].foldl perform leapYear

theorem copyBlock_fits_leapYear :
    leapYear.Reachable ∧ leapYear.course.blocks.map Block.id = [1, 2] ∧
      leapYear.course.processes.length = 3 ∧
      (∃ source copy after, leapYear.showingBlock? = some source ∧ source.id = 1 ∧
        Edit.copyBlock.run leapYear = (.ok 3, after) ∧ leapYear.Copied source copy after ∧
        copy.first = some ⟨1852, 2, 29, by decide⟩ ∧
        (∃ issues, ([.addIssue "Evening", .removeIssue 0].foldl perform after).course.blocks =
          leapYear.course.blocks ++ [{ copy with issues }]) ∧
        ∃ f, ([.selectNumber 1, .removeIssue 0].foldl perform after).course.blocks =
          leapYear.course.blocks.map (Block.reissued source.id f) ++ [copy]) ∧
      lastDay.Reachable ∧ lastDay.course.IsLastDay Date.last ∧
      (Edit.copyBlock.run lastDay).1 = .error (.invalidRange "the course has no end") := by
  have hreach : leapYear.Reachable := (Reachable.blank _ _).foldl _
  have hreach' : lastDay.Reachable := hreach.foldl _
  have hend : lastDay.course.IsLastDay Date.last :=
    (sound_of_reachable hreach').valid.toInOrder.last?_eq_some_iff.1 (by decide +kernel)
  obtain ⟨source, hsource⟩ : ∃ source, leapYear.showingBlock? = some source :=
    Option.isSome_iff_exists.1 (by decide +kernel)
  obtain ⟨source', hsource'⟩ : ∃ source, lastDay.showingBlock? = some source :=
    Option.isSome_iff_exists.1 (by decide +kernel)
  obtain ⟨-, -, hcopied⟩ := copyBlock_fits hreach hsource
  obtain ⟨-, herror, -⟩ := copyBlock_fits hreach' hsource'
  have hrun : Edit.copyBlock.run leapYear = (.ok 3, leapYear.perform .copyBlock) :=
    Prod.ext (by decide +kernel) rfl
  obtain ⟨copy, -, hcopy, hedit, hedit'⟩ := hcopied 3 _ hrun
  have hid : leapYear.showingBlock?.map Block.id = some 1 := by decide +kernel
  have hfirst : (leapYear.perform .copyBlock).course.blocks.getLast?.bind Block.first =
      some ⟨1852, 2, 29, by decide⟩ := by decide +kernel
  rw [hsource] at hid
  rw [hcopy.blocks, List.getLast?_concat] at hfirst
  refine ⟨hreach, by decide +kernel, by decide +kernel, ?_, hreach', hend,
    (herror _).2 ⟨hend, rfl⟩⟩
  refine ⟨source, copy, _, hsource, Option.some.inj hid, hrun, hcopy, hfirst,
    hedit _ (by decide +kernel), hedit' _ ?_⟩
  rw [Option.some.inj hid]
  decide +kernel

end Editor
end PressCalendar
