/-
Two editors over the same course.

`Twins` are editors whose courses differ in nothing but the numbers of the blocks, all of
which are complete.  What else an editor knows, the block it shows and the year on its
sheet, may differ until both have been sent to the same block; then they are `Facing`.
Each request is answered alike by both, and leaves twins behind.
-/
import PressCalendar.Proofs.Course.Bare
import PressCalendar.Proofs.Editor.Caches
import PressCalendar.Proofs.Editor.Parallel

namespace PressCalendar
namespace Editor

variable {today : Date} {a b a' b' : Editor} {x y : Block}

theorem Reachable.valid {e : Editor} (h : e.Reachable) : e.course.Valid :=
  (Course.sound_of_reachable (current_of_reachable h).1).toValid

/-- Two editors on the same day, over courses that are twins. -/
structure Twins (today : Date) (a b : Editor) : Prop where
  left : a.Reachable
  right : b.Reachable
  course : a.course.Twins b.course
  day : a.today = today
  day' : b.today = today

/-- Two editors on the same day that show counterparts. -/
structure Facing (today : Date) (a b : Editor) (x y : Block) : Prop where
  counterparts : a.course.Counterparts b.course x y
  showing : a.showing = some x.id
  showing' : b.showing = some y.id
  day : a.today = today
  day' : b.today = today

theorem Facing.abreast (h : Facing today a b x y) :
    a.course.Twins b.course ∧ a.today = today ∧ b.today = today :=
  ⟨h.counterparts.toTwins, h.day, h.day'⟩

/-- No block of an editor has changed, and it is the same day. -/
structure Unmoved (b b' : Editor) : Prop where
  blocks : b'.course.blocks = b.course.blocks
  today : b'.today = b.today

theorem Unmoved.refl (b : Editor) : b.Unmoved b := ⟨rfl, rfl⟩

theorem Twins.of_unmoved (h : Twins today a b) (hb : b'.Reachable) (hunmoved : b.Unmoved b') :
    Twins today a b' :=
  ⟨h.left, hb, h.course.congr rfl hunmoved.blocks, h.day, hunmoved.today.trans h.day'⟩

theorem blocks_settled (e : Editor) : e.navigate.touch.course.blocks = e.course.blocks := by
  rw [course_touch, course_navigate]
  rfl

theorem Facing.settled (h : Facing today a b x y) :
    Facing today a.navigate.touch b.navigate.touch x y where
  counterparts := h.counterparts.congr (blocks_settled a) (blocks_settled b)
  showing := (showing_navigate a).trans h.showing
  showing' := (showing_navigate b).trans h.showing'
  day := (today_navigate a).trans h.day
  day' := (today_navigate b).trans h.day'

theorem Facing.showingBlock (h : Facing today a b x y) (hab : Twins today a b) :
    a.showingBlock? = some x ∧ b.showingBlock? = some y := by
  obtain ⟨i, hx, hy⟩ := h.counterparts.place
  rw [showingBlock?, showingBlock?, h.showing, h.showing']
  exact ⟨hab.left.valid.block?_eq hx, hab.right.valid.block?_eq hy⟩

theorem showingBlock_eq {e : Editor} (h : e.showingBlock? = some x) : e.showingBlock = .ok x := by
  unfold showingBlock? at h
  unfold showingBlock
  cases hshowing : e.showing with
  | none =>
    rw [hshowing] at h
    exact absurd h (by simp)
  | some id =>
    rw [hshowing, Option.bind_some] at h
    simp only [h]

/-- What can be said of a block without its number is the same of both. -/
theorem Facing.bind_eq {α : Type} (h : Facing today a b x y) (hab : Twins today a b)
    {f : Block → Option α} (hf : ∀ (x : Block) (id : Nat), f { x with id } = f x) :
    a.showingBlock?.bind f = b.showingBlock?.bind f := by
  obtain ⟨hx, hy⟩ := h.showingBlock hab
  obtain ⟨id, rfl⟩ := Block.exists_withId h.counterparts.bare_eq
  rw [hx, hy, Option.bind_some, Option.bind_some]
  exact (hf x id).symm

theorem Facing.label_eq (h : Facing today a b x y) (hab : Twins today a b) :
    a.showingLabel = b.showingLabel := by
  have hlabel : ∀ e : Editor,
      e.showingLabel = (e.showingBlock?.bind fun x => some x.label).getD "" := by
    intro e
    rw [showingLabel, Option.map_eq_bind]
    rfl
  rw [hlabel, hlabel, h.bind_eq hab fun _ _ => rfl]

end Editor

namespace Edit

open Editor (Facing Twins)

variable {α β : Type} {today : Date} {o a b : Editor} {x y : Block} {E : Editor → Prop}

/-! ## Requests -/

theorem reachable_of_run {p : Edit α} {r : Editor.Request} {e e' : Editor}
    {answer : Except Error α} (he : e.Reachable) (hp : (p.run e).2 = e.perform r)
    (hrun : p.run e = (answer, e')) : e'.Reachable := by
  have hafter : e' = e.perform r := by rw [← hp, hrun]
  rw [hafter]
  exact he.perform r

/-- What a request leaves is reachable again, so twins are left if the courses still
agree. -/
theorem Parallel.reached (r r' : Editor.Request) {p : Edit α} {q : Edit β} {E' : Editor → Prop}
    {Q : α → β → Editor → Editor → Prop} (h : Twins today a b) (hp : (p.run a).2 = a.perform r)
    (hq : (q.run b).2 = b.perform r') (hpq : p.Parallel q a b E Q)
    (hE : ∀ b', b'.Reachable → E b' → E' b')
    (hQ : ∀ u v a' b', Q u v a' b' →
      a'.course.Twins b'.course ∧ a'.today = today ∧ b'.today = today) :
    p.Parallel q a b E' fun u v a' b' => Twins today a' b' ∧ Q u v a' b' := by
  refine hpq.mono ?_ ?_
  · intro cause b' hrun hfailed
    exact hE b' (reachable_of_run h.right hq hrun) hfailed
  · intro u v a' b' hrun hrun' hleft
    obtain ⟨hcourse, hday, hday'⟩ := hQ u v a' b' hleft
    exact ⟨⟨reachable_of_run h.left hp hrun, reachable_of_run h.right hq hrun', hcourse, hday,
      hday'⟩, hleft⟩

/-- A request that fails without moving a block may be forgotten. -/
theorem Parallel.request (r r' : Editor.Request) {p : Edit α} {q : Edit β}
    {Q : α → β → Editor → Editor → Prop} (h : Twins today a b) (ho : Twins today o b)
    (hp : (p.run a).2 = a.perform r) (hq : (q.run b).2 = b.perform r')
    (hpq : p.Parallel q a b b.Unmoved Q)
    (hQ : ∀ u v a' b', Q u v a' b' →
      a'.course.Twins b'.course ∧ a'.today = today ∧ b'.today = today) :
    p.Parallel q a b (Twins today o) fun u v a' b' => Twins today a' b' ∧ Q u v a' b' :=
  hpq.reached r r' h hp hq (fun _ hb hunmoved => ho.of_unmoved hb hunmoved) hQ

/-! ## Choosing a block -/

/-- A block that comes up is looked at for what is unlikely about it, the one that is shown
already is not. -/
theorem exists_run_selectBlock {e : Editor} (he : e.course.Valid) {i : Nat}
    (hx : e.course.blocks[i]? = some x) :
    ∃ e', (selectBlock x.id).run e =
        (.ok (if e.showing = some x.id then [] else e'.implausibilities), e') ∧
      e'.course = e.course ∧ e'.showing = some x.id ∧ e'.today = e.today ∧
      e'.preferences = e.preferences := by
  have hsome : (e.course.block? x.id).isNone = false := by
    rw [he.block?_eq hx]
    rfl
  unfold selectBlock
  rw [run_get_bind, hsome, if_neg (by simp)]
  by_cases hshowing : e.showing = some x.id
  · refine ⟨e, ?_, rfl, hshowing, rfl, rfl⟩
    rw [if_pos hshowing, if_pos hshowing]
    rfl
  · refine ⟨Editor.navigate { e with showing := some x.id }, ?_,
      Editor.course_navigate _, Editor.showing_navigate _, Editor.today_navigate _,
      Editor.preferences_navigate _⟩
    rw [if_neg hshowing, if_neg hshowing]
    rfl

/-- Sent to the same place, twins show counterparts. -/
theorem parallel_selectNumber (h : Twins today a b) (ho : Twins today o b) (number : Nat) :
    (selectNumber number).Parallel (selectNumber number) a b (Twins today o) fun _ _ a' b' =>
      Twins today a' b' ∧ Twins today o b' ∧ ∃ x y, Facing today a' b' x y := by
  have hraw : (selectNumber number).Parallel (selectNumber number) a b
      b.Unmoved fun _ _ a' b' =>
        (∃ x y, Facing today a' b' x y) ∧ b.Unmoved b' := by
    refine Parallel.get_bind ?_
    cases number with
    | zero => exact .throw _ ⟨rfl, rfl⟩
    | succ index =>
      cases hx : a.course.blocks[index]? with
      | none =>
        have hy : b.course.blocks[index]? = none := by
          rw [List.getElem?_eq_none_iff, ← h.course.length_eq]
          exact List.getElem?_eq_none_iff.1 hx
        simp only [hx, hy]
        exact .throw _ ⟨rfl, rfl⟩
      | some x =>
        obtain ⟨y, hy, hxy⟩ := h.course.counterparts hx
        obtain ⟨a', hrun, hcourse, hshowing, htoday, -⟩ :=
          exists_run_selectBlock h.left.valid hx
        obtain ⟨b', hrun', hcourse', hshowing', htoday', -⟩ :=
          exists_run_selectBlock h.right.valid hy
        simp only [hx, hy]
        refine .ok hrun hrun' ⟨⟨x, y, ?_, hshowing, hshowing', htoday.trans h.day,
          htoday'.trans h.day'⟩, ?_, htoday'⟩
        · exact hxy.congr (by rw [hcourse]) (by rw [hcourse'])
        · rw [hcourse']
  refine (Parallel.request (.selectNumber number) (.selectNumber number) h ho rfl rfl
    hraw ?_).imp ?_
  · rintro _ _ a' b' ⟨⟨x, y, hfacing⟩, -⟩
    exact hfacing.abreast
  · rintro _ _ a' b' ⟨htwins, hfacing, hunmoved⟩
    exact ⟨htwins, ho.of_unmoved htwins.right hunmoved, hfacing⟩

theorem run_neglect {e : Editor} (h : ∀ b ∈ e.course.blocks, b.isComplete = true) :
    neglect.run e = (.ok (), e) := by
  have hkept : ∀ id block, e.course.block? id = some block →
      (block.issues.isEmpty && !block.isComplete) = false := by
    intro id block hblock
    rw [h block (Course.mem_of_block? hblock), Bool.not_true, Bool.and_false]
  refine congrArg (Prod.mk (Except.ok ())) ?_
  beta_reduce
  split
  · rfl
  · split
    · rfl
    · case h_2 block hblock => rw [hkept _ block hblock, if_neg (by simp)]

/-- Nothing is lost when twins stop editing a block. -/
theorem parallel_startNewBlock (h : Twins today a b) (ho : Twins today o b) :
    startNewBlock.Parallel startNewBlock a b (Twins today o) fun _ _ a' b' =>
      Twins today a' b' ∧ Twins today o b' ∧ a'.showing = none ∧ b'.showing = none := by
  have hrun : ∀ {e : Editor}, (∀ b ∈ e.course.blocks, b.isComplete = true) →
      startNewBlock.run e = (.ok (), { e with showing := none }) := by
    intro e he
    exact run_bind_ok (run_neglect he)
  have ha := hrun h.course.complete
  have hb := hrun h.course.symm.complete
  have hleft := reachable_of_run (r := .startNewBlock) h.left rfl ha
  have hright := reachable_of_run (r := .startNewBlock) h.right rfl hb
  exact .ok ha hb ⟨⟨hleft, hright, h.course, h.day, h.day'⟩, ho.of_unmoved hright ⟨rfl, rfl⟩,
    rfl, rfl⟩

/-! ## Dates -/

/-- Twins read a date in the same way, and nothing happens. -/
theorem parallel_readDate_bind {Q : α → β → Editor → Editor → Prop} (htoday : a.today = b.today)
    (input : String) (field : DateField) {k : Date × List Notice → Edit α}
    {k' : Date × List Notice → Edit β} (hE : E b)
    (hk : ∀ answer, (k answer).Parallel (k' answer) a b E Q) :
    (readDate input field >>= k).Parallel (readDate input field >>= k') a b E Q := by
  refine Parallel.ask_bind (r := Eq) (Agree.of_eq ?_) (fun _ _ => hE) ?_
  · rw [htoday]
  · rintro answer _ rfl
    exact hk answer

theorem parallel_settleDates {notices : List Notice} (h : Facing today a b x y) :
    (settleDates notices).Parallel (settleDates notices) a b E fun _ _ a' b' =>
      ∃ x y, Facing today a' b' x y :=
  .ok rfl rfl ⟨x, y, h.settled⟩

/-- Twins begin blocks that differ in their numbers. -/
theorem parallel_begin {Q : α → β → Editor → Editor → Prop} (h : Twins today a b)
    {f g : Block → Except Error Block} {k : Nat → Edit α} {k' : Nat → Edit β}
    (hfg : Agree (fun x y => x.bare = y.bare ∧ x.isComplete = true ∧ x.id = a.course.lastId + 1 ∧
      y.id = b.course.lastId + 1) (f a.course.newBlock.1) (g b.course.newBlock.1))
    (hE : E { b with course := b.course.newBlock.2 })
    (hk : ∀ a' b' x y, Facing today a' b' x y → (k x.id).Parallel (k' y.id) a' b' E Q) :
    (drawBlock >>= fun blank => beginBlock (f blank) >>= k).Parallel
      (drawBlock >>= fun blank => beginBlock (g blank) >>= k') a b E Q := by
  have hbegin : (beginBlock (f a.course.newBlock.1)).Parallel (beginBlock (g b.course.newBlock.1))
      { a with course := a.course.newBlock.2 } { b with course := b.course.newBlock.2 } E
      fun id id' a' b' => ∃ x y, id = x.id ∧ id' = y.id ∧ Facing today a' b' x y := by
    refine Parallel.ask_bind hfg (fun _ _ => hE) ?_
    rintro x y ⟨hbare, hcomplete, hx, hy⟩
    have hadd := h.course.agree_add h.left.valid h.right.valid hbare hcomplete hx hy
    refine Parallel.ask_bind hadd (fun _ _ => hE) ?_
    rintro ⟨id, added⟩ ⟨id', added'⟩ ⟨rfl, rfl, hadded⟩
    exact .ok rfl rfl ⟨x, y, rfl, rfl, hadded, rfl, rfl, h.day, h.day'⟩
  have hdraw : drawBlock.Parallel drawBlock a b E fun u v a' b' =>
      u = a.course.newBlock.1 ∧ v = b.course.newBlock.1 ∧
        a' = { a with course := a.course.newBlock.2 } ∧
        b' = { b with course := b.course.newBlock.2 } :=
    .ok rfl rfl ⟨rfl, rfl, rfl, rfl⟩
  refine hdraw.bind ?_
  rintro _ _ _ _ ⟨rfl, rfl, rfl, rfl⟩
  refine hbegin.bind ?_
  rintro _ _ a' b' ⟨x, y, rfl, rfl, hfacing⟩
  exact hk a' b' x y hfacing

/-- Counterparts get the same dates, or are refused them. -/
theorem parallel_redate (h : Twins today a b) (hfacing : Facing today a b x y)
    (dating : Block.Dating) (notices : List Notice) (hE : E b) :
    (changeCourse (dating.ofCourse · x.id) >>= fun _ => settleDates notices).Parallel
      (changeCourse (dating.ofCourse · y.id) >>= fun _ => settleDates notices) a b E
      fun _ _ a' b' => ∃ x y, Facing today a' b' x y := by
  have hchange : (changeCourse (dating.ofCourse · x.id)).Parallel
      (changeCourse (dating.ofCourse · y.id)) a b E
      fun _ _ a' b' => ∃ x y, Facing today a' b' x y := by
    have hredate := hfacing.counterparts.agree_redate h.left.valid h.right.valid dating
    refine Parallel.ask_bind hredate (fun _ _ => hE) ?_
    rintro c d ⟨x', y', hcounterparts, hx, hy⟩
    exact .ok rfl rfl ⟨x', y', hcounterparts, hx ▸ hfacing.showing, hy ▸ hfacing.showing', h.day,
      h.day'⟩
  refine hchange.bind ?_
  rintro _ _ a' b' ⟨x', y', hfacing'⟩
  exact parallel_settleDates hfacing'

/-- Dates for counterparts. -/
theorem parallel_giveDates (h : Twins today a b) (hfacing : Facing today a b x y)
    (dating : Block.Dating) (notices : List Notice) (hE : E b) :
    (giveDates dating notices).Parallel (giveDates dating notices) a b E
      fun _ _ a' b' => ∃ x y, Facing today a' b' x y := by
  refine Parallel.get_bind ?_
  rw [hfacing.showing, hfacing.showing']
  exact parallel_redate h hfacing dating notices hE

/-- One date for counterparts, which both have it already or neither. -/
theorem parallel_setDate (h : Twins today a b) (ho : Twins today o b)
    (hfacing : Facing today a b x y) (r : Editor.Request) (field : DateField)
    (dateOf : Block → Option Date) (dating : Date → Block.Dating) (input : String)
    (hr : ∀ e : Editor, ((setDate field dateOf dating input).run e).2 = e.perform r)
    (hdateOf : ∀ (x : Block) (id : Nat), dateOf { x with id } = dateOf x) :
    (setDate field dateOf dating input).Parallel (setDate field dateOf dating input) a b
      (Twins today o) fun _ _ a' b' => Twins today a' b' ∧ ∃ x y, Facing today a' b' x y := by
  refine Parallel.request r r h ho (hr a) (hr b) ?_ ?_
  · refine parallel_readDate_bind (h.day.trans h.day'.symm) input _ ⟨rfl, rfl⟩ ?_
    rintro ⟨date, notices⟩
    refine Parallel.get_bind ?_
    rw [hfacing.bind_eq h hdateOf]
    split
    · exact .pure ⟨x, y, hfacing⟩
    · exact parallel_giveDates h hfacing (dating date) notices ⟨rfl, rfl⟩
  · rintro _ _ a' b' ⟨x, y, hfacing⟩
    exact hfacing.abreast

/-- Both dates, for counterparts or for blocks that are begun. -/
theorem parallel_setPeriod (h : Twins today a b) (ho : Twins today o b)
    (hshowing : (a.showing = none ∧ b.showing = none) ∨ ∃ x y, Facing today a b x y)
    (firstInput lastInput : String) :
    (setPeriod firstInput lastInput).Parallel (setPeriod firstInput lastInput) a b (Twins today o)
      fun _ _ a' b' => Twins today a' b' ∧ ∃ x y, Facing today a' b' x y := by
  refine Parallel.request (.setPeriod firstInput lastInput) (.setPeriod firstInput lastInput)
    h ho rfl rfl ?_ ?_
  · refine parallel_readDate_bind (h.day.trans h.day'.symm) firstInput _ ⟨rfl, rfl⟩ ?_
    rintro ⟨first, firstNotices⟩
    refine parallel_readDate_bind (h.day.trans h.day'.symm) lastInput _ ⟨rfl, rfl⟩ ?_
    rintro ⟨last, lastNotices⟩
    rcases hshowing with ⟨ha, hb⟩ | ⟨x, y, hfacing⟩
    · refine Parallel.get_bind ?_
      rw [ha, hb]
      have hblank : a.course.newBlock.1.bare = b.course.newBlock.1.bare := rfl
      refine parallel_begin h (f := (·.withPeriod first last)) (g := (·.withPeriod first last))
        (Block.agree_withPeriod hblank first last) ⟨rfl, rfl⟩ ?_
      intro a' b' x y hfacing
      exact parallel_settleDates hfacing
    · exact parallel_giveDates h hfacing (.period first last) _ ⟨rfl, rfl⟩
  · rintro _ _ a' b' ⟨x, y, hfacing⟩
    exact hfacing.abreast

/-! ## Blocks -/

theorem agree_copySource (h : Twins today a b) (hfacing : Facing today a b x y) :
    Agree (fun source source' : Block × Date => source.1 = x ∧ source'.1 = y ∧
        source.2 = source'.2)
      (do let some source := a.showingBlock? | .error .noBlockSelected
          return (source, ← dayAfter a.course))
      (do let some source := b.showingBlock? | .error .noBlockSelected
          return (source, ← dayAfter b.course)) := by
  obtain ⟨hx, hy⟩ := hfacing.showingBlock h
  have hday : dayAfter a.course = dayAfter b.course := by
    rw [dayAfter, dayAfter, Course.last?_congr h.course.bare]
  rw [hx, hy]
  refine (Agree.of_eq hday).bind ?_
  rintro start _ rfl
  exact .ok ⟨rfl, rfl, rfl⟩

theorem parallel_copyBlock (h : Twins today a b) (ho : Twins today o b)
    (hfacing : Facing today a b x y) :
    copyBlock.Parallel copyBlock a b (Twins today o) fun _ _ a' b' =>
      Twins today a' b' ∧ ∃ x y, Facing today a' b' x y := by
  refine Parallel.request .copyBlock .copyBlock h ho rfl rfl ?_ ?_
  · refine Parallel.ask_bind (agree_copySource h hfacing) (fun _ _ => ⟨rfl, rfl⟩) ?_
    rintro ⟨source, start⟩ ⟨source', _⟩ ⟨rfl, rfl, rfl⟩
    refine parallel_begin h ?_ ⟨rfl, rfl⟩ ?_
    · have hcopy : { a.course.newBlock.1 with issues := source.issues }.bare =
          { b.course.newBlock.1 with issues := source'.issues }.bare := by
        obtain ⟨id, rfl⟩ := Block.exists_withId hfacing.counterparts.bare_eq
        rfl
      exact Block.agree_withPeriod hcopy start start
    · intro a' b' x' y' hbegun
      exact .ok rfl rfl ⟨x', y', hbegun.settled⟩
  · rintro _ _ a' b' ⟨x, y, hfacing⟩
    exact hfacing.abreast

theorem parallel_removeBlock (h : Twins today a b) (ho : Twins today o b)
    (hfacing : Facing today a b x y) :
    removeBlock.Parallel removeBlock a b (Twins today o) fun _ _ a' b' => Twins today a' b' := by
  refine (Parallel.request .removeBlock .removeBlock h ho rfl rfl
    (Q := fun _ _ a' b' => a'.course.Twins b'.course ∧ a'.today = today ∧ b'.today = today) ?_
    fun _ _ _ _ hleft => hleft).imp fun _ _ _ _ hleft => hleft.1
  obtain ⟨i, hx, hy⟩ := hfacing.counterparts.place
  have hshowing : Agree (fun u v => u = x.id ∧ v = y.id) a.showingId b.showingId := by
    rw [Editor.showingId_eq hfacing.showing, Editor.showingId_eq hfacing.showing']
    exact .ok ⟨rfl, rfl⟩
  refine Parallel.ask_bind hshowing (fun _ _ => ⟨rfl, rfl⟩) ?_
  rintro _ _ ⟨rfl, rfl⟩
  refine Parallel.get_bind ?_
  dsimp only
  rw [h.course.length_eq]
  split
  · have hnone : a.course.clear.Twins b.course.clear :=
      ⟨rfl, fun b hb => absurd hb List.not_mem_nil⟩
    exact .ok rfl rfl ⟨hnone, h.day, h.day'⟩
  · have hindex : Agree (fun u v => u = i ∧ v = i) (indexOf a.course x.id)
        (indexOf b.course y.id) := by
      rw [indexOf_eq (h.left.valid.index?_eq hx), indexOf_eq (h.right.valid.index?_eq hy)]
      exact .ok ⟨rfl, rfl⟩
    refine Parallel.ask_bind hindex (fun _ _ => ⟨rfl, rfl⟩) ?_
    rintro _ _ ⟨rfl, rfl⟩
    exact .ok rfl rfl
      ⟨(h.course.eraseIdx _).congr (Editor.blocks_settled _) (Editor.blocks_settled _),
        (Editor.today_navigate _).trans h.day, (Editor.today_navigate _).trans h.day'⟩

/-! ## Issues -/

/-- Counterparts are revised alike, if the revision does not look at numbers. -/
theorem parallel_changeBlock (h : Twins today a b) (hfacing : Facing today a b x y)
    {f : Block → Except Error (α × Block)} (hf : ∀ (x : Block) (id : Nat),
      f { x with id } = (f x).map fun answer => (answer.1, { answer.2 with id }))
    (hkept : ∀ answer changed, f x = .ok (answer, changed) →
      changed.id = x.id ∧ changed.isComplete = true)
    (hE : ∀ cause, f x = .error cause → E b) :
    (changeBlock f).Parallel (changeBlock f) a b E fun u v a' b' =>
      u = v ∧ ∃ changed, f x = .ok (u, changed) ∧
        Facing today a' b' changed { changed with id := y.id } := by
  obtain ⟨hx, hy⟩ := hfacing.showingBlock h
  obtain ⟨id, rfl⟩ := Block.exists_withId hfacing.counterparts.bare_eq
  have hshown : Agree (fun u v => x = u ∧ { x with id } = v) a.showingBlock b.showingBlock := by
    rw [Editor.showingBlock_eq hx, Editor.showingBlock_eq hy]
    exact .ok ⟨rfl, rfl⟩
  refine Parallel.ask_bind hshown ?_ ?_
  · intro cause hcause
    rw [Editor.showingBlock_eq hx] at hcause
    cases hcause
  rintro _ _ ⟨rfl, rfl⟩
  have hchanged : Agree (fun u v => f x = .ok u ∧ v = (u.1, { u.2 with id })) (f x)
      (f { x with id }) := by
    rw [hf x id]
    cases f x with
    | error cause => exact .error cause
    | ok answer => exact .ok ⟨rfl, rfl⟩
  refine Parallel.ask_bind hchanged hE ?_
  rintro ⟨u, changed⟩ _ ⟨hfx, rfl⟩
  obtain ⟨hid, hcomplete⟩ := hkept u changed hfx
  have hmodify : (a.course.modify x.id fun _ => changed).Counterparts
      (b.course.modify id fun _ => { changed with id }) changed { changed with id } :=
    hfacing.counterparts.modify h.left.valid h.right.valid rfl hcomplete
  exact .ok rfl rfl ⟨rfl, changed, hfx, hmodify.congr rfl rfl, hid ▸ hfacing.showing,
    hfacing.showing', h.day, h.day'⟩

/-- New issues are given the same index, at which there is an issue then. -/
theorem parallel_addIssue (h : Twins today a b) (hfacing : Facing today a b x y)
    (heading : String) :
    (addIssue heading).Parallel (addIssue heading) a b E fun u v a' b' =>
      Twins today a' b' ∧ u = v ∧ ∃ x y, Facing today a' b' x y ∧ u < x.issues.length := by
  refine Parallel.reached (.addIssue heading) (.addIssue heading) h rfl rfl
    ((parallel_changeBlock h hfacing (fun _ _ => rfl) ?_ ?_).imp ?_)
    (fun _ _ hE => hE) ?_
  · rintro answer changed ⟨⟩
    exact ⟨rfl, hfacing.counterparts.isComplete⟩
  · rintro cause ⟨⟩
  · rintro _ _ a' b' ⟨rfl, changed, hchanged, hfacing'⟩
    cases hchanged
    refine ⟨rfl, _, _, hfacing', ?_⟩
    show x.issues.length < (x.issues ++ [_]).length
    rw [List.length_append, List.length_singleton]
    omega
  · rintro _ _ a' b' ⟨-, x, y, hfacing', -⟩
    exact hfacing'.abreast

theorem parallel_removeIssue (h : Twins today a b) (ho : Twins today o b)
    (hfacing : Facing today a b x y) (index : Nat) :
    (removeIssue index).Parallel (removeIssue index) a b (Twins today o) fun u v a' b' =>
      Twins today a' b' ∧ u = v := by
  have hremove : ∀ x : Block, x.removeIssue? index =
      x.issues[index]?.map fun issue => (issue, { x with issues := x.issues.eraseIdx index }) :=
    fun _ => rfl
  refine (Parallel.request (.removeIssue index) (.removeIssue index) h ho rfl rfl
    (parallel_changeBlock h hfacing ?_ ?_ fun _ _ => .refl b) ?_).imp ?_
  · intro x id
    rw [hremove, hremove]
    cases x.issues[index]? <;> rfl
  · intro answer changed hchanged
    rw [hremove] at hchanged
    cases hissue : x.issues[index]? with
    | none =>
      rw [hissue] at hchanged
      cases hchanged
    | some issue =>
      rw [hissue] at hchanged
      cases hchanged
      exact ⟨rfl, hfacing.counterparts.isComplete⟩
  · rintro _ _ a' b' ⟨-, changed, -, hfacing'⟩
    exact hfacing'.abreast
  · rintro _ _ a' b' ⟨htwins, heq, -⟩
    exact ⟨htwins, heq⟩

theorem issueAt_withId (x : Block) (index id : Nat) :
    issueAt { x with id } index = issueAt x index := rfl

theorem parallel_changeIssue (h : Twins today a b) (hfacing : Facing today a b x y) (index : Nat)
    (f : Issue → Issue) (hE : x.issues[index]? = none → E b) :
    (changeIssue index f).Parallel (changeIssue index f) a b E fun _ _ a' b' =>
      ∃ issue x' y', x.issues[index]? = some issue ∧ x' = x.setIssue index (f issue) ∧
        Facing today a' b' x' y' := by
  refine (parallel_changeBlock h hfacing ?_ ?_ ?_).imp ?_
  · intro x id
    rw [issueAt_withId]
    cases issueAt x index <;> rfl
  · intro answer changed hchanged
    obtain ⟨issue, -, hok⟩ := bind_eq_ok.1 hchanged
    cases hok
    exact ⟨rfl, hfacing.counterparts.isComplete⟩
  · intro cause hcause
    refine hE ?_
    cases hissue : x.issues[index]? with
    | none => rfl
    | some issue =>
      rw [issueAt, hissue] at hcause
      cases hcause
  · rintro _ _ a' b' ⟨-, changed, hchanged, hfacing'⟩
    obtain ⟨issue, hissue, hok⟩ := bind_eq_ok.1 hchanged
    cases hok
    exact ⟨issue, _, _, issueAt_eq_ok hissue, rfl, hfacing'⟩

theorem parallel_setHeading (h : Twins today a b) (ho : Twins today o b)
    (hfacing : Facing today a b x y) (index : Nat) (heading : String) :
    (setHeading index heading).Parallel (setHeading index heading) a b (Twins today o)
      fun _ _ a' b' => Twins today a' b' := by
  refine (Parallel.request (.setHeading index heading) (.setHeading index heading) h ho rfl rfl
    (parallel_changeIssue h hfacing index (·.rename heading) fun _ => .refl b) ?_).imp
    fun _ _ _ _ hleft => hleft.1
  rintro _ _ a' b' ⟨issue, x', y', -, -, hfacing'⟩
  exact hfacing'.abreast

/-- An issue that exists can be made regular on any days. -/
theorem parallel_setRegularEach (h : Twins today a b) (hfacing : Facing today a b x y) {index : Nat}
    (hindex : index < x.issues.length) (appears : Weekday → Bool) (days : List Weekday) :
    (days.forM fun day => setRegular index day (appears day)).Parallel
      (days.forM fun day => setRegular index day (appears day)) a b E
      fun _ _ a' b' => Twins today a' b' := by
  induction days generalizing a b x y with
  | nil => exact .pure h
  | cons day days ih =>
    have hday : (setRegular index day (appears day)).Parallel
        (setRegular index day (appears day)) a b E fun _ _ a' b' => Twins today a' b' ∧
          ∃ (issue : Issue) (x' y' : Block), x.issues[index]? = some issue ∧
            x' = x.setIssue index (issue.setRegular day (appears day)) ∧
            Facing today a' b' x' y' := by
      refine Parallel.reached (.setRegular index day (appears day))
        (.setRegular index day (appears day)) h rfl rfl
        (parallel_changeIssue h hfacing index (·.setRegular day (appears day)) ?_)
        (fun _ _ hE => hE) ?_
      · intro hnone
        have := List.getElem?_eq_none_iff.1 hnone
        omega
      · rintro _ _ a' b' ⟨issue, x', y', -, -, hfacing'⟩
        exact hfacing'.abreast
    refine hday.bind ?_
    rintro _ _ a' b' ⟨htwins, issue, x', y', -, rfl, hfacing'⟩
    refine ih htwins hfacing' ?_
    show index < (x.issues.set index _).length
    rwa [List.length_set]

/-- Counterparts cover the same dates and have the same issues. -/
theorem agree_issueOn (h : Twins today a b) (hfacing : Facing today a b x y) (index : Nat)
    (date : Date) : Agree (fun u v => u.1 = x ∧ v.1 = y ∧ u.2 = v.2)
      (issueOn x.id index date a) (issueOn y.id index date b) := by
  obtain ⟨i, hx, hy⟩ := hfacing.counterparts.place
  have hxid := h.left.valid.block?_eq hx
  have hyid := h.right.valid.block?_eq hy
  obtain ⟨id, rfl⟩ := Block.exists_withId hfacing.counterparts.bare_eq
  unfold issueOn
  rw [hxid, hyid]
  show Agree _ (if !x.covers date then _ else _) (if !x.covers date then _ else _)
  split
  · exact .error _
  · refine (Agree.of_eq (issueAt_withId x index id).symm).bind ?_
    rintro issue _ rfl
    exact .ok ⟨rfl, rfl, rfl⟩

theorem parallel_changeIssueOn (h : Twins today a b) (hfacing : Facing today a b x y) (index : Nat)
    (date : Date) (f : Issue → Issue) (hE : E b) :
    (changeIssueOn x.id index date f).Parallel (changeIssueOn y.id index date f) a b E
      fun _ _ a' b' => ∃ x' y', Facing today a' b' x' y' := by
  refine Parallel.ask_bind (agree_issueOn h hfacing index date) (fun _ _ => hE) ?_
  rintro ⟨x, issue⟩ ⟨y, _⟩ ⟨rfl, rfl, rfl⟩
  obtain ⟨id, rfl⟩ := Block.exists_withId hfacing.counterparts.bare_eq
  have hmodify : (a.course.modify x.id fun _ => x.setIssue index (f issue)).Counterparts
      (b.course.modify id fun _ => { x with id }.setIssue index (f issue))
      (x.setIssue index (f issue)) ({ x with id }.setIssue index (f issue)) :=
    hfacing.counterparts.modify h.left.valid h.right.valid rfl hfacing.counterparts.isComplete
  exact .ok rfl rfl
    ⟨_, _, hmodify.congr rfl rfl, hfacing.showing, hfacing.showing', h.day, h.day'⟩

theorem parallel_toggleIssue (h : Twins today a b) (ho : Twins today o b)
    (hfacing : Facing today a b x y) (index : Nat) (date : Date) :
    (toggleIssue x.id index date).Parallel (toggleIssue y.id index date) a b (Twins today o)
      fun u v a' b' => Twins today a' b' ∧ u = v := by
  have hraw : (toggleIssue x.id index date).Parallel (toggleIssue y.id index date) a b b.Unmoved
      fun u v a' b' => u = v ∧ ∃ x' y', Facing today a' b' x' y' := by
    refine Parallel.ask_bind (agree_issueOn h hfacing index date) (fun _ _ => .refl b) ?_
    rintro ⟨x, issue⟩ ⟨y, _⟩ ⟨rfl, rfl, rfl⟩
    dsimp only
    split
    · exact (parallel_changeIssueOn h hfacing index date _ (.refl b)).bind
        fun _ _ _ _ hleft => .pure ⟨rfl, hleft⟩
    · exact (parallel_changeIssueOn h hfacing index date _ (.refl b)).bind
        fun _ _ _ _ hleft => .pure ⟨rfl, hleft⟩
  refine (Parallel.request (.toggleIssue x.id index date) (.toggleIssue y.id index date) h ho
    rfl rfl hraw ?_).imp ?_
  · rintro _ _ a' b' ⟨-, x', y', hfacing'⟩
    exact hfacing'.abreast
  · rintro _ _ a' b' ⟨htwins, heq, -⟩
    exact ⟨htwins, heq⟩

end Edit
end PressCalendar
