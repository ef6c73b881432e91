/-
Which notices there are about the dates of a block, and when.

`Exact` is the whole rule: a block with both dates has the notices that hold of them and no
others, in a fixed order, and a block with one date has none.  `notices_exact` says that this
is what comes with a block that is chosen, and with new dates after the hints on how these were
read; there the block is looked at as it has become, wherever in the course it has gone.
-/
import PressCalendar.Proofs.Editor.Label

namespace PressCalendar

/-! ## Anniversaries -/

/-- Only February changes its length. -/
theorem monthLength_of_ne {month : Nat} (h : month ≠ 2) (year year' : Int) :
    monthLength year month = monthLength year' month := by
  unfold monthLength
  split
  all_goals first | rfl | exact absurd rfl h

namespace Date

/-- The same day so many years later.  For 29 February it is 28 February where the year has
no 29th. -/
structure IsAnniversary (first : Date) (years : Nat) (limit : Date) : Prop where
  year : limit.year = first.year + years
  month : limit.month = first.month
  day : limit.day =
    if first.month = 2 ∧ first.day = 29 ∧ isLeapYear limit.year = false then 28 else first.day

variable {first limit last : Date} {years : Nat}

/-- A day that the month of another year is too short for is 29 February. -/
theorem min_monthLength (d : Date) (year : Int) : min d.day (monthLength year d.month) =
    if d.month = 2 ∧ d.day = 29 ∧ isLeapYear year = false then 28 else d.day := by
  have hday := d.day_le_monthLength
  by_cases hmonth : d.month = 2
  · have hlong : monthLength d.year 2 ≤ 29 := by
      simp only [monthLength]
      split <;> omega
    rw [hmonth] at hday ⊢
    cases hleap : isLeapYear year with
    | true =>
      have hlength : monthLength year 2 = 29 := by simp only [monthLength, hleap, if_true]
      rw [hlength, if_neg fun h => Bool.noConfusion h.2.2]
      omega
    | false =>
      have hlength : monthLength year 2 = 28 := by
        simp only [monthLength, hleap, Bool.false_eq_true, if_false]
      by_cases h29 : d.day = 29
      · rw [hlength, h29, if_pos ⟨rfl, rfl, rfl⟩]
        rfl
      · rw [hlength, if_neg fun h => h29 h.2.1]
        omega
  · rw [monthLength_of_ne hmonth d.year year] at hday
    rw [if_neg fun h => hmonth h.1]
    exact Nat.min_eq_left hday

theorem addYears?_eq_some_iff :
    first.addYears? years = some limit ↔ first.IsAnniversary years limit := by
  unfold addYears?
  rw [of?_eq_some_iff, min_monthLength]
  constructor
  · intro ⟨hyear, hmonth, hday⟩
    rw [← hyear] at hday
    exact ⟨hyear, hmonth, hday⟩
  · intro ⟨hyear, hmonth, hday⟩
    rw [hyear] at hday
    exact ⟨hyear, hmonth, hday⟩

theorem not_isAnniversary_of_lt (h : lastYear < first.year + years) :
    ¬first.IsAnniversary years limit := by
  intro hlimit
  have hyear := limit.isDate.2.1
  rw [hlimit.year] at hyear
  omega

end Date

/-! ## The rule -/

namespace Notice

/-- The notices about two dates. -/
structure ExactOn (earliest today first last : Date) (notices : List Notice) : Prop where
  long : .longBlock ∈ notices ↔ ∃ limit, first.IsAnniversary 100 limit ∧ limit < last
  not_long : lastYear < first.year + 100 → .longBlock ∉ notices
  firstEarly : .firstEarly ∈ notices ↔ first < earliest
  firstFuture : .firstFuture ∈ notices ↔ today < first
  lastEarly : .lastEarly ∈ notices ↔ last < earliest
  lastFuture : .lastFuture ∈ notices ↔ today < last
  early : .lastEarly ∈ notices → .firstEarly ∈ notices
  future : .firstFuture ∈ notices → .lastFuture ∈ notices
  inOrder : notices.Sublist [.longBlock, .firstEarly, .firstFuture, .lastEarly, .lastFuture]
  once : notices.Nodup

/-- The notices about a block. -/
structure Exact (earliest today : Date) (b : Block) (notices : List Notice) : Prop where
  complete : ∀ first ∈ b.first, ∀ last ∈ b.last, ExactOn earliest today first last notices
  incomplete : b.isComplete = false → notices = []

variable {earliest today first last : Date} {b : Block} {n : Notice}

theorem mem_about_iff (hfirst : b.first = some first) (hlast : b.last = some last)
    (hn : n ∈ onDates) : n ∈ about earliest today b ↔ n.Says earliest today first last := by
  rw [mem_about, and_iff_right hn, Holds, hfirst, hlast]
  simp only [Option.mem_some_iff, exists_eq_left']

theorem says_longBlock_iff : longBlock.Says earliest today first last ↔
    ∃ limit, first.IsAnniversary 100 limit ∧ limit < last := by
  have hany := Date.any_addYears?_iff first last longBlockYears
  rw [Says, ← hany, Option.any_eq_true]
  simp only [Date.addYears?_eq_some_iff, decide_eq_true_eq]
  exact Iff.rfl

theorem exactOn_about (hfirst : b.first = some first) (hlast : b.last = some last)
    (hle : first ≤ last) : ExactOn earliest today first last (about earliest today b) := by
  have hiff : ∀ {n}, n ∈ onDates →
      (n ∈ about earliest today b ↔ n.Says earliest today first last) :=
    mem_about_iff hfirst hlast
  have hlong := (@hiff longBlock (by decide)).trans says_longBlock_iff
  refine ⟨hlong, ?_, hiff (by decide), hiff (by decide), hiff (by decide), hiff (by decide),
    ?_, ?_, List.filter_sublist, (holds_of_about earliest today b).2⟩
  · intro hend hmem
    obtain ⟨limit, hlimit, -⟩ := hlong.1 hmem
    exact Date.not_isAnniversary_of_lt hend hlimit
  · rw [hiff (by decide), hiff (by decide)]
    intro hearly
    exact Int.lt_of_le_of_lt hle hearly
  · rw [hiff (by decide), hiff (by decide)]
    intro hfuture
    exact Int.lt_of_lt_of_le hfuture hle

theorem exact_about (hb : b.Ordered) : Exact earliest today b (about earliest today b) := by
  constructor
  · intro first hfirst last hlast
    exact exactOn_about hfirst hlast (hb first hfirst last hlast)
  · intro hincomplete
    rw [List.eq_nil_iff_forall_not_mem]
    intro n hn
    obtain ⟨first, hfirst, last, hlast, -⟩ := (mem_about.1 hn).2
    rw [Block.isComplete, Option.mem_def.1 hfirst, Option.mem_def.1 hlast] at hincomplete
    cases hincomplete

end Notice

/-! ## New dates -/

theorem Block.Dating.not_idle_blank (d : Dating) (id : Nat) : ¬d.Idle (blank id) := by
  intro h
  cases d <;> cases h

namespace Editor

variable {e after : Editor} {b : Block} {d : Block.Dating} {hints notices : List Notice}

/-- The block that new dates are for: the one being edited, or else a blank one. -/
def target (e : Editor) : Block := e.showingBlock?.getD e.course.newBlock.1

/-- What a request for new dates answers and leaves.  A single date that the block has already
is nothing new; otherwise the block being edited then has the dates, and after the hints come
the notices about it. -/
structure Settles (e : Editor) (d : Block.Dating) (hints notices : List Notice) (after : Editor) :
    Prop where
  idle : d.Idle e.target → notices = hints ∧ after = e
  changed : ¬d.Idle e.target → ∃ rest, notices = hints ++ rest ∧
    after.showingBlock? = some (d.dated e.target) ∧
    Notice.Exact e.preferences.earliest e.today (d.dated e.target) rest

end Editor

namespace Edit

variable {e after : Editor} {d : Block.Dating} {hints notices : List Notice}

theorem settles_of_run_settleDates {m : Editor}
    (h : (settleDates hints).run m = (.ok notices, after)) (hnew : ¬d.Idle e.target)
    (htoday : m.today = e.today) (hpreferences : m.preferences = e.preferences)
    (hshown : m.showingBlock? = some (d.dated e.target))
    (hordered : (d.dated e.target).Ordered) : e.Settles d hints notices after := by
  cases h
  refine ⟨fun hidle => absurd hidle hnew, fun _ => ⟨m.implausibilities, rfl, ?_, ?_⟩⟩
  · rw [Editor.showingBlock?_touch, Editor.showingBlock?_navigate, hshown]
  · rw [Editor.implausibilities_eq hshown, htoday, hpreferences]
    exact Notice.exact_about hordered

/-- A block is begun with its dates, under a number that is new to the course. -/
theorem settles_of_run_begin (he : e.Sound) (hshowing : e.showing = none)
    (h : (drawBlock >>= fun blank => beginBlock (d.apply blank) >>= fun _ =>
      settleDates hints).run e = (.ok notices, after)) : e.Settles d hints notices after := by
  have htarget : e.target = e.course.newBlock.1 := by
    rw [Editor.target, Editor.showingBlock?, hshowing]
    rfl
  have hsound := (Course.sound_of_reachable he.reachable).newBlock
  rw [run_bind_ok (run_drawBlock e), ← htarget] at h
  obtain ⟨id, m, hbegin, hsettle⟩ := run_bind_eq_ok h
  obtain ⟨b, hb, hbegin⟩ := exists_of_run_ask_bind hbegin
  obtain ⟨⟨number, added⟩, hadd, hm⟩ := exists_of_run_ask_bind hbegin
  obtain ⟨hordered, rfl⟩ := Block.dating_eq_ok_iff.1 hb
  cases hm
  have hobtained : (d.dated e.target).Obtained := by
    rw [htarget] at hb ⊢
    exact .redate (.new he.reachable) hb
  have hadds := (hsound.add_iff hobtained).2.1 _ hadd
  have hfresh : ∀ other ∈ e.course.blocks, other.id ≠ (d.dated e.target).id := by
    intro other hother
    have hle := he.valid.numbered other hother
    rw [Block.dated_id, htarget]
    show other.id ≠ e.course.lastId + 1
    omega
  have hid : id = (d.dated e.target).id :=
    hadds.number.trans (Course.numberFor_of_fresh (c := e.course.newBlock.2) hfresh)
  have hnew : ¬d.Idle e.target := by
    rw [htarget]
    exact Block.Dating.not_idle_blank d (e.course.lastId + 1)
  subst hid
  exact settles_of_run_settleDates hsettle hnew rfl rfl hadds.block hordered

/-- The block being edited is given its dates. -/
theorem settles_of_run_redate (he : e.Sound) {b : Block} (hb : e.showingBlock? = some b)
    (hnew : ¬d.Idle e.target)
    (h : (changeCourse (d.ofCourse · b.id) >>= fun _ => settleDates hints).run e =
      (.ok notices, after)) : e.Settles d hints notices after := by
  obtain ⟨hshowing, hmem⟩ := Editor.mem_of_showingBlock? hb
  have htarget : e.target = b := by
    rw [Editor.target, hb, Option.getD_some]
  have hsound := Course.sound_of_reachable he.reachable
  obtain ⟨_, m, hchange, hsettle⟩ := run_bind_eq_ok h
  obtain ⟨changed, hredate, hm⟩ := exists_of_run_ask_bind hchange
  cases hm
  obtain ⟨i, hi⟩ := List.getElem?_of_mem hmem
  obtain ⟨hdated, -⟩ := hsound.exists_redated hi hredate
  have hordered := (hsound.redate hredate).ordered _ (Course.mem_of_block? hdated)
  rw [← htarget] at hdated hordered
  refine settles_of_run_settleDates hsettle hnew rfl rfl ?_ hordered
  rw [Editor.showingBlock?, hshowing, ← htarget]
  exact hdated

theorem settles_of_run_giveDates (he : e.Sound) (hnew : ¬d.Idle e.target)
    (h : (giveDates d hints).run e = (.ok notices, after)) : e.Settles d hints notices after := by
  unfold giveDates at h
  rw [run_get_bind] at h
  cases hshowing : e.showing with
  | none =>
    rw [hshowing] at h
    exact settles_of_run_begin he hshowing h
  | some id =>
    rw [hshowing] at h
    obtain ⟨b, -, rfl, -, hb⟩ := he.exists_showing hshowing
    exact settles_of_run_redate he hb hnew h

theorem idle_target_iff {f : Block → Option Date} {date : Date}
    (hblank : f e.course.newBlock.1 = none) :
    e.showingBlock?.bind f = some date ↔ f e.target = some date := by
  unfold Editor.target
  cases e.showingBlock? with
  | none =>
    rw [Option.getD_none, hblank]
    exact Iff.rfl
  | some b => exact Iff.rfl

/-- One date, for the block being edited or else for a new one, which has no dates yet. -/
theorem settles_of_run_setDate (he : e.Sound) {field : DateField} {dateOf : Block → Option Date}
    {dating : Date → Block.Dating} {input : String} (hblank : dateOf e.course.newBlock.1 = none)
    (hidle : ∀ date b, dateOf b = some date ↔ (dating date).Idle b)
    (h : (setDate field dateOf dating input).run e = (.ok notices, after)) :
    ∃ typed, TypedDate.read e.today input = .ok typed ∧
      e.Settles (dating typed.date) (typed.hints.map (.ofHint field)) notices after := by
  obtain ⟨typed, hread, hrest⟩ := of_run_readDate_bind h
  refine ⟨typed, hread, ?_⟩
  have hknown : e.showingBlock?.bind dateOf = some typed.date ↔ (dating typed.date).Idle e.target :=
    (idle_target_iff hblank).trans (hidle _ _)
  rw [run_get_bind] at hrest
  by_cases hsame : (dating typed.date).Idle e.target
  · rw [if_pos (hknown.2 hsame)] at hrest
    cases hrest
    exact ⟨fun _ => ⟨rfl, rfl⟩, fun hnew => absurd hsame hnew⟩
  · rw [if_neg (mt hknown.1 hsame)] at hrest
    exact settles_of_run_giveDates he hsame hrest

theorem settles_of_run_setPeriod (he : e.Sound) {firstInput lastInput : String}
    (h : (setPeriod firstInput lastInput).run e = (.ok notices, after)) :
    ∃ first last, TypedDate.read e.today firstInput = .ok first ∧
      TypedDate.read e.today lastInput = .ok last ∧
      e.Settles (.period first.date last.date)
        (first.hints.map (.ofHint .firstAppearance) ++ last.hints.map (.ofHint .lastAppearance))
        notices after := by
  obtain ⟨first, hfirst, hrest⟩ := of_run_readDate_bind h
  obtain ⟨last, hlast, hrest⟩ := of_run_readDate_bind hrest
  exact ⟨first, last, hfirst, hlast, settles_of_run_giveDates he id hrest⟩

/-- A block that comes up is shown with the notices about it. -/
theorem exact_of_run_selectBlock (he : e.Sound) {b : Block} (hb : b ∈ e.course.blocks)
    (hother : e.showing ≠ some b.id) : ∃ notices after,
      (selectBlock b.id).run e = (.ok notices, after) ∧ after.showingBlock? = some b ∧
      Notice.Exact e.preferences.earliest e.today b notices := by
  obtain ⟨i, hi⟩ := List.getElem?_of_mem hb
  obtain ⟨after, hrun, hcourse, hshowing, htoday, hpreferences⟩ :=
    exists_run_selectBlock he.valid hi
  have hshown : after.showingBlock? = some b := by
    rw [Editor.showingBlock?, hshowing, hcourse]
    exact he.valid.block?_of_mem hb
  rw [if_neg hother, Editor.implausibilities_eq hshown, htoday, hpreferences] at hrun
  exact ⟨_, after, hrun, hshown, Notice.exact_about (he.valid.ordered b hb)⟩

end Edit

namespace Editor

variable {e : Editor}

/-- Whatever today and the earliest plausible date are, a block that comes up is shown with
exactly the notices about it.  A request for one date or both answers with the hints on how
they were read, in the order in which they were given, and then with exactly the notices about
the block that has the dates now, unless it had the one date before. -/
theorem notices_exact (he : e.Reachable) :
    (∀ b ∈ e.course.blocks, e.showing ≠ some b.id → ∃ notices after,
      (Edit.selectBlock b.id).run e = (.ok notices, after) ∧ after.showingBlock? = some b ∧
      Notice.Exact e.preferences.earliest e.today b notices) ∧
    (∀ input notices after, (Edit.setFirst input).run e = (.ok notices, after) →
      ∃ typed, TypedDate.read e.today input = .ok typed ∧
        e.Settles (.first typed.date) (typed.hints.map (.ofHint .firstAppearance)) notices
          after) ∧
    (∀ input notices after, (Edit.setLast input).run e = (.ok notices, after) →
      ∃ typed, TypedDate.read e.today input = .ok typed ∧
        e.Settles (.last typed.date) (typed.hints.map (.ofHint .lastAppearance)) notices
          after) ∧
    ∀ firstInput lastInput notices after,
      (Edit.setPeriod firstInput lastInput).run e = (.ok notices, after) →
      ∃ first last, TypedDate.read e.today firstInput = .ok first ∧
        TypedDate.read e.today lastInput = .ok last ∧
        e.Settles (.period first.date last.date)
          (first.hints.map (.ofHint .firstAppearance) ++
            last.hints.map (.ofHint .lastAppearance)) notices after := by
  have hsound := sound_of_reachable he
  refine ⟨fun b hb => Edit.exact_of_run_selectBlock hsound hb, ?_, ?_, ?_⟩
  · exact fun input notices after => Edit.settles_of_run_setDate hsound rfl fun _ _ => Iff.rfl
  · exact fun input notices after => Edit.settles_of_run_setDate hsound rfl fun _ _ => Iff.rfl
  · exact fun firstInput lastInput notices after => Edit.settles_of_run_setPeriod hsound

/-- A session with a block that begins on a leap day, and a block behind it. -/
def leapDay : Editor :=
  [.setPeriod "1.1.1750" "31.12.1750", .startNewBlock, .setPeriod "29.2.1600" "31.12.1650"].foldl
    perform (blank .standard ⟨2024, 6, 12, by decide⟩)

/-- A hundred years after 29 February 1600 is 28 February 1700. -/
theorem notices_exact_leapDay :
    leapDay.Reachable ∧
    ((Edit.setLast "28.2.1700").run leapDay).1.toOption = some [.firstEarly] ∧
    ((Edit.setLast "1.3.1700").run leapDay).1.toOption = some [.longBlock, .firstEarly] ∧
    Notice.ExactOn Preferences.firstNewspaper ⟨2024, 6, 12, by decide⟩
      ⟨1600, 2, 29, by decide⟩ ⟨1700, 3, 1, by decide⟩ [.longBlock, .firstEarly] := by
  have hreach : leapDay.Reachable := (Reachable.blank _ _).foldl _
  have hread : TypedDate.read leapDay.today "1.3.1700" = .ok ⟨⟨1700, 3, 1, by decide⟩, []⟩ := by
    decide +kernel
  have hdates : ((Block.Dating.last ⟨1700, 3, 1, by decide⟩).dated leapDay.target).first =
      some ⟨1600, 2, 29, by decide⟩ := by decide +kernel
  have hnotices : ((Edit.setLast "1.3.1700").run leapDay).1 = .ok [.longBlock, .firstEarly] := by
    decide +kernel
  have htoday : leapDay.today = ⟨2024, 6, 12, by decide⟩ := by decide +kernel
  have hearliest : leapDay.preferences.earliest = Preferences.firstNewspaper := by decide +kernel
  refine ⟨hreach, by decide +kernel, congrArg Except.toOption hnotices, ?_⟩
  obtain ⟨-, -, hlast, -⟩ := notices_exact hreach
  obtain ⟨typed, htyped, hsettles⟩ := hlast _ _ _ (Prod.ext hnotices rfl)
  cases hread.symm.trans htyped
  obtain ⟨rest, hrest, -, hexact⟩ := hsettles.changed (by decide +kernel)
  rw [show rest = [.longBlock, .firstEarly] from hrest.symm, hearliest, htoday] at hexact
  exact hexact.complete _ hdates _ rfl

end Editor
end PressCalendar
