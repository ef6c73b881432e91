/-
Notices about dates.

`Notice.Says` is what each of them claims of a first and a last date, in words of the
calendar.  An editor gives out those that hold of the block being edited, which is
`implausibilities_eq`, both when another block comes up and when dates have changed.  The
second is followed here: `redated_of_run_giveDates` says what a change of dates leaves of the
course and which notices come with it.
-/
import PressCalendar.Proofs.Editor.Editing

namespace PressCalendar

/-! ## Anniversaries -/

namespace Date

/-- A date comes after an anniversary of another one exactly if it comes after the same day
of the same month, even where that is no date: there is none after it either. -/
theorem any_addYears?_iff (first last : Date) (years : Nat) :
    (first.addYears? years).any (· < last) = true ↔ first.year + years < last.year ∨
      (first.year + years = last.year ∧
        (first.month < last.month ∨ (first.month = last.month ∧ first.day < last.day))) := by
  have hfirst := first.isDate
  have hlast := last.isDate
  have hday := first.day_pos
  have hlength := le_monthLength (first.year + years) first.month_pos first.month_le
  unfold IsDate at hfirst hlast
  unfold addYears?
  cases h : of? (first.year + years) first.month
      (min first.day (monthLength (first.year + years) first.month)) with
  | none =>
    -- only the year can be at fault, and then the calendar ends before it
    rw [of?_eq_none_iff, IsDate] at h
    simp only [Option.any_none, Bool.false_eq_true, false_iff]
    omega
  | some limit =>
    obtain ⟨hyear, hmonth, hmin⟩ := of?_eq_some_iff.1 h
    simp only [Option.any_some, decide_eq_true_eq]
    rw [lt_iff, hyear, hmonth, hmin]
    by_cases hsame : first.year + years = last.year ∧ first.month = last.month
    · have hbound := last.day_le_monthLength
      rw [← hsame.1, ← hsame.2] at hbound
      omega
    · omega

end Date

/-! ## What the notices say -/

namespace Notice

/-- The notices about dates, in the order in which they are given. -/
def onDates : List Notice := [longBlock, firstEarly, firstFuture, lastEarly, lastFuture]

/-- What a notice says of the dates of a block.  It spans more than some years if it goes on
after the day of the year on which it began has come round for the last of them. -/
def Says (earliest today first last : Date) : Notice → Prop
  | longBlock => first.year + longBlockYears < last.year ∨
      (first.year + longBlockYears = last.year ∧
        (first.month < last.month ∨ (first.month = last.month ∧ first.day < last.day)))
  | firstEarly => first < earliest
  | firstFuture => today < first
  | lastEarly => last < earliest
  | lastFuture => today < last
  | yearCompleted _ _ _ => False
  | dayMonthSwapped _ => False

instance (earliest today first last : Date) :
    (n : Notice) → Decidable (n.Says earliest today first last)
  | longBlock => inferInstanceAs (Decidable (_ ∨ _))
  | firstEarly => inferInstanceAs (Decidable (_ < _))
  | firstFuture => inferInstanceAs (Decidable (_ < _))
  | lastEarly => inferInstanceAs (Decidable (_ < _))
  | lastFuture => inferInstanceAs (Decidable (_ < _))
  | yearCompleted _ _ _ => inferInstanceAs (Decidable False)
  | dayMonthSwapped _ => inferInstanceAs (Decidable False)

variable {earliest today : Date} {b b' : Block} {n : Notice} {notices hints : List Notice}

/-- A block has both dates, and a notice is right about them. -/
def Holds (earliest today : Date) (b : Block) (n : Notice) : Prop :=
  ∃ first ∈ b.first, ∃ last ∈ b.last, n.Says earliest today first last

instance (earliest today : Date) (b : Block) (n : Notice) : Decidable (n.Holds earliest today b) :=
  inferInstanceAs (Decidable (∃ first ∈ b.first, ∃ last ∈ b.last, _))

/-- The notices that hold of a block. -/
def about (earliest today : Date) (b : Block) : List Notice :=
  onDates.filter (Holds earliest today b ·)

theorem mem_about : n ∈ about earliest today b ↔ n ∈ onDates ∧ n.Holds earliest today b := by
  rw [about, List.mem_filter, decide_eq_true_eq]

/-- The notices about a block hold of it, each of them once. -/
theorem holds_of_about (earliest today : Date) (b : Block) :
    (∀ n ∈ about earliest today b, n.Holds earliest today b) ∧ (about earliest today b).Nodup :=
  ⟨fun _ hn => (mem_about.1 hn).2, List.filter_sublist.nodup (by decide)⟩

/-- Next to the notices about one block, those about another one are false of it or are said
again. -/
theorem holds_of_about_append_iff :
    ((∀ n ∈ about earliest today b ++ about earliest today b', n.Holds earliest today b') ∧
        (about earliest today b ++ about earliest today b').Nodup) ↔
      about earliest today b = [] := by
  constructor
  · intro ⟨htrue, honce⟩
    rw [List.eq_nil_iff_forall_not_mem]
    intro n hn
    have hother : n ∈ about earliest today b' :=
      mem_about.2 ⟨(mem_about.1 hn).1, htrue n (List.mem_append_left _ hn)⟩
    exact List.disjoint_of_nodup_append honce hn hother
  · intro hnone
    rw [hnone, List.nil_append]
    exact holds_of_about earliest today b'

theorem filter_about (earliest today : Date) (b : Block) :
    (about earliest today b).filter (· ∈ onDates) = about earliest today b := by
  rw [List.filter_eq_self]
  intro n hn
  exact decide_eq_true (mem_about.1 hn).1

theorem filter_hints (h : ∀ n ∈ hints, n ∉ onDates) : hints.filter (· ∈ onDates) = [] := by
  rw [List.filter_eq_nil_iff]
  intro n hn hmem
  exact h n hn (of_decide_eq_true hmem)

theorem ofHint_not_mem_onDates (field : DateField) (hint : DateHint) :
    ofHint field hint ∉ onDates := by
  cases hint <;> simp [ofHint, onDates]

/-! ## Notices that may be relied on -/

/-- What some notices say about dates is true of a block, and none of it is said twice. -/
def Faithful (earliest today : Date) (b : Block) (notices : List Notice) : Prop :=
  (∀ n ∈ notices, n ∈ onDates → n.Holds earliest today b) ∧
    (notices.filter (· ∈ onDates)).Nodup

theorem faithful_iff : Faithful earliest today b notices ↔
    (∀ n ∈ notices.filter (· ∈ onDates), n.Holds earliest today b) ∧
      (notices.filter (· ∈ onDates)).Nodup := by
  simp only [Faithful, List.mem_filter, decide_eq_true_eq, and_imp]

end Notice

/-! ## What an editor gives out -/

theorem filter_cons_eq_append {α : Type} (p : α → Bool) (x : α) (xs : List α) :
    (x :: xs).filter p = (if p x then [x] else []) ++ xs.filter p := by
  rw [List.filter_cons]
  split <;> rfl

namespace Editor

variable {e a : Editor} {i : Nat} {b : Block}

theorem implausibilities_eq (hb : e.showingBlock? = some b) :
    e.implausibilities = Notice.about e.preferences.earliest e.today b := by
  obtain ⟨id, first?, last?, issues⟩ := b
  unfold implausibilities
  rw [hb]
  cases first? with
  | none => simp [Notice.about, Notice.Holds]
  | some first =>
    cases last? with
    | none => simp [Notice.about, Notice.Holds]
    | some last =>
      have hlong := Date.any_addYears?_iff first last Notice.longBlockYears
      simp only [Notice.about, Notice.onDates, filter_cons_eq_append, List.filter_nil,
        Notice.Holds, Option.mem_some_iff, exists_eq_left', Notice.Says, decide_eq_true_eq,
        List.append_nil, List.append_assoc, ← hlong]

theorem Editing.implausibilities (h : e.Editing i b b.issues a) (he : e.course.Valid) :
    a.implausibilities = Notice.about e.preferences.earliest e.today b := by
  have hshown := showingBlock?_eq (h.valid he) h.getElem? h.showing
  rw [implausibilities_eq hshown, h.preferences, h.today]

end Editor

/-! ## New dates -/

namespace Block.Dating

/-- A single date, and the block has it already. -/
def Idle : Dating → Block → Prop
  | first date, b => b.first = some date
  | last date, b => b.last = some date
  | period _ _, _ => False

instance (b : Block) : (d : Dating) → Decidable (d.Idle b)
  | first date => inferInstanceAs (Decidable (b.first = some date))
  | last date => inferInstanceAs (Decidable (b.last = some date))
  | period _ _ => inferInstanceAs (Decidable False)

theorem Idle.dated_eq {d : Dating} {b : Block} (h : d.Idle b) : d.dated b = b := by
  cases d with
  | first date => rw [dated, ← show b.first = some date from h]
  | last date => rw [dated, ← show b.last = some date from h]
  | period first last => exact False.elim h

end Block.Dating

/-- Notices about a block as it was are out of place when its dates change, unless there are
none or nothing was to be done; and the first block comes without them. -/
theorem Notice.faithful_dated_iff {earliest today : Date} {b : Block} {d : Block.Dating}
    {hints : List Notice} (hhints : ∀ n ∈ hints, n ∉ onDates) (isFirst : Prop)
    [Decidable isFirst] :
    Faithful earliest today (d.dated b) ((if isFirst then [] else about earliest today b) ++
        (hints ++ (if d.Idle b then [] else about earliest today (d.dated b)))) ↔
      isFirst ∨ about earliest today b = [] ∨ d.Idle b := by
  rw [faithful_iff, List.filter_append, List.filter_append, filter_hints hhints, List.nil_append]
  by_cases hfirst : isFirst
  · rw [if_pos hfirst, List.filter_nil, List.nil_append]
    refine iff_of_true ?_ (.inl hfirst)
    by_cases hidle : d.Idle b
    · simp [if_pos hidle]
    · rw [if_neg hidle, filter_about]
      exact holds_of_about earliest today (d.dated b)
  · rw [if_neg hfirst, filter_about, or_iff_right hfirst]
    by_cases hidle : d.Idle b
    · rw [if_pos hidle, List.filter_nil, List.append_nil, hidle.dated_eq]
      exact iff_of_true (holds_of_about earliest today b) (.inr hidle)
    · rw [if_neg hidle, filter_about, or_iff_left hidle]
      exact holds_of_about_append_iff

namespace Course

variable {c changed : Course} {i : Nat} {b : Block} {d : Block.Dating}

/-- Wherever the block goes with its new dates, the others stay in their order. -/
theorem Sound.exists_redated (h : c.Sound) (hb : c.blocks[i]? = some b)
    (hredate : d.ofCourse c b.id = .ok changed) :
    changed.block? b.id = some (d.dated b) ∧ ∃ front back,
      c.blocks.eraseIdx i = front ++ back ∧ changed.blocks = front ++ d.dated b :: back := by
  have hredates := (h.redate_iff b.id d).2.1 changed hredate
  obtain ⟨x, hx, hdated, hid, -⟩ := hredates.block
  cases (h.toValid.block?_eq hb).symm.trans hx
  obtain ⟨front, back, hblocks⟩ := List.append_of_mem (mem_of_block? hdated)
  have hothers := (h.redate hredate).toValid.others_eq hblocks
  rw [hid, hredates.others, h.toValid.others_eq_eraseIdx hb] at hothers
  exact ⟨hdated, front, back, hothers, hblocks⟩

end Course

/-- The block at a place has become another one, which is being edited and may have moved.
The other blocks are what they were, and in the same order. -/
structure Editor.Redated (e : Editor) (i : Nat) (x : Block) (after : Editor) : Prop where
  shown : after.showingBlock? = some x
  blocks : ∃ front back, e.course.blocks.eraseIdx i = front ++ back ∧
    after.course.blocks = front ++ x :: back

namespace Edit

variable {α : Type} {a after : Editor} {i : Nat} {b : Block} {d : Block.Dating}
  {hints notices : List Notice}

theorem of_run_readDate_bind {input : String} {field : DateField}
    {k : Date × List Notice → Edit α} {answer : α}
    (h : (readDate input field >>= k).run a = (.ok answer, after)) :
    ∃ typed, TypedDate.read a.today input = .ok typed ∧
      (k (typed.date, typed.hints.map (.ofHint field))).run a = (.ok answer, after) := by
  obtain ⟨read, m, hread, hrest⟩ := run_bind_eq_ok h
  rw [run_readDate] at hread
  cases htyped : TypedDate.read a.today input with
  | error cause =>
    rw [htyped] at hread
    cases hread
  | ok typed =>
    rw [htyped] at hread
    cases hread
    exact ⟨typed, rfl, hrest⟩

/-- New dates are settled with the notices about what the block has become. -/
theorem redated_of_run_giveDates (ha : a.course.Sound) (hb : a.course.blocks[i]? = some b)
    (hshowing : a.showing = some b.id) (h : (giveDates d hints).run a = (.ok notices, after)) :
    notices = hints ++ Notice.about a.preferences.earliest a.today (d.dated b) ∧
      a.Redated i (d.dated b) after := by
  unfold giveDates at h
  rw [run_get_bind, hshowing] at h
  obtain ⟨_, m, hchange, hsettle⟩ := run_bind_eq_ok h
  obtain ⟨changed, hredate, hm⟩ := exists_of_run_ask_bind hchange
  cases hm
  obtain ⟨hdated, hblocks⟩ := ha.exists_redated hb hredate
  have hshown : Editor.showingBlock? { a with course := changed } = some (d.dated b) := by
    rw [Editor.showingBlock?, hshowing]
    exact hdated
  cases hsettle
  rw [Editor.implausibilities_eq hshown]
  refine ⟨rfl, ?_, ?_⟩
  · rw [Editor.showingBlock?_touch, Editor.showingBlock?_navigate, hshown]
  · rw [Editor.course_touch, Editor.course_navigate]
    exact hblocks

/-- One date for the block being edited, unless it has it already. -/
theorem redated_of_run_setDate (ha : a.course.Sound) (hb : a.course.blocks[i]? = some b)
    (hshowing : a.showing = some b.id) {field : DateField} {dateOf : Block → Option Date}
    {input : String} (dating : Date → Block.Dating)
    (hidle : ∀ date, dateOf b = some date ↔ (dating date).Idle b)
    (h : (setDate field dateOf dating input).run a = (.ok notices, after)) :
    ∃ typed, TypedDate.read a.today input = .ok typed ∧
      notices = typed.hints.map (.ofHint field) ++ (if (dating typed.date).Idle b then [] else
        Notice.about a.preferences.earliest a.today ((dating typed.date).dated b)) ∧
      a.Redated i ((dating typed.date).dated b) after := by
  obtain ⟨typed, hread, hrest⟩ := of_run_readDate_bind h
  refine ⟨typed, hread, ?_⟩
  have hshown := Editor.showingBlock?_eq ha.toValid hb hshowing
  rw [run_get_bind, hshown, Option.bind_some] at hrest
  by_cases hknown : (dating typed.date).Idle b
  · rw [if_pos ((hidle typed.date).2 hknown)] at hrest
    cases hrest
    rw [if_pos hknown, List.append_nil, hknown.dated_eq]
    exact ⟨rfl, hshown, exists_split_eraseIdx hb⟩
  · rw [if_neg (mt (hidle typed.date).1 hknown)] at hrest
    rw [if_neg hknown]
    exact redated_of_run_giveDates ha hb hshowing hrest

end Edit
end PressCalendar
