/-
The command that changes the dates of a block.

It selects the block and gives it one date or both.  `Dates` says which dates those are and
with which hints they are read, and `redates_of_perform` what the command does if it succeeds:
the block has the new dates, and the notices are those about the block as it was found, the
hints, and those about the block as it has become.
-/
import PressCalendar.Proofs.Command.Change
import PressCalendar.Proofs.Editor.Notices

namespace PressCalendar
namespace Change

/-- What a command makes of the dates of a block, as they are read on a day, and the hints
on how they were understood. -/
inductive Dates (today : Date) : Option String → Option String → Block.Dating → List Notice → Prop
  | first {input : String} {typed : TypedDate} (h : TypedDate.read today input = .ok typed) :
    Dates today (some input) none (.first typed.date)
      (typed.hints.map (.ofHint .firstAppearance))
  | last {input : String} {typed : TypedDate} (h : TypedDate.read today input = .ok typed) :
    Dates today none (some input) (.last typed.date)
      (typed.hints.map (.ofHint .lastAppearance))
  | period {firstInput lastInput : String} {first last : TypedDate}
    (hfirst : TypedDate.read today firstInput = .ok first)
    (hlast : TypedDate.read today lastInput = .ok last) :
    Dates today (some firstInput) (some lastInput) (.period first.date last.date)
      (first.hints.map (.ofHint .firstAppearance) ++ last.hints.map (.ofHint .lastAppearance))

variable {today : Date} {first? last? : Option String} {d : Block.Dating} {hints : List Notice}

theorem Dates.hints_not_mem (h : Dates today first? last? d hints) :
    ∀ n ∈ hints, n ∉ Notice.onDates := by
  intro n hn
  cases h with
  | first _ | last _ =>
    obtain ⟨hint, -, rfl⟩ := List.mem_map.1 hn
    exact Notice.ofHint_not_mem_onDates _ hint
  | period _ _ =>
    rcases List.mem_append.1 hn with hn | hn
    all_goals
      obtain ⟨hint, -, rfl⟩ := List.mem_map.1 hn
      exact Notice.ofHint_not_mem_onDates _ hint

/-- The request for the dates. -/
def redating (first? last? : Option String) : Edit (List Notice) :=
  match first?, last? with
  | some first, some last => Edit.setPeriod first last
  | some first, none => Edit.setFirst first
  | none, some last => Edit.setLast last
  | none, none => throw (.invalidRange "give --first, --last or both")

theorem perform_setBlock (number : Nat) (first? last? : Option String) :
    perform (.setBlock number first? last?) = do
      let selected ← Edit.selectNumber number
      let changed ← redating first? last?
      return ⟨selected ++ changed, .blockSet number (← get).showingLabel⟩ := by
  cases first? <;> cases last? <;> rfl

variable {e a after : Editor} {i : Nat} {b : Block} {notices : List Notice}

/-- The dates of the block being edited are changed as they were typed. -/
theorem redated_of_run_redating (ha : a.course.Sound) (hb : a.course.blocks[i]? = some b)
    (hshowing : a.showing = some b.id)
    (h : (redating first? last?).run a = (.ok notices, after)) :
    ∃ d hints, Dates a.today first? last? d hints ∧
      notices = hints ++ (if d.Idle b then [] else
        Notice.about a.preferences.earliest a.today (d.dated b)) ∧
      a.Redated i (d.dated b) after := by
  cases first? with
  | none =>
    cases last? with
    | none => cases h
    | some last =>
      obtain ⟨typed, hread, hredated⟩ := Edit.redated_of_run_setDate ha hb hshowing .last
        (fun _ => Iff.rfl) h
      exact ⟨_, _, .last hread, hredated⟩
  | some first =>
    cases last? with
    | none =>
      obtain ⟨typed, hread, hredated⟩ := Edit.redated_of_run_setDate ha hb hshowing .first
        (fun _ => Iff.rfl) h
      exact ⟨_, _, .first hread, hredated⟩
    | some last =>
      obtain ⟨typed, hread, hrest⟩ := Edit.of_run_readDate_bind h
      obtain ⟨typed', hread', hrest⟩ := Edit.of_run_readDate_bind hrest
      exact ⟨_, _, .period hread hread', Edit.redated_of_run_giveDates ha hb hshowing hrest⟩

/-- A command that changes dates, if it succeeds, says what was to be noticed about the block
as it was found, unless that was shown already; then how the dates were understood; and then
what is to be noticed about the block as it has become, unless nothing was to be done. -/
theorem redates_of_perform (he : e.course.Sound) {number : Nat} {u : Outcome}
    (h : (perform (.setBlock number first? last?)).run e = (.ok u, after)) :
    ∃ i b d hints, number = i + 1 ∧ e.course.blocks[i]? = some b ∧
      Dates e.today first? last? d hints ∧
      u.notices = (if e.showing = some b.id then [] else
          Notice.about e.preferences.earliest e.today b) ++ (hints ++
        (if d.Idle b then [] else Notice.about e.preferences.earliest e.today (d.dated b))) ∧
      u.deed = .blockSet number (d.dated b).label ∧ e.Redated i (d.dated b) after := by
  have hnumber : ¬(number = 0 ∨ e.course.blocks.length < number) := by
    intro hnone
    rw [perform_setBlock, run_bind_error (Edit.run_selectNumber_of_none hnone)] at h
    cases h
  obtain ⟨i, b, rfl, hb⟩ := Edit.exists_place_of_number hnumber
  obtain ⟨a, hselect, hcourse, ha⟩ := Edit.exists_run_selectNumber he.toValid hb
  rw [perform_setBlock, run_bind_ok hselect, ha.implausibilities he.toValid] at h
  obtain ⟨notices, m, hrun, hreport⟩ := run_bind_eq_ok h
  obtain ⟨d, hints, hdates, hnotices, hredated⟩ := redated_of_run_redating (hcourse ▸ he)
    (by rwa [hcourse]) ha.showing hrun
  rw [ha.today] at hdates hnotices
  rw [ha.preferences] at hnotices
  cases hreport
  refine ⟨i, b, d, hints, rfl, hb, hdates, congrArg _ hnotices, ?_, hredated.shown, ?_⟩
  · rw [Editor.showingLabel, hredated.shown]
    rfl
  · rw [← hcourse]
    exact hredated.blocks

end Change
end PressCalendar
