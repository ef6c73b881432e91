/-
An issue as its history has made it.

An issue begins without any day.  Each revision after that says something about one weekday,
about one date or about the heading, and what counts in the end is the last word on each of
them.  `made_iff_last` is that principle for any property that one revision establishes and that
only some revisions decide; additions, exclusions and weekdays are three cases of it, which
differ in the revisions that have a say.  The statement this file exists for is
`Issue.last_word`.
-/
import PressCalendar.Proofs.Course.Marking

namespace PressCalendar

namespace Issue

/-! ## Who has a say -/

namespace Revision

/-- Whether a revision decides that a date is an addition, or that it is none. -/
def decidesAddition (date : Date) : Revision → Bool
  | addAddition d => d = date
  | removeAddition d => d = date
  | addExclusion d => d = date
  | _ => false

/-- Whether a revision decides that a date is an exclusion, or that it is none. -/
def decidesExclusion (date : Date) : Revision → Bool
  | addExclusion d => d = date
  | removeExclusion d => d = date
  | addAddition d => d = date
  | _ => false

/-- Whether a revision decides that a weekday is regular, or that it is not. -/
def decidesDay (day : Weekday) : Revision → Bool
  | setRegular d _ => d = day
  | _ => false

/-- Whether a revision is about a date. -/
def isAbout (date : Date) : Revision → Bool
  | addAddition d => d = date
  | removeAddition d => d = date
  | addExclusion d => d = date
  | removeExclusion d => d = date
  | _ => false

variable {date : Date}

theorem isAbout_of_decidesAddition {r : Revision} (h : r.decidesAddition date = true) :
    r.isAbout date = true := by
  cases r with
  | addAddition d => exact h
  | removeAddition d => exact h
  | addExclusion d => exact h
  | _ => cases h

theorem isAbout_of_decidesExclusion {r : Revision} (h : r.decidesExclusion date = true) :
    r.isAbout date = true := by
  cases r with
  | addExclusion d => exact h
  | removeExclusion d => exact h
  | addAddition d => exact h
  | _ => cases h

/-- Only what is said about the date is looked at. -/
theorem filter_isAbout {decides : Revision → Bool}
    (h : ∀ r, decides r = true → r.isAbout date = true) (history : List Revision) :
    (history.filter (·.isAbout date)).filter decides = history.filter decides := by
  rw [List.filter_filter]
  refine List.filter_congr fun r _ => ?_
  cases hr : decides r with
  | true => rw [h r hr, Bool.and_true]
  | false => rw [Bool.false_and]

end Revision

/-! ## One revision -/

variable {date : Date} {day : Weekday} {issue : Issue}

theorem mem_additions_apply (r : Revision) : date ∈ (r.apply issue).additions ↔
    r = .addAddition date ∨ (r.decidesAddition date = false ∧ date ∈ issue.additions) := by
  cases r with
  | rename heading => simp [Revision.apply, Revision.decidesAddition, rename]
  | setRegular d appears => simp [Revision.apply, Revision.decidesAddition, setRegular]
  | addAddition d =>
    simp only [Revision.apply, addAddition, Revision.decidesAddition, DateSet.mem_insert]
    grind
  | removeAddition d =>
    simp only [Revision.apply, removeAddition, Revision.decidesAddition, DateSet.mem_erase]
    grind
  | addExclusion d =>
    simp only [Revision.apply, addExclusion, Revision.decidesAddition, DateSet.mem_erase]
    grind
  | removeExclusion d => simp [Revision.apply, Revision.decidesAddition, removeExclusion]

theorem mem_exclusions_apply (r : Revision) : date ∈ (r.apply issue).exclusions ↔
    r = .addExclusion date ∨ (r.decidesExclusion date = false ∧ date ∈ issue.exclusions) := by
  cases r with
  | rename heading => simp [Revision.apply, Revision.decidesExclusion, rename]
  | setRegular d appears => simp [Revision.apply, Revision.decidesExclusion, setRegular]
  | addAddition d =>
    simp only [Revision.apply, addAddition, Revision.decidesExclusion, DateSet.mem_erase]
    grind
  | removeAddition d => simp [Revision.apply, Revision.decidesExclusion, removeAddition]
  | addExclusion d =>
    simp only [Revision.apply, addExclusion, Revision.decidesExclusion, DateSet.mem_insert]
    grind
  | removeExclusion d =>
    simp only [Revision.apply, removeExclusion, Revision.decidesExclusion, DateSet.mem_erase]
    grind

theorem isRegularOn_apply (r : Revision) : (r.apply issue).isRegularOn day = true ↔
    r = .setRegular day true ∨ (r.decidesDay day = false ∧ issue.isRegularOn day = true) := by
  cases r with
  | setRegular d appears =>
    simp only [Revision.apply, setRegular, Revision.decidesDay, isRegularOn, WeekPattern.has_set]
    grind
  | _ => simp [Revision.apply, Revision.decidesDay, isRegularOn, rename, addAddition,
      removeAddition, addExclusion, removeExclusion]

/-! ## A whole history -/

variable (heading : String) (history : List Revision)

/-- A property that does not hold at first, that one revision establishes, and that only some
revisions decide, holds in the end if that one was the last of those that decide. -/
theorem made_iff_last {P : Issue → Prop} {decides : Revision → Bool} {x : Revision}
    (hx : decides x = true)
    (hstep : ∀ issue r, P (Revision.apply r issue) ↔ r = x ∨ (decides r = false ∧ P issue))
    (hfirst : ¬P (irregular heading)) :
    P (made heading history) ↔ (history.filter decides).getLast? = some x := by
  induction history using List.reverseRecOn with
  | nil =>
    show P (irregular heading) ↔ _
    simp [hfirst]
  | append_singleton history r ih =>
    have hlast : made heading (history ++ [r]) = r.apply (made heading history) := by
      simp only [made, List.foldl_append, List.foldl_cons, List.foldl_nil]
    rw [hlast, hstep, List.filter_append]
    cases hr : decides r with
    | true =>
      rw [List.filter_cons_of_pos hr, List.filter_nil, List.getLast?_concat, Option.some.injEq]
      simp
    | false =>
      have hne : r ≠ x := by
        intro heq
        rw [heq, hx] at hr
        cases hr
      have hnone : [r].filter decides = [] := List.filter_cons_of_neg (by simp [hr])
      rw [hnone, List.append_nil, ← ih]
      simp [hne]

theorem mem_additions_made : date ∈ (made heading history).additions ↔
    (history.filter (·.decidesAddition date)).getLast? = some (.addAddition date) :=
  made_iff_last heading history (P := fun issue => date ∈ issue.additions) (decide_eq_true rfl)
    (fun _ r => mem_additions_apply r) (DateSet.not_mem_empty date)

theorem mem_exclusions_made : date ∈ (made heading history).exclusions ↔
    (history.filter (·.decidesExclusion date)).getLast? = some (.addExclusion date) :=
  made_iff_last heading history (P := fun issue => date ∈ issue.exclusions) (decide_eq_true rfl)
    (fun _ r => mem_exclusions_apply r) (DateSet.not_mem_empty date)

theorem isRegularOn_made : (made heading history).isRegularOn day = true ↔
    (history.filter (·.decidesDay day)).getLast? = some (.setRegular day true) :=
  made_iff_last heading history (P := fun issue => issue.isRegularOn day = true)
    (decide_eq_true rfl) (fun _ r => isRegularOn_apply r) (by simp [irregular, isRegularOn])

/-- An issue is what was said last.  A date is an addition if, of all that was said about it
but for the withdrawal of an exclusion, the last was that it is one; and an exclusion if, but
for the withdrawal of an addition, the last was that it is one; so it is never both.  A weekday
is regular if that was said last about it.  With these the issue appeared on additions, and on
regular weekdays that are no exclusions.  Nothing that was said about the heading, the weekdays
or other dates makes a date an exception or keeps it from being one. -/
theorem last_word :
    (∀ date,
      (date ∈ (made heading history).additions ↔
        (history.filter (·.decidesAddition date)).getLast? = some (.addAddition date)) ∧
      (date ∈ (made heading history).exclusions ↔
        (history.filter (·.decidesExclusion date)).getLast? = some (.addExclusion date)) ∧
      ¬(date ∈ (made heading history).additions ∧ date ∈ (made heading history).exclusions) ∧
      ((made heading history).appearsOn date = true ↔ date ∈ (made heading history).additions ∨
        (made heading history).isRegularOn date.weekday = true ∧
          date ∉ (made heading history).exclusions) ∧
      ∀ other : String,
        (date ∈ (made other (history.filter (·.isAbout date))).additions ↔
          date ∈ (made heading history).additions) ∧
        (date ∈ (made other (history.filter (·.isAbout date))).exclusions ↔
          date ∈ (made heading history).exclusions)) ∧
    ∀ day, (made heading history).isRegularOn day = true ↔
      (history.filter (·.decidesDay day)).getLast? = some (.setRegular day true) := by
  constructor
  · intro date
    refine ⟨mem_additions_made heading history, mem_exclusions_made heading history, ?_, ?_, ?_⟩
    · intro hboth
      exact consistent_made heading history date hboth.1 hboth.2
    · rw [appearsOn_iff, or_comm]
    · intro other
      constructor
      · rw [mem_additions_made, mem_additions_made,
          Revision.filter_isAbout (fun _ => Revision.isAbout_of_decidesAddition)]
      · rw [mem_exclusions_made, mem_exclusions_made,
          Revision.filter_isAbout (fun _ => Revision.isAbout_of_decidesExclusion)]
  · intro day
    exact isRegularOn_made heading history

/-- A date that was excluded after it had been added is no exception any more when the exclusion
is withdrawn. -/
example (date : Date) :
    (made "Morning" [.addAddition date, .addExclusion date, .removeExclusion date]).additions =
      .empty := by
  refine DateSet.ext_mem fun other => ?_
  simp [made, Revision.apply, addAddition, addExclusion, removeExclusion, irregular]

end Issue
end PressCalendar
