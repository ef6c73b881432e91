/-
The days of a block, asked for one after the other.

Whoever asks holds on to the day that comes next and to the last one, and goes on only from a
day before the last, so the calendar is never asked for a day after its end.  `Yields` says
which days are taken until none is left.  The theorem this file exists for is
`yields_days_iff`: the asking comes to an end, with the dates of the block and nothing else,
and these are the closed range from its first date to its last.
-/
import PressCalendar.Proofs.Course.Appearances
import PressCalendar.Proofs.Course.Daily

namespace PressCalendar

/-! ## Runs of a known length -/

namespace Date

variable {first last : Date} {n : Nat}

/-- Before a later date the calendar goes on. -/
theorem exists_next?_of_lt {d later : Date} (h : d < later) :
    ∃ following, d.next? = some following := by
  cases hnext : d.next? with
  | none => exact absurd h (not_lt.2 (le_of_next?_eq_none hnext later))
  | some following => exact ⟨following, rfl⟩

theorem run_one (d : Date) : run 1 d = [d] := by
  rw [run_succ]
  cases d.next? <;> rfl

/-- A run that ends on a later date goes on with the day after its first. -/
theorem exists_run_eq_cons (h : last.number = first.number + (n + 1 : Nat)) :
    ∃ following, first.next? = some following ∧ last.number = following.number + n ∧
      run (n + 2) first = first :: run (n + 1) following := by
  have hlt : first < last := by
    rw [lt_iff_number]
    omega
  obtain ⟨following, hnext⟩ := exists_next?_of_lt hlt
  have hnumber := number_next hnext
  exact ⟨following, hnext, by omega, by rw [run_succ, hnext]⟩

theorem length_run (h : last.number = first.number + n) : (run (n + 1) first).length = n + 1 := by
  induction n generalizing first with
  | zero => rw [run_one, List.length_singleton]
  | succ n ih =>
    obtain ⟨following, -, hrest, hrun⟩ := exists_run_eq_cons h
    rw [hrun, List.length_cons, ih hrest]

/-- A range of days is a run of which the length is known. -/
theorem closedRange_eq_run (h : first ≤ last) :
    ∃ n : Nat, last.number = first.number + n ∧ closedRange first last = run (n + 1) first := by
  have hle := le_iff_number.1 h
  refine ⟨(last.number - first.number).toNat, by omega, ?_⟩
  rw [closedRange]
  congr 1
  omega

end Date

/-! ## Days that are left -/

/-- What is left of a range of days. -/
structure DaysLeft where
  next : Option Date
  last : Option Date

namespace DaysLeft

variable {s rest : DaysLeft} {first last date following : Date} {dates others : List Date}
  {n : Nat}

/-- The next day, and what is left after it. -/
def take? (s : DaysLeft) : Option (Date × DaysLeft) :=
  s.next.map fun date =>
    (date, { s with next := if s.last.any (date < ·) then date.next? else none })

/-- The days that are taken until none is left. -/
inductive Yields : DaysLeft → List Date → Prop
  | nil {s : DaysLeft} (h : s.take? = none) : Yields s []
  | cons {s rest : DaysLeft} {date : Date} {dates : List Date}
      (h : s.take? = some (date, rest)) (hrest : Yields rest dates) : Yields s (date :: dates)

theorem Yields.unique (h : s.Yields dates) (h' : s.Yields others) : others = dates := by
  induction h generalizing others with
  | nil hnone =>
    cases h' with
    | nil => rfl
    | cons hsome => exact absurd (hnone.symm.trans hsome) nofun
  | cons hsome _ ih =>
    cases h' with
    | nil hnone => exact absurd (hnone.symm.trans hsome) nofun
    | cons hsome' hrest' =>
      obtain ⟨rfl, rfl⟩ := Prod.mk.inj (Option.some.inj (hsome'.symm.trans hsome))
      rw [ih hrest']

theorem take?_of_lt (h : date < last) (hnext : date.next? = some following) :
    take? ⟨some date, some last⟩ = some (date, ⟨some following, some last⟩) := by
  simp only [take?, Option.map_some, Option.any_some, decide_eq_true h, if_true, hnext]

/-- There is no going on from the last day, whether or not the calendar ends there. -/
theorem take?_last (last : Date) :
    take? ⟨some last, some last⟩ = some (last, ⟨none, some last⟩) := by
  simp only [take?, Option.map_some, Option.any_some, decide_eq_false (Date.lt_irrefl last),
    Bool.false_eq_true, if_false]

theorem yields_run (h : last.number = first.number + n) :
    Yields ⟨some first, some last⟩ (Date.run (n + 1) first) := by
  -- each step moves the next day one nearer to the last, which stays
  induction n generalizing first with
  | zero =>
    obtain rfl : last = first := Date.number_injective (by omega)
    rw [Date.run_one]
    exact .cons (take?_last last) (.nil rfl)
  | succ n ih =>
    obtain ⟨following, hnext, hrest, hrun⟩ := Date.exists_run_eq_cons h
    have hlt : first < last := by
      rw [Date.lt_iff_number]
      omega
    rw [hrun]
    exact .cons (take?_of_lt hlt hnext) (ih hrest)

end DaysLeft

/-! ## The days of a block -/

namespace Block

variable {b : Block} {first last : Date}

/-- All days of a complete block are left at first, and none of any other block. -/
def days (b : Block) : DaysLeft := if b.isComplete then ⟨b.start?, b.stop?⟩ else ⟨none, none⟩

theorem yields_days (h : b.Ordered) : b.days.Yields b.dates := by
  cases hcomplete : b.isComplete with
  | false =>
    rw [dates_of_not_isComplete hcomplete, days, hcomplete]
    exact .nil rfl
  | true =>
    obtain ⟨hfirst, hlast⟩ := Bool.and_eq_true_iff.1 hcomplete
    obtain ⟨first, hfirst⟩ := Option.isSome_iff_exists.1 hfirst
    obtain ⟨last, hlast⟩ := Option.isSome_iff_exists.1 hlast
    have hspan : b.span? = some (first, last) := by simp only [span?, hfirst, hlast]
    obtain ⟨n, hnumber, hrun⟩ := Date.closedRange_eq_run (h first hfirst last hlast)
    have hdates : b.dates = Date.closedRange first last := by simp only [dates, hfirst, hlast]
    rw [days, hcomplete, if_pos rfl, start?_eq hspan, stop?_eq hspan, hdates, hrun]
    exact DaysLeft.yields_run hnumber

theorem length_dates (h : b.Ordered) (hfirst : b.first = some first) (hlast : b.last = some last) :
    (b.dates.length : Int) = last.number - first.number + 1 := by
  obtain ⟨n, hnumber, hrun⟩ := Date.closedRange_eq_run (h first hfirst last hlast)
  have hdates : b.dates = Date.closedRange first last := by simp only [dates, hfirst, hlast]
  rw [hdates, hrun, Date.length_run hnumber]
  omega

theorem mem_dates_iff_of_dates (hfirst : b.first = some first) (hlast : b.last = some last)
    (date : Date) : date ∈ b.dates ↔ first ≤ date ∧ date ≤ last := by
  rw [mem_dates_iff_between, hfirst, hlast]
  simp

/-- The days of a block can be taken to the end in one way, which gives its dates: for a
complete block every day from the first to the last once, in ascending order, as many as the
two lie apart and one more, and these are the days that it covers; for any other block none. -/
theorem yields_days_iff (h : b.Ordered) :
    (∀ dates, b.days.Yields dates ↔ dates = b.dates) ∧ b.dates.Pairwise (· < ·) ∧
    (∀ first ∈ b.first, ∀ last ∈ b.last,
      (∀ date, date ∈ b.dates ↔ first ≤ date ∧ date ≤ last) ∧
      (∀ date, first ≤ date → date ≤ last → b.dates.count date = 1) ∧
      (b.dates.length : Int) = last.number - first.number + 1) ∧
    (b.isComplete = true → ∀ date, date ∈ b.dates ↔ b.covers date = true) ∧
    (b.isComplete = false → b.dates = []) := by
  have hyields := yields_days h
  have hascending := b.pairwise_dates
  refine ⟨?_, hascending, ?_, ?_, dates_of_not_isComplete⟩
  · intro dates
    constructor
    · exact hyields.unique
    · rintro rfl
      exact hyields
  · intro first hfirst last hlast
    have hmem := mem_dates_iff_of_dates hfirst hlast
    refine ⟨hmem, ?_, length_dates h hfirst hlast⟩
    intro date hfrom hto
    exact List.count_eq_one_of_mem (Date.nodup_of_ascending hascending) ((hmem date).2 ⟨hfrom, hto⟩)
  · intro hcomplete date
    rw [mem_dates_iff]
    exact and_iff_right hcomplete

/-- A block of the last three days of the calendar. -/
def closing : Block :=
  ⟨1, some ⟨262142, 12, 29, by decide⟩, some Date.last, []⟩

theorem yields_days_iff_closing :
    closing.Ordered ∧ closing.days.Yields
        [⟨262142, 12, 29, by decide⟩, ⟨262142, 12, 30, by decide⟩, Date.last] ∧
      closing.dates.length = 3 ∧ closing.covers Date.last = true ∧ Date.last.next? = none ∧
      (closing.dates.count Date.last = 1) ∧
      ({ closing with last := none } : Block).days.Yields [] := by
  have hordered : closing.Ordered := by
    intro first hfirst last hlast
    cases hfirst
    cases hlast
    decide
  have hbegun : ({ closing with last := none } : Block).Ordered := by
    intro first _ last hlast
    cases hlast
  obtain ⟨hyields, -, hrange, hcovers, -⟩ := yields_days_iff hordered
  obtain ⟨hyields', -, -, -, hnone⟩ := yields_days_iff hbegun
  obtain ⟨hmem, hcount, hlength⟩ := hrange _ rfl _ rfl
  have hlast : Date.last ∈ closing.dates := (hmem Date.last).2 (by decide +kernel)
  refine ⟨hordered, (hyields _).2 (by decide +kernel), ?_, (hcovers rfl _).1 hlast,
    by decide +kernel, hcount Date.last (by decide +kernel) (by decide +kernel),
    (hyields' _).2 (hnone rfl).symm⟩
  have hnumbers : Date.last.number - (⟨262142, 12, 29, by decide⟩ : Date).number + 1 = 3 := by
    decide +kernel
  omega

end Block
end PressCalendar
