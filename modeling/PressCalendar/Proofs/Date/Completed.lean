/-
The year of a typed date.

A year that is typed short stands for the latest year that ends with the same two digits and
has begun, `EndsLatest`, and there is one such year whatever today is.  It is settled before
the date is looked at, so that the hint, the date and a date with day and month the other way
round all have the same year.  Any other year is the one that was typed, and then the date
does not depend on today.
-/
import PressCalendar.Proofs.Date.Typed

namespace PressCalendar
namespace TypedDate

/-- The year has the two last digits and is one of the hundred years up to the current
one. -/
def EndsLatest (currentYear : Int) (short : Nat) (year : Int) : Prop :=
  year % 100 = short ∧ currentYear - 100 < year ∧ year ≤ currentYear

instance (currentYear : Int) (short : Nat) (year : Int) :
    Decidable (EndsLatest currentYear short year) :=
  inferInstanceAs (Decidable (_ ∧ _ ∧ _))

/-- Two years that end alike are a hundred years apart at least. -/
theorem EndsLatest.unique {currentYear year year' : Int} {short : Nat}
    (h : EndsLatest currentYear short year) (h' : EndsLatest currentYear short year') :
    year = year' := by
  obtain ⟨hend, hlow, hhigh⟩ := h
  obtain ⟨hend', hlow', hhigh'⟩ := h'
  omega

theorem endsLatest_completeYear {currentYear : Int} (hpos : 0 ≤ currentYear) {short : Nat}
    (hshort : short < 100) : EndsLatest currentYear short (completeYear currentYear short) := by
  obtain ⟨hend, hle, hlt⟩ := completeYear_latest hpos hshort
  exact ⟨hend, by omega, hle⟩

theorem endsLatest_iff {currentYear : Int} (hpos : 0 ≤ currentYear) {short : Nat}
    (hshort : short < 100) {year : Int} :
    EndsLatest currentYear short year ↔ year = completeYear currentYear short := by
  have hcompleted := endsLatest_completeYear hpos hshort
  constructor
  · exact fun h => h.unique hcompleted
  · rintro rfl
    exact hcompleted

variable {today later : Date} {input : String} {typed : TypedDate} {run : List Char}
  {day month year : Nat}

theorem fullYear_of_short (hshort : year < 100) :
    fullYear today year = completeYear today.year year := if_pos hshort

theorem fullYear_of_full (hfull : 100 ≤ year) : fullYear today year = year :=
  if_neg (Nat.not_lt.2 hfull)

theorem mem_yearHints_iff {given : String} {completed : Int} :
    .yearCompleted given completed ∈ yearHints today run year ↔
      year < 100 ∧ given = String.ofList run ∧ completed = fullYear today year := by
  unfold yearHints
  by_cases hshort : year < 100
  · rw [if_pos hshort, List.mem_singleton, fullYear_of_short hshort]
    simp only [DateHint.yearCompleted.injEq, hshort, true_and]
  · rw [if_neg hshort]
    exact iff_of_false List.not_mem_nil fun h => hshort h.1

/-- The date is in the year that its number stands for, either way round, and the only hint
about a year is the one about this. -/
theorem Reads.year_eq (h : Reads today input typed)
    (hspelling : Spelling input run day month year) :
    typed.date.year = fullYear today year ∧
      ∀ given completed, .yearCompleted given completed ∈ typed.hints ↔
        year < 100 ∧ given = String.ofList run ∧ completed = typed.date.year := by
  cases h with
  | asTyped h hdate =>
    obtain ⟨rfl, rfl, rfl, rfl⟩ := h.unique hspelling
    exact ⟨rfl, fun given completed => mem_yearHints_iff⟩
  | swapped h hnot hdate =>
    obtain ⟨rfl, rfl, rfl, rfl⟩ := h.unique hspelling
    refine ⟨rfl, fun given completed => ?_⟩
    rw [List.mem_append, mem_yearHints_iff, List.mem_singleton]
    exact or_iff_left DateHint.noConfusion

theorem Reads.exists_spelling (h : Reads today input typed) :
    ∃ run day month year, Spelling input run day month year := by
  cases h with
  | asTyped h hdate => exact ⟨_, _, _, _, h⟩
  | swapped h hnot hdate => exact ⟨_, _, _, _, h⟩

/-! ## What a reading needs to know of today -/

/-- Today counts by the year that a number is completed to, and by nothing else. -/
theorem read_congr_today
    (hyear : ∀ run day month year, Spelling input run day month year →
      fullYear later year = fullYear today year ∧
        yearHints later run year = yearHints today run year) :
    read later input = read today input := by
  have hsame : ofText? later (Text.trim input.toList) =
      ofText? today (Text.trim input.toList) := by
    refine Option.ext fun typed => ?_
    rw [ofText?_trim_iff, ofText?_trim_iff]
    refine exists_congr fun run => exists_congr fun day => exists_congr fun month =>
      exists_congr fun year => and_congr_right fun hspelling => ?_
    obtain ⟨hfull, hhints⟩ := hyear run day month year hspelling
    rw [hfull, hhints]
  unfold read
  rw [hsame]

theorem read_eq_of_year_eq (hyear : later.year = today.year) :
    read later input = read today input := by
  refine read_congr_today fun run day month year hspelling => ?_
  unfold fullYear yearHints
  rw [hyear]
  exact ⟨rfl, rfl⟩

theorem yearHints_of_full (hfull : 100 ≤ year) : yearHints today run year = [] :=
  if_neg (Nat.not_lt.2 hfull)

theorem read_eq_of_full (hspelling : Spelling input run day month year) (hfull : 100 ≤ year) :
    read later input = read today input := by
  refine read_congr_today fun run' day' month' year' hspelling' => ?_
  obtain ⟨rfl, rfl, rfl, rfl⟩ := hspelling.unique hspelling'
  rw [fullYear_of_full hfull, fullYear_of_full hfull, yearHints_of_full hfull,
    yearHints_of_full hfull]
  exact ⟨rfl, rfl⟩

/-- A text that is read has a number for the year.  If it is short, the date is in the one
year of the last hundred that ends like it, and the hint reports this year.  If it is not,
the date is in the year that the number says, without a hint and whatever today is.  In
neither case does it matter which day of the year today is. -/
theorem read_year (today : Date) (input : String) :
    (∀ typed, read today input = .ok typed → ∃ run day month year,
      Spelling input run day month year ∧
      (year < 100 → 0 ≤ today.year →
        (∀ c, EndsLatest today.year year c ↔ c = typed.date.year) ∧
        ∀ given completed, .yearCompleted given completed ∈ typed.hints ↔
          given = String.ofList run ∧ completed = typed.date.year) ∧
      (100 ≤ year →
        typed.date.year = year ∧
        (∀ given completed, .yearCompleted given completed ∉ typed.hints) ∧
        ∀ later, read later input = read today input)) ∧
    ∀ later : Date, later.year = today.year → read later input = read today input := by
  refine ⟨fun typed hread => ?_, fun later hyear => read_eq_of_year_eq hyear⟩
  have h := reads_iff.2 (read_eq_ok_iff.1 hread)
  obtain ⟨run, day, month, year, hspelling⟩ := h.exists_spelling
  obtain ⟨hyear, hhints⟩ := h.year_eq hspelling
  refine ⟨run, day, month, year, hspelling, fun hshort hpos => ⟨fun c => ?_, ?_⟩,
    fun hfull => ⟨?_, ?_, fun later => read_eq_of_full hspelling hfull⟩⟩
  · rw [hyear, fullYear_of_short hshort]
    exact endsLatest_iff hpos hshort
  · intro given completed
    rw [hhints, and_iff_right hshort]
  · rw [hyear, fullYear_of_full hfull]
  · intro given completed hmem
    exact absurd ((hhints given completed).1 hmem).1 (Nat.not_lt.2 hfull)

/-- In the year 2000 a leap day of the year `0` is one of 2000, and the year `01` is a
hundred years back. -/
theorem read_year_century :
    (read ⟨2000, 1, 1, by decide⟩ "29.2.0" =
        .ok ⟨⟨2000, 2, 29, by decide⟩, [.yearCompleted "0" 2000]⟩ ∧
      EndsLatest 2000 0 2000 ∧
      read ⟨2000, 12, 31, by decide⟩ "29.2.0" = read ⟨2000, 1, 1, by decide⟩ "29.2.0") ∧
    read ⟨2000, 1, 1, by decide⟩ "1-13-01" =
        .ok ⟨⟨1901, 1, 13, by decide⟩, [.yearCompleted "01" 1901, .dayMonthSwapped]⟩ ∧
      ∀ c, EndsLatest 2000 1 c ↔ c = 1901 := by
  have hleap : read ⟨2000, 1, 1, by decide⟩ "29.2.0" =
      .ok ⟨⟨2000, 2, 29, by decide⟩, [.yearCompleted "0" 2000]⟩ := by decide +kernel
  have hswapped : read ⟨2000, 1, 1, by decide⟩ "1-13-01" =
      .ok ⟨⟨1901, 1, 13, by decide⟩, [.yearCompleted "01" 1901, .dayMonthSwapped]⟩ := by
    decide +kernel
  obtain ⟨-, hsame⟩ := read_year ⟨2000, 1, 1, by decide⟩ "29.2.0"
  refine ⟨⟨hleap, by decide, hsame _ rfl⟩, hswapped, ?_⟩
  obtain ⟨hread, -⟩ := read_year ⟨2000, 1, 1, by decide⟩ "1-13-01"
  obtain ⟨run, day, month, year, hspelling, hshort, -⟩ := hread _ hswapped
  have htyped : Spelling "1-13-01" ['0', '1'] 1 13 1 :=
    ⟨⟨['1'], ['1', '3'], Runs.iff_digitRuns.2 (by decide +kernel),
      (number?_eq_some_iff (by decide)).1 (by decide),
      (number?_eq_some_iff (by decide)).1 (by decide),
      (number?_eq_some_iff (by decide)).1 (by decide)⟩, by decide, by decide, by decide⟩
  obtain ⟨rfl, rfl, rfl, rfl⟩ := hspelling.unique htyped
  exact (hshort (by decide) (by decide)).1

end TypedDate
end PressCalendar
