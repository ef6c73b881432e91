/-
Dates as they are typed: which texts are read, and as which dates.

A text counts by its longest runs of decimal digits, `Runs`, and nothing else in it matters.
There have to be three of them, in ASCII digits, for a day, a month and a year.  `Reads` is
this grammar together with the two guesses that a reading may take; `read_iff` says that a
text is read just as the grammar has it, and refused if the grammar has no reading of it.
-/
import Mathlib.Data.List.SplitBy
import PressCalendar.Date.Typed
import PressCalendar.Proofs.Text.Separated

namespace PressCalendar

open Text

/-! ## Runs of digits -/

/-- The longest runs of digits in a text, in their order: a run is not empty, it holds
nothing but digits, and no digit comes right before or right after it. -/
inductive Runs : List Char → List (List Char) → Prop
  | none {gap : List Char} (hgap : ∀ c ∈ gap, isDecimal c = false) : Runs gap []
  | run {gap run rest : List Char} {runs : List (List Char)}
    (hgap : ∀ c ∈ gap, isDecimal c = false) (hne : run ≠ []) (hrun : ∀ c ∈ run, isDecimal c = true)
    (hrest : ∀ c ∈ rest.head?, isDecimal c = false) (h : Runs rest runs) :
    Runs (gap ++ (run ++ rest)) (run :: runs)

namespace Runs

variable {cs gap : List Char} {runs : List (List Char)}

theorem ne_nil (h : Runs cs runs) : ∀ run ∈ runs, run ≠ [] := by
  induction h with
  | none _ => simp
  | run _ hne _ _ _ ih => exact List.forall_mem_cons.2 ⟨hne, ih⟩

/-- What stands in front of a text does not matter if it is free of digits. -/
theorem gap_append (h : Runs cs runs) (hgap : ∀ c ∈ gap, isDecimal c = false) :
    Runs (gap ++ cs) runs := by
  cases h with
  | none hfree => exact .none (List.forall_mem_append.2 ⟨hgap, hfree⟩)
  | run hfree hne hrun hrest h =>
    rw [← List.append_assoc]
    exact .run (List.forall_mem_append.2 ⟨hgap, hfree⟩) hne hrun hrest h

/-- Nor does what stands behind it. -/
theorem append_gap (h : Runs cs runs) (hgap : ∀ c ∈ gap, isDecimal c = false) :
    Runs (cs ++ gap) runs := by
  induction h with
  | none hfree => exact .none (List.forall_mem_append.2 ⟨hfree, hgap⟩)
  | @run _ _ rest _ hfree hne hrun hrest _ ih =>
    rw [List.append_assoc, List.append_assoc]
    refine .run hfree hne hrun ?_ ih
    cases rest with
    | nil => exact fun c hc => hgap c (List.mem_of_mem_head? hc)
    | cons => exact hrest

theorem at_start {run rest : List Char} (hne : run ≠ []) (hrun : ∀ c ∈ run, isDecimal c = true)
    (hrest : ∀ c ∈ rest.head?, isDecimal c = false) (h : Runs rest runs) :
    Runs (run ++ rest) (run :: runs) := by
  have hstart := Runs.run (List.forall_mem_nil _) hne hrun hrest h
  rwa [List.nil_append] at hstart

/-- Every text has its runs.  A digit in front of a text makes the first run longer if a
digit follows, and else it is a run of its own. -/
theorem exists_runs (cs : List Char) : ∃ runs, Runs cs runs := by
  induction cs with
  | nil => exact ⟨[], .none (by simp)⟩
  | cons c cs ih =>
    obtain ⟨runs, h⟩ := ih
    cases hc : isDecimal c with
    | false => exact ⟨runs, h.gap_append (List.forall_mem_singleton.2 hc)⟩
    | true =>
      by_cases hhead : ∀ d ∈ cs.head?, isDecimal d = false
      · have hone : ∀ d ∈ [c], isDecimal d = true := List.forall_mem_singleton.2 hc
        exact ⟨[c] :: runs, at_start (List.cons_ne_nil c []) hone hhead h⟩
      · cases h with
        | none hgap => exact absurd (fun d hd => hgap d (List.mem_of_mem_head? hd)) hhead
        | @run gap run rest runs hgap hne hrun hrest h =>
          cases gap with
          | cons g gap =>
            refine absurd ?_ hhead
            intro d hd
            cases hd
            exact hgap _ List.mem_cons_self
          | nil =>
            have hlonger : ∀ d ∈ c :: run, isDecimal d = true := List.forall_mem_cons.2 ⟨hc, hrun⟩
            exact ⟨(c :: run) :: runs, at_start (List.cons_ne_nil c run) hlonger hrest h⟩

theorem splitBy_uniform {run rest : List Char} {decimal : Bool} (hne : run ≠ [])
    (hrun : ∀ c ∈ run, isDecimal c = decimal)
    (hrest : ∀ c ∈ rest.head?, isDecimal c = !decimal) :
    (run ++ rest).splitBy (fun a b => isDecimal a == isDecimal b) =
      run :: rest.splitBy fun a b => isDecimal a == isDecimal b := by
  have hchain : run.IsChain fun a b => (isDecimal a == isDecimal b) = true := by
    refine List.Pairwise.isChain (List.pairwise_of_forall_mem_list ?_)
    intro a ha b hb
    rw [hrun a ha, hrun b hb, beq_self_eq_true]
  rw [List.splitBy_append, List.splitBy_of_isChain hne hchain, List.singleton_append]
  intro a ha b hb
  rw [hrun a (List.mem_of_mem_getLast? ha), hrest b hb]
  cases decimal <;> rfl

theorem digitRuns_gap_append {rest : List Char} (hgap : ∀ c ∈ gap, isDecimal c = false)
    (hrest : ∀ c ∈ rest.head?, isDecimal c = true) :
    TypedDate.digitRuns (gap ++ rest) = TypedDate.digitRuns rest := by
  cases gap with
  | nil => rfl
  | cons g gap =>
    have hnot : ¬((g :: gap).all isDecimal = true) := by
      rw [List.all_cons, hgap g List.mem_cons_self, Bool.false_and]
      exact Bool.false_ne_true
    unfold TypedDate.digitRuns
    rw [splitBy_uniform (List.cons_ne_nil g gap) hgap hrest, List.filter_cons, if_neg hnot]

theorem digitRuns_run_append {run rest : List Char} (hne : run ≠ [])
    (hrun : ∀ c ∈ run, isDecimal c = true) (hrest : ∀ c ∈ rest.head?, isDecimal c = false) :
    TypedDate.digitRuns (run ++ rest) = run :: TypedDate.digitRuns rest := by
  unfold TypedDate.digitRuns
  rw [splitBy_uniform hne hrun hrest, List.filter_cons, if_pos (List.all_eq_true.2 hrun)]

/-- They are the runs that are looked at when a date is read. -/
theorem digitRuns_eq (h : Runs cs runs) : TypedDate.digitRuns cs = runs := by
  induction h with
  | @none gap hgap =>
    have hnone : TypedDate.digitRuns (gap ++ []) = TypedDate.digitRuns [] :=
      digitRuns_gap_append hgap (by simp)
    rwa [List.append_nil] at hnone
  | @run gap run rest runs hgap hne hrun hrest _ ih =>
    have hhead : ∀ c ∈ (run ++ rest).head?, isDecimal c = true := by
      obtain ⟨d, run, rfl⟩ := List.exists_cons_of_ne_nil hne
      intro c hc
      cases hc
      exact hrun _ List.mem_cons_self
    rw [digitRuns_gap_append hgap hhead, digitRuns_run_append hne hrun hrest, ih]

theorem iff_digitRuns : Runs cs runs ↔ TypedDate.digitRuns cs = runs := by
  constructor
  · exact digitRuns_eq
  · rintro rfl
    obtain ⟨runs, h⟩ := exists_runs cs
    rwa [h.digitRuns_eq]

end Runs

theorem isDecimal_of_isBlank {c : Char} (h : isBlank c = true) : isDecimal c = false := by
  have hzeros : ∀ z ∈ decimalZeros, z = 0x30 ∨ (0x660 ≤ z ∧ z ≤ 0x1090) ∨
      (0x17E0 ≤ z ∧ z ≤ 0x1C50) ∨ 0xA620 ≤ z := by decide
  rw [isDecimal, List.any_eq_false]
  intro z hz
  have hz' := hzeros z hz
  simp only [isBlank, Bool.or_eq_true, Bool.and_eq_true, decide_eq_true_eq, beq_iff_eq] at h ⊢
  omega

/-- White space at the ends of a text makes no difference to its runs. -/
theorem Runs.trim_iff {cs : List Char} {runs : List (List Char)} :
    Runs (trim cs) runs ↔ Runs cs runs := by
  obtain ⟨lead, trail, hcs, hlead, htrail⟩ := exists_eq_append_trim cs
  have hfree : ∀ {blanks : List Char}, (∀ c ∈ blanks, isBlank c = true) →
      ∀ c ∈ blanks, isDecimal c = false := fun h c hc => isDecimal_of_isBlank (h c hc)
  have hcarry : ∀ {runs}, Runs (trim cs) runs → Runs cs runs := by
    intro runs h
    rw [hcs]
    exact (h.gap_append (hfree hlead)).append_gap (hfree htrail)
  constructor
  · exact hcarry
  · intro h
    obtain ⟨runs', h'⟩ := exists_runs (trim cs)
    rwa [← h.digitRuns_eq, (hcarry h').digitRuns_eq]

/-! ## Numbers -/

/-- The number that a run of ASCII digits stands for. -/
def Denotes (run : List Char) (n : Nat) : Prop :=
  (∀ c ∈ run, c.isDigit = true) ∧ Nat.ofDigitChars 10 run 0 = n

theorem number?_eq_some_iff {run : List Char} (hne : run ≠ []) {n : Nat} :
    number? run = some n ↔ Denotes run n := by
  have hsome : run.isEmpty = false := List.isEmpty_eq_false_iff.2 hne
  unfold number? Denotes
  rw [hsome, ← List.all_eq_true]
  cases run.all Char.isDigit <;> simp

theorem number?_zeros_append {run : List Char} (hne : run ≠ []) (k : Nat) :
    number? (List.replicate k '0' ++ run) = number? run := by
  have hall : (List.replicate k '0').all Char.isDigit = true := by
    rw [List.all_eq_true]
    intro c hc
    rw [(List.mem_replicate.1 hc).2]
    decide
  have hsome : run.isEmpty = false := List.isEmpty_eq_false_iff.2 hne
  have hsome' : (List.replicate k '0' ++ run).isEmpty = false :=
    List.isEmpty_eq_false_iff.2 (List.append_ne_nil_of_right_ne_nil _ hne)
  rw [number?, number?, hsome, hsome', List.all_append, hall, Nat.ofDigitChars_append,
    Nat.ofDigitChars_replicate_zero, Nat.mul_zero, Bool.true_and]

namespace TypedDate

theorem word?_eq_some_iff {run : List Char} (hne : run ≠ []) {n : Nat} :
    word? run = some n ↔ Denotes run n ∧ n < 0x100000000 := by
  rw [word?, Option.filter_eq_some_iff, number?_eq_some_iff hne, decide_eq_true_iff]

/-- A short year is completed to the latest one that ends like it and is not in the
future. -/
theorem completeYear_latest {currentYear : Int} (hpos : 0 ≤ currentYear) {short : Nat}
    (hshort : short < 100) :
    completeYear currentYear short % 100 = short ∧
      completeYear currentYear short ≤ currentYear ∧
      currentYear < completeYear currentYear short + 100 := by
  have hcentury := Int.tdiv_eq_ediv_of_nonneg (b := 100) hpos
  unfold completeYear
  simp only [hcentury]
  split <;> omega

/-! ## The grammar -/

/-- The year that a number stands for. -/
def fullYear (today : Date) (number : Nat) : Int :=
  if number < 100 then completeYear today.year number else number

/-- What is to be said about a year: how it was typed and completed, if it was short. -/
def yearHints (today : Date) (run : List Char) (number : Nat) : List DateHint :=
  if number < 100 then [.yearCompleted (String.ofList run) (completeYear today.year number)]
  else []

/-- The text has three runs, which stand for a day, a month and a year in numbers that are
not too large.  The run of the year is named, since a hint may quote it. -/
structure Spelling (input : String) (yearRun : List Char) (day month year : Nat) : Prop where
  runs : ∃ dayRun monthRun, Runs input.toList [dayRun, monthRun, yearRun] ∧
    Denotes dayRun day ∧ Denotes monthRun month ∧ Denotes yearRun year
  day_lt : day < 0x100000000
  month_lt : month < 0x100000000
  year_lt : year < 0x80000000

/-- The readings of a text: the numbers as they stand, or else day and month the other way
round. -/
inductive Reads (today : Date) (input : String) : TypedDate → Prop
  | asTyped {run : List Char} {day month year : Nat} (h : Spelling input run day month year)
    (hdate : IsDate (fullYear today year) month day) :
    Reads today input ⟨⟨fullYear today year, month, day, hdate⟩, yearHints today run year⟩
  | swapped {run : List Char} {day month year : Nat} (h : Spelling input run day month year)
    (hnot : ¬IsDate (fullYear today year) month day)
    (hdate : IsDate (fullYear today year) day month) :
    Reads today input ⟨⟨fullYear today year, day, month, hdate⟩,
      yearHints today run year ++ [.dayMonthSwapped]⟩

/-- A text has one spelling at most. -/
theorem Spelling.unique {input : String} {run run' : List Char}
    {day month year day' month' year' : Nat} (h : Spelling input run day month year)
    (h' : Spelling input run' day' month' year') :
    run = run' ∧ day = day' ∧ month = month' ∧ year = year' := by
  obtain ⟨dayRun, monthRun, hruns, hday, hmonth, hyear⟩ := h.runs
  obtain ⟨dayRun', monthRun', hruns', hday', hmonth', hyear'⟩ := h'.runs
  have heq := hruns.digitRuns_eq.symm.trans hruns'.digitRuns_eq
  simp only [List.cons.injEq, and_true] at heq
  obtain ⟨rfl, rfl, rfl⟩ := heq
  exact ⟨rfl, hday.2.symm.trans hday'.2, hmonth.2.symm.trans hmonth'.2,
    hyear.2.symm.trans hyear'.2⟩

theorem readYear_eq (today : Date) (run : List Char) (number : Nat) :
    readYear today.year run number = (fullYear today number, yearHints today run number) := by
  unfold readYear fullYear yearHints
  split <;> rfl

/-- What is made of three runs. -/
def ofRuns? (today : Date) (dayRun monthRun yearRun : List Char) : Option TypedDate := do
  let day ← word? dayRun
  let month ← word? monthRun
  let number ← (number? yearRun).filter (· < 0x80000000)
  arrange? (fullYear today number) day month (yearHints today yearRun number)

variable {today : Date} {input : String} {typed : TypedDate}

theorem ofText?_of_runs {cs dayRun monthRun yearRun : List Char}
    (h : Runs cs [dayRun, monthRun, yearRun]) :
    ofText? today cs = ofRuns? today dayRun monthRun yearRun := by
  unfold ofText? ofRuns?
  rw [h.digitRuns_eq]
  simp only [readYear_eq]

theorem exists_runs_of_ofText? {cs : List Char} (h : ofText? today cs = some typed) :
    ∃ dayRun monthRun yearRun, Runs cs [dayRun, monthRun, yearRun] := by
  unfold ofText? at h
  split at h
  · case h_1 dayRun monthRun yearRun hruns =>
    exact ⟨dayRun, monthRun, yearRun, Runs.iff_digitRuns.2 hruns⟩
  · cases h

theorem toOption_read (today : Date) (input : String) :
    (read today input).toOption = ofText? today (trim input.toList) := by
  unfold read
  cases ofText? today (trim input.toList) <;> rfl

theorem read_eq_ok_iff : read today input = .ok typed ↔
    ofText? today (trim input.toList) = some typed := by
  unfold read
  cases ofText? today (trim input.toList) <;> simp

theorem read_eq_error_iff {cause : Error} : read today input = .error cause ↔
    cause = .unreadableDate input ∧ ofText? today (trim input.toList) = none := by
  unfold read
  cases ofText? today (trim input.toList) <;> simp [eq_comm]

theorem arrange?_eq_some_iff {year : Int} {day month : Nat} {hints : List DateHint} :
    arrange? year day month hints = some typed ↔
      (∃ h : IsDate year month day, typed = ⟨⟨year, month, day, h⟩, hints⟩) ∨
      (¬IsDate year month day ∧ ∃ h : IsDate year day month,
        typed = ⟨⟨year, day, month, h⟩, hints ++ [.dayMonthSwapped]⟩) := by
  unfold arrange?
  by_cases hfirst : IsDate year month day
  · have hof : Date.of? year month day = some ⟨year, month, day, hfirst⟩ := dif_pos hfirst
    rw [hof]
    constructor
    · intro h
      cases h
      exact .inl ⟨hfirst, rfl⟩
    · intro h
      rcases h with ⟨_, rfl⟩ | ⟨hnot, _⟩
      · rfl
      · exact absurd hfirst hnot
  · rw [Date.of?_eq_none_iff.2 hfirst]
    show Option.map _ _ = some typed ↔ _
    rw [Option.map_eq_some_iff]
    constructor
    · intro ⟨date, hdate, heq⟩
      obtain ⟨rfl, rfl, rfl⟩ := Date.of?_eq_some_iff.1 hdate
      exact .inr ⟨hfirst, date.isDate, heq.symm⟩
    · intro h
      rcases h with ⟨h, _⟩ | ⟨_, hsecond, rfl⟩
      · exact absurd h hfirst
      · exact ⟨⟨year, day, month, hsecond⟩, dif_pos hsecond, rfl⟩

theorem ofRuns?_eq_some_iff {dayRun monthRun yearRun : List Char} (hday : dayRun ≠ [])
    (hmonth : monthRun ≠ []) (hyear : yearRun ≠ []) :
    ofRuns? today dayRun monthRun yearRun = some typed ↔ ∃ day month year,
      (Denotes dayRun day ∧ day < 0x100000000) ∧ (Denotes monthRun month ∧ month < 0x100000000) ∧
      (Denotes yearRun year ∧ year < 0x80000000) ∧
      arrange? (fullYear today year) day month (yearHints today yearRun year) = some typed := by
  have hfilter : ∀ year, (number? yearRun).filter (· < 0x80000000) = some year ↔
      Denotes yearRun year ∧ year < 0x80000000 := by
    intro year
    rw [Option.filter_eq_some_iff, number?_eq_some_iff hyear, decide_eq_true_iff]
  unfold ofRuns?
  simp only [Option.bind_eq_bind, Option.bind_eq_some_iff, word?_eq_some_iff hday,
    word?_eq_some_iff hmonth, hfilter]
  constructor
  · intro ⟨day, hd, month, hm, year, hy, h⟩
    exact ⟨day, month, year, hd, hm, hy, h⟩
  · intro ⟨day, month, year, hd, hm, hy, h⟩
    exact ⟨day, hd, month, hm, year, hy, h⟩

/-- A text is read by what the numbers of its three runs can be arranged to. -/
theorem ofText?_trim_iff : ofText? today (trim input.toList) = some typed ↔
    ∃ run day month year, Spelling input run day month year ∧
      arrange? (fullYear today year) day month (yearHints today run year) = some typed := by
  constructor
  · intro h
    obtain ⟨dayRun, monthRun, yearRun, hruns⟩ := exists_runs_of_ofText? h
    have hne := hruns.ne_nil
    rw [ofText?_of_runs hruns, ofRuns?_eq_some_iff (hne _ (by simp)) (hne _ (by simp))
      (hne _ (by simp))] at h
    obtain ⟨day, month, year, ⟨hday, hday'⟩, ⟨hmonth, hmonth'⟩, ⟨hyear, hyear'⟩, h⟩ := h
    have hspelling : Spelling input yearRun day month year :=
      ⟨⟨dayRun, monthRun, Runs.trim_iff.1 hruns, hday, hmonth, hyear⟩, hday', hmonth', hyear'⟩
    exact ⟨yearRun, day, month, year, hspelling, h⟩
  · intro ⟨yearRun, day, month, year, hspelling, h⟩
    obtain ⟨dayRun, monthRun, hruns, hday, hmonth, hyear⟩ := hspelling.runs
    have hne := hruns.ne_nil
    rw [ofText?_of_runs (Runs.trim_iff.2 hruns), ofRuns?_eq_some_iff (hne _ (by simp))
      (hne _ (by simp)) (hne _ (by simp))]
    exact ⟨day, month, year, ⟨hday, hspelling.day_lt⟩, ⟨hmonth, hspelling.month_lt⟩,
      ⟨hyear, hspelling.year_lt⟩, h⟩

theorem reads_iff : Reads today input typed ↔ ofText? today (trim input.toList) = some typed := by
  rw [ofText?_trim_iff]
  constructor
  · intro h
    cases h with
    | asTyped h hdate => exact ⟨_, _, _, _, h, arrange?_eq_some_iff.2 (.inl ⟨hdate, rfl⟩)⟩
    | swapped h hnot hdate =>
      exact ⟨_, _, _, _, h, arrange?_eq_some_iff.2 (.inr ⟨hnot, hdate, rfl⟩)⟩
  · intro ⟨run, day, month, year, h, harrange⟩
    rcases arrange?_eq_some_iff.1 harrange with ⟨hdate, rfl⟩ | ⟨hnot, hdate, rfl⟩
    · exact .asTyped h hdate
    · exact .swapped h hnot hdate

/-- Some reading there is if the numbers are a date one way or the other. -/
theorem exists_reads_iff : (∃ typed, Reads today input typed) ↔
    ∃ run day month year, Spelling input run day month year ∧
      (IsDate (fullYear today year) month day ∨ IsDate (fullYear today year) day month) := by
  constructor
  · intro ⟨typed, h⟩
    cases h with
    | asTyped h hdate => exact ⟨_, _, _, _, h, .inl hdate⟩
    | swapped h _ hdate => exact ⟨_, _, _, _, h, .inr hdate⟩
  · intro ⟨run, day, month, year, h, hdate⟩
    by_cases hfirst : IsDate (fullYear today year) month day
    · exact ⟨_, .asTyped h hfirst⟩
    · exact ⟨_, .swapped h hfirst (hdate.resolve_left hfirst)⟩

theorem Reads.swapped_iff (h : Reads today input typed) {run : List Char} {day month year : Nat}
    (hspelling : Spelling input run day month year) :
    .dayMonthSwapped ∈ typed.hints ↔ ¬IsDate (fullYear today year) month day := by
  have hnone : ∀ run number, .dayMonthSwapped ∉ yearHints today run number := by
    intro run number
    unfold yearHints
    split <;> simp
  cases h with
  | asTyped h hdate =>
    obtain ⟨rfl, rfl, rfl, rfl⟩ := h.unique hspelling
    exact iff_of_false (hnone _ _) (not_not_intro hdate)
  | swapped h hnot hdate =>
    obtain ⟨rfl, rfl, rfl, rfl⟩ := h.unique hspelling
    exact iff_of_true (List.mem_append_right _ (List.mem_singleton.2 rfl)) hnot

/-- Only a number that is no month can have been typed for a month and be taken for a day,
since with any other the date would have been one as it stands. -/
theorem Reads.bounds_of_swapped (h : Reads today input typed) {run : List Char}
    {day month year : Nat} (hspelling : Spelling input run day month year)
    (hswapped : .dayMonthSwapped ∈ typed.hints) :
    13 ≤ month ∧ month ≤ 31 ∧ 1 ≤ day ∧ day ≤ 12 := by
  have hnot := (h.swapped_iff hspelling).1 hswapped
  have hdate : IsDate (fullYear today year) day month := by
    cases h with
    | asTyped h hdate =>
      obtain ⟨rfl, rfl, rfl, rfl⟩ := h.unique hspelling
      exact absurd hdate hnot
    | swapped h _ hdate =>
      obtain ⟨rfl, rfl, rfl, rfl⟩ := h.unique hspelling
      exact hdate
  obtain ⟨hfirst, hlast, hpos, hle⟩ := hdate
  have hday := month_bounds (Nat.le_trans hpos hle)
  have hmonth := monthLength_le (fullYear today year) day
  refine ⟨?_, by omega, hday.1, hday.2⟩
  by_contra hlt
  have hlength := le_monthLength (fullYear today year) hpos (by omega)
  exact hnot ⟨hfirst, hlast, hday.1, by omega⟩

/-! ## Zeros in front of the numbers -/

/-- The same hint about a year that was typed in another way. -/
def requote (given : String) : DateHint → DateHint
  | .yearCompleted _ completed => .yearCompleted given completed
  | .dayMonthSwapped => .dayMonthSwapped

/-- The same reading of a date whose year was typed in another way. -/
def retyped (given : String) (typed : TypedDate) : TypedDate :=
  { typed with hints := typed.hints.map (requote given) }

theorem yearHints_requote (today : Date) (run run' : List Char) (number : Nat) :
    yearHints today run' number =
      (yearHints today run number).map (requote (String.ofList run')) := by
  unfold yearHints
  split <;> rfl

theorem arrange?_retyped (given : String) (year : Int) (day month : Nat)
    (hints : List DateHint) : arrange? year day month (hints.map (requote given)) =
      (arrange? year day month hints).map (retyped given) := by
  unfold arrange?
  cases Date.of? year month day with
  | some date => rfl
  | none =>
    rw [Option.map_map]
    refine congrArg (fun f => (Date.of? year day month).map f) (funext fun date => ?_)
    simp only [Function.comp_apply, retyped, List.map_append, List.map_cons, List.map_nil,
      requote]

theorem ofRuns?_zeros {dayRun monthRun yearRun : List Char} (hday : dayRun ≠ [])
    (hmonth : monthRun ≠ []) (hyear : yearRun ≠ []) (i j k : Nat) :
    ofRuns? today (List.replicate i '0' ++ dayRun) (List.replicate j '0' ++ monthRun)
        (List.replicate k '0' ++ yearRun) =
      (ofRuns? today dayRun monthRun yearRun).map
        (retyped (String.ofList (List.replicate k '0' ++ yearRun))) := by
  unfold ofRuns? word?
  simp only [number?_zeros_append hday, number?_zeros_append hmonth, number?_zeros_append hyear,
    yearHints_requote today yearRun (List.replicate k '0' ++ yearRun), arrange?_retyped]
  cases (number? dayRun).filter (· < 0x100000000) with
  | none => rfl
  | some day =>
    cases (number? monthRun).filter (· < 0x100000000) with
    | none => rfl
    | some month => cases (number? yearRun).filter (· < 0x80000000) <;> rfl

/-- A text is read exactly if it has three runs of digits that denote a date, the day first
or else the month; then the hints say which guesses were taken, and otherwise the error
quotes the text as it is.  Nothing but the runs counts, and of the runs not the zeros in
front, which can only be seen in the hint that quotes the year. -/
theorem read_iff (today : Date) (input : String) :
    (∀ typed, read today input = .ok typed ↔ Reads today input typed) ∧
    (∀ cause, read today input = .error cause ↔
      cause = .unreadableDate input ∧ ∀ typed, ¬Reads today input typed) ∧
    ((∃ typed, read today input = .ok typed) ↔
      ∃ run day month year, Spelling input run day month year ∧
        (IsDate (fullYear today year) month day ∨ IsDate (fullYear today year) day month)) ∧
    (∀ typed run day month year, read today input = .ok typed →
      Spelling input run day month year →
        (.dayMonthSwapped ∈ typed.hints ↔ ¬IsDate (fullYear today year) month day) ∧
        (.dayMonthSwapped ∈ typed.hints → 13 ≤ month ∧ month ≤ 31 ∧ 1 ≤ day ∧ day ≤ 12)) ∧
    (∀ (other : String) runs, Runs input.toList runs → Runs other.toList runs →
      (read today other).toOption = (read today input).toOption) ∧
    ∀ (other : String) dayRun monthRun yearRun i j k,
      Runs input.toList [dayRun, monthRun, yearRun] →
      Runs other.toList [List.replicate i '0' ++ dayRun, List.replicate j '0' ++ monthRun,
        List.replicate k '0' ++ yearRun] →
      (read today other).toOption = (read today input).toOption.map
        (retyped (String.ofList (List.replicate k '0' ++ yearRun))) := by
  have hok : ∀ typed, read today input = .ok typed ↔ Reads today input typed := fun typed =>
    read_eq_ok_iff.trans reads_iff.symm
  refine ⟨hok, ?_, ?_, ?_, ?_, ?_⟩
  · intro cause
    simp only [read_eq_error_iff, reads_iff, Option.eq_none_iff_forall_ne_some]
  · simp only [hok]
    exact exists_reads_iff
  · intro typed run day month year hread hspelling
    have h := (hok typed).1 hread
    exact ⟨h.swapped_iff hspelling, h.bounds_of_swapped hspelling⟩
  · intro other runs h h'
    rw [toOption_read, toOption_read, ofText?, ofText?, (Runs.trim_iff.2 h).digitRuns_eq,
      (Runs.trim_iff.2 h').digitRuns_eq]
  · intro other dayRun monthRun yearRun i j k h h'
    have hne := h.ne_nil
    rw [toOption_read, toOption_read, ofText?_of_runs (Runs.trim_iff.2 h),
      ofText?_of_runs (Runs.trim_iff.2 h'),
      ofRuns?_zeros (hne _ (by simp)) (hne _ (by simp)) (hne _ (by simp))]

theorem read_iff_swapped :
    Runs "1/13/5".toList [['1'], ['1', '3'], ['5']] ∧
      Runs " am 01. 13 . 005\n".toList [['0', '1'], ['1', '3'], ['0', '0', '5']] ∧
      Reads ⟨2024, 6, 1, by decide⟩ "1/13/5"
        ⟨⟨2005, 1, 13, by decide⟩, [.yearCompleted "5" 2005, .dayMonthSwapped]⟩ ∧
      (read ⟨2024, 6, 1, by decide⟩ " am 01. 13 . 005\n").toOption =
        some ⟨⟨2005, 1, 13, by decide⟩, [.yearCompleted "005" 2005, .dayMonthSwapped]⟩ := by
  obtain ⟨hok, -, -, -, -, hzeros⟩ := read_iff ⟨2024, 6, 1, by decide⟩ "1/13/5"
  have hruns : Runs "1/13/5".toList [['1'], ['1', '3'], ['5']] :=
    Runs.iff_digitRuns.2 (by decide +kernel)
  have hruns' : Runs " am 01. 13 . 005\n".toList [['0', '1'], ['1', '3'], ['0', '0', '5']] :=
    Runs.iff_digitRuns.2 (by decide +kernel)
  have hread : read ⟨2024, 6, 1, by decide⟩ "1/13/5" =
      .ok ⟨⟨2005, 1, 13, by decide⟩, [.yearCompleted "5" 2005, .dayMonthSwapped]⟩ := by
    decide +kernel
  refine ⟨hruns, hruns', (hok _).1 hread, ?_⟩
  rw [hzeros " am 01. 13 . 005\n" ['1'] ['1', '3'] ['5'] 1 0 2 hruns hruns', hread]
  rfl

end TypedDate

end PressCalendar
