/-
The days of the week, their names, and the pattern of days on which something
happens every week.

A pattern is seven flags.  `has_set` is the only fact about it that the rest of
the library uses: setting a day changes that day and no other.
-/

namespace PressCalendar

inductive Weekday where
  | mon | tue | wed | thu | fri | sat | sun
deriving DecidableEq, Repr

namespace Weekday

/-- The week begins on Monday. -/
def all : List Weekday := [mon, tue, wed, thu, fri, sat, sun]

theorem mem_all (d : Weekday) : d ∈ all := by cases d <;> decide

/-- The day that lies `n` days after a Monday. -/
def afterMonday (n : Nat) : Weekday :=
  match n % 7 with
  | 0 => mon
  | 1 => tue
  | 2 => wed
  | 3 => thu
  | 4 => fri
  | 5 => sat
  | _ => sun

def sinceMonday : Weekday → Nat
  | mon => 0
  | tue => 1
  | wed => 2
  | thu => 3
  | fri => 4
  | sat => 5
  | sun => 6

def short : Weekday → String
  | mon => "Mon"
  | tue => "Tue"
  | wed => "Wed"
  | thu => "Thu"
  | fri => "Fri"
  | sat => "Sat"
  | sun => "Sun"

/-- The short name as it is typed and listed. -/
def key : Weekday → String
  | mon => "mon"
  | tue => "tue"
  | wed => "wed"
  | thu => "thu"
  | fri => "fri"
  | sat => "sat"
  | sun => "sun"

def long : Weekday → String
  | mon => "monday"
  | tue => "tuesday"
  | wed => "wednesday"
  | thu => "thursday"
  | fri => "friday"
  | sat => "saturday"
  | sun => "sunday"

/-- A day is named by its first three letters or in full, in any mixture of
upper and lower case. -/
def ofName? (name : String) : Option Weekday :=
  let lower := name.toList.map Char.toLower
  all.find? fun d => d.key.toList == lower || d.long.toList == lower

end Weekday

/-- The days of the week on which an issue appears regularly. -/
structure WeekPattern where
  mon : Bool
  tue : Bool
  wed : Bool
  thu : Bool
  fri : Bool
  sat : Bool
  sun : Bool
deriving DecidableEq, Repr

namespace WeekPattern

def never : WeekPattern := ⟨false, false, false, false, false, false, false⟩

def has (p : WeekPattern) : Weekday → Bool
  | .mon => p.mon
  | .tue => p.tue
  | .wed => p.wed
  | .thu => p.thu
  | .fri => p.fri
  | .sat => p.sat
  | .sun => p.sun

def set (p : WeekPattern) (d : Weekday) (appears : Bool) : WeekPattern :=
  match d with
  | .mon => { p with mon := appears }
  | .tue => { p with tue := appears }
  | .wed => { p with wed := appears }
  | .thu => { p with thu := appears }
  | .fri => { p with fri := appears }
  | .sat => { p with sat := appears }
  | .sun => { p with sun := appears }

theorem has_set (p : WeekPattern) (d e : Weekday) (b : Bool) :
    (p.set d b).has e = if e = d then b else p.has e := by
  cases d <;> cases e <;> rfl

@[simp]
theorem has_never (d : Weekday) : never.has d = false := by cases d <;> rfl

theorem ext_has {p q : WeekPattern} (h : ∀ d, p.has d = q.has d) : p = q := by
  cases p
  cases q
  have hmon := h .mon
  have htue := h .tue
  have hwed := h .wed
  have hthu := h .thu
  have hfri := h .fri
  have hsat := h .sat
  have hsun := h .sun
  simp only [has] at hmon htue hwed hthu hfri hsat hsun
  simp only [hmon, htue, hwed, hthu, hfri, hsat, hsun]

/-- The pattern that holds exactly the days of a list. -/
def ofList (days : List Weekday) : WeekPattern :=
  days.foldl (fun p d => p.set d true) never

/-- The days of a pattern, Monday first. -/
def toList (p : WeekPattern) : List Weekday := Weekday.all.filter p.has

theorem has_foldl_set (days : List Weekday) (p : WeekPattern) (d : Weekday) :
    (days.foldl (fun p d => p.set d true) p).has d = (p.has d || days.contains d) := by
  induction days generalizing p with
  | nil => simp
  | cons e days ih =>
    rw [List.foldl_cons, ih, has_set, List.contains_cons]
    by_cases h : d = e
    · simp [h]
    · have hb : (d == e) = false := beq_false_of_ne h
      simp [h, hb]

theorem has_ofList (days : List Weekday) (d : Weekday) :
    (ofList days).has d = days.contains d := by
  rw [ofList, has_foldl_set, has_never, Bool.false_or]

theorem ofList_toList (p : WeekPattern) : ofList p.toList = p := by
  refine ext_has fun d => ?_
  rw [has_ofList, toList, Bool.eq_iff_iff, List.contains_iff_mem, List.mem_filter]
  exact ⟨fun h => h.2, fun h => ⟨Weekday.mem_all d, h⟩⟩

end WeekPattern

end PressCalendar
