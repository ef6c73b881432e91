/-
Appearances: one issue on one day, and groups of them.

`Block.appearances` lists what appeared during a block, day by day and within a
day in the order of the issues.  `Block.countAppearances` counts without making
the list.
-/
import PressCalendar.Block

namespace PressCalendar

structure Appearance where
  date : Date
  heading : String
deriving DecidableEq, Repr

/-- A unit of digitisation work: consecutive appearances. -/
abbrev Process := List Appearance

namespace Block

def appearancesOn (b : Block) (date : Date) : List Appearance :=
  (b.issues.filter (·.appearsOn date)).map fun issue => ⟨date, issue.heading⟩

/-- What appeared during a complete block.  The days of a block without issues
need not be gone through. -/
def appearances (b : Block) : List Appearance :=
  if b.issues.isEmpty then [] else b.dates.flatMap b.appearancesOn

def countAppearances (b : Block) : Nat :=
  if b.issues.isEmpty then 0
  else (b.dates.map fun date => b.issues.countP (·.appearsOn date)).foldr (· + ·) 0

theorem appearances_eq (b : Block) : b.appearances = b.dates.flatMap b.appearancesOn := by
  unfold appearances
  split
  · case isTrue h =>
    have hnil : b.issues = [] := List.isEmpty_iff.1 h
    simp [appearancesOn, hnil]
  · rfl

theorem countAppearances_eq (b : Block) :
    b.countAppearances =
      (b.dates.map fun date => b.issues.countP (·.appearsOn date)).foldr (· + ·) 0 := by
  unfold countAppearances
  split
  · case isTrue h =>
    have hnil : b.issues = [] := List.isEmpty_iff.1 h
    rw [hnil]
    induction b.dates with
    | nil => rfl
    | cons date dates ih => rw [List.map_cons, List.foldr_cons, ← ih, List.countP_nil]
  · rfl

theorem length_appearancesOn (b : Block) (date : Date) :
    (b.appearancesOn date).length = b.issues.countP (·.appearsOn date) := by
  rw [appearancesOn, List.length_map, List.countP_eq_length_filter]

theorem length_appearances (b : Block) : b.appearances.length = b.countAppearances := by
  rw [appearances_eq, countAppearances_eq]
  induction b.dates with
  | nil => rfl
  | cons date dates ih =>
    rw [List.flatMap_cons, List.length_append, ih, length_appearancesOn, List.map_cons,
      List.foldr_cons]

end Block

end PressCalendar
