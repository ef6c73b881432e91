/-
Finite sets of dates, kept in ascending order.

The order is part of the type, so a set has one representation: `ext_mem` says
that two sets with the same members are equal.
-/
import PressCalendar.Date.Basic

namespace PressCalendar

/-- Put a date into its place in an ascending list, unless it is there. -/
def insertDate (d : Date) : List Date → List Date
  | [] => [d]
  | e :: es => if d < e then d :: e :: es else if d = e then e :: es else e :: insertDate d es

theorem mem_insertDate {d e : Date} {es : List Date} : e ∈ insertDate d es ↔ e = d ∨ e ∈ es := by
  induction es with
  | nil => simp [insertDate]
  | cons f fs ih =>
    unfold insertDate
    split
    · simp
    · split
      · case isTrue h =>
        subst h
        simp
      · simp only [List.mem_cons, ih]
        exact or_left_comm

theorem pairwise_insertDate {d : Date} {es : List Date} (h : es.Pairwise (· < ·)) :
    (insertDate d es).Pairwise (· < ·) := by
  induction es with
  | nil => simp [insertDate]
  | cons f fs ih =>
    obtain ⟨hf, hfs⟩ := List.pairwise_cons.1 h
    unfold insertDate
    split
    · case isTrue hlt =>
      refine List.pairwise_cons.2 ⟨fun g hg => ?_, h⟩
      rcases List.mem_cons.1 hg with rfl | hg
      · exact hlt
      · exact Date.lt_trans hlt (hf g hg)
    · split
      · exact h
      · case isFalse hnlt hne =>
        refine List.pairwise_cons.2 ⟨fun g hg => ?_, ih hfs⟩
        rcases mem_insertDate.1 hg with rfl | hg
        · by_cases hfg : f < g
          · exact hfg
          · exact absurd (Date.le_antisymm (Date.not_lt.1 hfg) (Date.not_lt.1 hnlt)) hne
        · exact hf g hg

structure DateSet where
  dates : List Date
  ascending : dates.Pairwise (· < ·)
deriving DecidableEq

namespace DateSet

def empty : DateSet := ⟨[], List.Pairwise.nil⟩

instance : Membership Date DateSet := ⟨fun s d => d ∈ s.dates⟩

instance (d : Date) (s : DateSet) : Decidable (d ∈ s) := inferInstanceAs (Decidable (d ∈ s.dates))

theorem mem_def {d : Date} {s : DateSet} : d ∈ s ↔ d ∈ s.dates := Iff.rfl

def contains (s : DateSet) (d : Date) : Bool := decide (d ∈ s)

def insert (s : DateSet) (d : Date) : DateSet :=
  ⟨insertDate d s.dates, pairwise_insertDate s.ascending⟩

def erase (s : DateSet) (d : Date) : DateSet :=
  ⟨s.dates.filter (· ≠ d), s.ascending.filter _⟩

@[simp]
theorem not_mem_empty (d : Date) : ¬d ∈ empty := List.not_mem_nil

@[simp]
theorem mem_insert {d e : Date} {s : DateSet} : e ∈ s.insert d ↔ e = d ∨ e ∈ s := mem_insertDate

@[simp]
theorem mem_erase {d e : Date} {s : DateSet} : e ∈ s.erase d ↔ e ∈ s ∧ e ≠ d := by
  simp [mem_def, erase]

theorem eq_of_mem_iff {as bs : List Date} (ha : as.Pairwise (· < ·)) (hb : bs.Pairwise (· < ·))
    (h : ∀ d, d ∈ as ↔ d ∈ bs) : as = bs := by
  induction as generalizing bs with
  | nil =>
    cases bs with
    | nil => rfl
    | cons b bs => exact absurd ((h b).2 List.mem_cons_self) List.not_mem_nil
  | cons a as ih =>
    cases bs with
    | nil => exact absurd ((h a).1 List.mem_cons_self) List.not_mem_nil
    | cons b bs =>
      obtain ⟨haas, has⟩ := List.pairwise_cons.1 ha
      obtain ⟨hbbs, hbs⟩ := List.pairwise_cons.1 hb
      have hab : a = b := by
        rcases List.mem_cons.1 ((h a).1 List.mem_cons_self) with hab | hab
        · exact hab
        · rcases List.mem_cons.1 ((h b).2 List.mem_cons_self) with hba | hba
          · exact hba.symm
          · exact absurd (Date.lt_trans (haas b hba) (hbbs a hab)) (Date.lt_irrefl a)
      subst hab
      have hnot : ∀ {cs : List Date}, (∀ c ∈ cs, a < c) → ¬a ∈ cs := fun hcs ha =>
        Date.lt_irrefl a (hcs a ha)
      refine congrArg (a :: ·) (ih has hbs fun d => ⟨fun hd => ?_, fun hd => ?_⟩)
      · rcases List.mem_cons.1 ((h d).1 (List.mem_cons_of_mem a hd)) with rfl | hd'
        · exact absurd hd (hnot haas)
        · exact hd'
      · rcases List.mem_cons.1 ((h d).2 (List.mem_cons_of_mem a hd)) with rfl | hd'
        · exact absurd hd (hnot hbbs)
        · exact hd'

theorem ext_mem {s t : DateSet} (h : ∀ d, d ∈ s ↔ d ∈ t) : s = t := by
  cases s
  cases t
  simp only [mk.injEq]
  exact eq_of_mem_iff ‹_› ‹_› h

end DateSet

end PressCalendar
