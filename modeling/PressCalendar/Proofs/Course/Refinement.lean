/-
Granularities that refine one another.

A new process begins wherever the period changes.  Where a period of one granularity lies
within a period of another, the coarser one changes only together with the finer one, so
dividing by the finer granularity is dividing each of the coarser processes:
`group_eq_flatMap`.  The coarser processes are then the finer ones put together.
-/
import PressCalendar.Proofs.Course.Partition

namespace PressCalendar

/-- A list that falls into parts is split part by part, if the parts are apart. -/
theorem splitBy_flatten_eq_flatMap {α : Type} {r : α → α → Bool} {parts : List (List α)}
    (hnil : [] ∉ parts)
    (hapart : parts.IsChain fun p q => ∃ hp hq, r (p.getLast hp) (q.head hq) = false) :
    parts.flatten.splitBy r = parts.flatMap (·.splitBy r) := by
  induction parts with
  | nil => rfl
  | cons p parts ih =>
    rw [List.flatten_cons, List.flatMap_cons, List.splitBy_append,
      ih (fun hmem => hnil (List.mem_cons_of_mem p hmem)) hapart.tail]
    cases parts with
    | nil => simp
    | cons q parts =>
      obtain ⟨hp, hq, hfalse⟩ := (List.isChain_cons_cons.1 hapart).1
      intro x hx y hy
      rw [List.getLast?_eq_some_getLast hp] at hx
      rw [List.flatten_cons, List.head?_append_of_ne_nil _ hq, List.head?_eq_some_head hq] at hy
      cases hx
      cases hy
      exact hfalse

namespace Granularity

/-- The second list of processes is the first one put together: each of its processes is
made of consecutive ones of the first, and none is left out. -/
def Merges (fine coarse : List Process) : Prop :=
  ∃ parts : List (List Process), parts.flatten = fine ∧ parts.map List.flatten = coarse ∧
    [] ∉ parts

/-- The granularities each of which divides the periods of the next coarser one. -/
inductive Finer : Granularity → Granularity → Prop
  | days : Finer issues days
  | weeks : Finer days weeks
  | months : Finer days months
  | quarters : Finer months quarters
  | years : Finer quarters years

variable {g coarser : Granularity}

theorem Merges.length_le {fine coarse : List Process} (h : Merges fine coarse) :
    coarse.length ≤ fine.length := by
  obtain ⟨parts, rfl, rfl, hnil⟩ := h
  rw [List.length_map]
  induction parts with
  | nil => exact Nat.le_refl 0
  | cons part parts ih =>
    have hpart : part.length ≠ 0 := fun hzero =>
      hnil (List.mem_cons.2 (.inl (List.eq_nil_of_length_eq_zero hzero).symm))
    have hrest := ih fun hmem => hnil (List.mem_cons_of_mem part hmem)
    rw [List.flatten_cons, List.length_append, List.length_cons]
    omega

theorem Finer.samePeriod (h : g.Finer coarser) {d e : Date} (hsame : g.SamePeriod d e) :
    coarser.SamePeriod d e := by
  cases h with
  | days => exact hsame.elim
  | weeks => exact congrArg Date.monday hsame
  | months => exact ⟨congrArg Date.year hsame, congrArg Date.month hsame⟩
  | quarters =>
    obtain ⟨hyear, hmonth⟩ := hsame
    have hquarter := (quarter_eq_iff d.month_pos e.month_pos).1
      (congrArg (fun month => (month - 1) / 3) hmonth)
    exact ⟨hyear, hquarter⟩
  | years => exact hsame.1

/-- Where the coarser period changes the finer one does, so that nothing is put together
across the end of a coarser process. -/
theorem Finer.apart (h : g.Finer coarser) {a b : Appearance}
    (hab : coarser.together a b = false) : g.together a b = false := by
  rw [Bool.eq_false_iff, Ne, together_iff_samePeriod] at hab ⊢
  exact fun hsame => hab (h.samePeriod hsame)

theorem Finer.group_eq_flatMap (h : g.Finer coarser) (as : List Appearance) :
    g.group as = (coarser.group as).flatMap g.group := by
  have happart : (coarser.group as).IsChain fun p q =>
      ∃ hp hq, g.together (p.getLast hp) (q.head hq) = false := by
    refine (List.isChain_getLast_head_splitBy coarser.together as).imp ?_
    rintro p q ⟨hp, hq, hfalse⟩
    exact ⟨hp, hq, h.apart hfalse⟩
  calc g.group as = g.group (coarser.group as).flatten := by rw [flatten_group]
    _ = (coarser.group as).flatMap g.group :=
      splitBy_flatten_eq_flatMap (List.nil_notMem_splitBy coarser.together as) happart

theorem Finer.merges (h : g.Finer coarser) (as : List Appearance) :
    Merges (g.group as) (coarser.group as) := by
  refine ⟨(coarser.group as).map g.group, ?_, ?_, ?_⟩
  · rw [h.group_eq_flatMap, List.flatMap_def]
  · rw [List.map_map]
    exact (List.map_congr_left fun p _ => flatten_group g p).trans (List.map_id _)
  · intro hnil
    obtain ⟨p, hp, hempty⟩ := List.mem_map.1 hnil
    exact g.group_ne_nil (ne_nil_of_mem_group hp) hempty

end Granularity

namespace Course

open Granularity (Merges)

/-- In a course in which anything appears, every granularity but that of the import gives
at least one process.  The processes of the days are those of the issues put together, those
of the weeks and of the months are those of the days, and so on to the quarters and the
years, so there are never more of the coarser ones. -/
theorem partition_finer {c : Course} (h : c.appearances ≠ []) :
    (∀ g, g ≠ .asImported → ∃ ps, c.partition g = .ok ps ∧ 1 ≤ ps.length) ∧
    ∀ g coarser, g.Finer coarser → ∀ fine coarse, c.partition g = .ok fine →
      c.partition coarser = .ok coarse → Merges fine coarse ∧ coarse.length ≤ fine.length := by
  constructor
  · intro g hg
    have hne := g.group_ne_nil h
    exact ⟨_, partition_of_dated h hg, List.length_pos_iff.2 hne⟩
  · intro g coarser hfiner fine coarse hfine hcoarse
    have hg : g ≠ .asImported := by cases hfiner <;> decide
    have hcoarser : coarser ≠ .asImported := by cases hfiner <;> decide
    rw [partition_of_dated h hg] at hfine
    rw [partition_of_dated h hcoarser] at hcoarse
    cases hfine
    cases hcoarse
    have hmerges := hfiner.merges c.appearances
    exact ⟨hmerges, hmerges.length_le⟩

/-- The week from one year to the next lies across the end of a month. -/
theorem partition_finer_newYear :
    newYear.appearances ≠ [] ∧ ∃ days weeks months, newYear.partition .days = .ok days ∧
      newYear.partition .weeks = .ok weeks ∧ newYear.partition .months = .ok months ∧
      Merges days weeks ∧ Merges days months ∧ 1 ≤ weeks.length ∧
      days.length = 4 ∧ weeks.length = 3 ∧ months.length = 2 := by
  have hne : newYear.appearances ≠ [] := by decide +kernel
  obtain ⟨hdivided, hfiner⟩ := partition_finer hne
  obtain ⟨weeks, hweeks, hpos⟩ := hdivided .weeks (by decide)
  obtain ⟨days, hdays, -⟩ := hdivided .days (by decide)
  obtain ⟨months, hmonths, -⟩ := hdivided .months (by decide)
  have hlengths : (newYear.partition .days).map List.length = .ok 4 ∧
      (newYear.partition .weeks).map List.length = .ok 3 ∧
      (newYear.partition .months).map List.length = .ok 2 := by decide +kernel
  rw [hdays, hweeks, hmonths] at hlengths
  obtain ⟨hdays', hweeks', hmonths'⟩ := hlengths
  exact ⟨hne, days, weeks, months, hdays, hweeks, hmonths,
    (hfiner _ _ .weeks _ _ hdays hweeks).1, (hfiner _ _ .months _ _ hdays hmonths).1, hpos,
    Except.ok.inj hdays', Except.ok.inj hweeks', Except.ok.inj hmonths'⟩

end Course
end PressCalendar
