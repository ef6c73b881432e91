/-
Grouping appearances.

Only neighbours are compared when appearances are grouped.  Because appearances come
in chronological order that is enough: `pairwise_periodOf?_group` says that the periods
of the groups are strictly increasing, so no period is met again once it is over.
`Divides` is what can be expected of processes, and `divides_group` says that groups
are such processes.
-/
import Mathlib.Data.List.Dedup
import Mathlib.Data.List.SplitBy
import PressCalendar.Proofs.Granularity.Period

namespace PressCalendar
namespace Granularity

variable {g : Granularity} {as : List Appearance} {p : Process}

theorem flatten_group (g : Granularity) (as : List Appearance) : (g.group as).flatten = as :=
  List.flatten_splitBy g.together as

theorem group_ne_nil (g : Granularity) (h : as ≠ []) : g.group as ≠ [] := by
  intro hnil
  have hflatten := flatten_group g as
  rw [hnil] at hflatten
  exact h hflatten.symm

theorem ne_nil_of_mem_group (h : p ∈ g.group as) : p ≠ [] := List.ne_nil_of_mem_splitBy h

theorem together_iff {a b : Appearance} : g.together a b = true ↔
    (g.period? a.date).isSome = true ∧ g.period? a.date = g.period? b.date := by
  rw [together, Bool.and_eq_true, beq_iff_eq]

theorem together_iff_samePeriod {a b : Appearance} :
    g.together a b = true ↔ g.SamePeriod a.date b.date := by
  rw [together_iff, period?_isSome_iff]
  constructor
  · rintro ⟨hg, heq⟩
    exact (period?_eq_iff hg).1 heq
  · intro hsame
    exact ⟨hsame.isDated, (period?_eq_iff hsame.isDated).2 hsame⟩

/-- A granularity without periods leaves every appearance on its own. -/
theorem length_of_mem_group (hg : ¬g.IsDated) (h : p ∈ g.group as) : p.length = 1 := by
  have hchain := List.isChain_of_mem_splitBy h
  match p, ne_nil_of_mem_group h, hchain with
  | [a], _, _ => rfl
  | a :: b :: p, _, hchain =>
    have htogether := (List.isChain_cons_cons.1 hchain).1
    exact absurd (together_iff_samePeriod.1 htogether).isDated hg

theorem period?_eq_of_mem_group (h : p ∈ g.group as) {a b : Appearance} (ha : a ∈ p)
    (hb : b ∈ p) : g.period? a.date = g.period? b.date := by
  have hchain := (List.isChain_of_mem_splitBy h).imp fun a b hab => (together_iff.1 hab).2
  have hsame := (List.isChain_map fun a : Appearance => g.period? a.date).2 hchain
  have hpairwise := hsame.pairwise
  exact hpairwise.forall_of_forall (fun x _ => rfl) (List.mem_map_of_mem ha)
    (List.mem_map_of_mem hb)

/-- The period of a process is that of its first appearance. -/
def periodOf? (g : Granularity) (p : Process) : Option Period :=
  p.head?.bind fun a => g.period? a.date

theorem periodOf?_eq (h : p ∈ g.group as) {a : Appearance} (ha : a ∈ p) :
    g.periodOf? p = g.period? a.date := by
  cases p with
  | nil => exact absurd ha List.not_mem_nil
  | cons b p => exact period?_eq_of_mem_group h List.mem_cons_self ha

/-- Both are periods, and the first one is over before the second one begins. -/
def Earlier (x y : Option Period) : Prop := ∃ s ∈ x, ∃ t ∈ y, s.Before t

instance : Trans Earlier Earlier Earlier where
  trans := by
    rintro x y z ⟨r, hr, s, hs, hrs⟩ ⟨s', hs', t, ht, hst⟩
    rw [Option.mem_unique hs' hs] at hst
    exact ⟨r, hr, t, ht, hrs.trans hst⟩

theorem Earlier.ne {x y : Option Period} (h : Earlier x y) : x ≠ y := by
  rintro rfl
  obtain ⟨s, hs, t, ht, hst⟩ := h
  rw [Option.mem_unique ht hs] at hst
  exact Period.Before.irrefl s hst

/-- The period changes between a group and the next one, and since the next one has
the later appearances it changes to a later period. -/
theorem isChain_periodOf?_group (hg : g.IsDated)
    (h : as.Pairwise fun a b => a.date ≤ b.date) :
    ((g.group as).map g.periodOf?).IsChain Earlier := by
  rw [List.isChain_map, List.isChain_iff_getElem]
  intro i hi
  rw [← flatten_group g as, List.pairwise_flatten] at h
  have hle := List.pairwise_iff_getElem.1 h.2 i (i + 1) (by omega) hi (by omega)
  obtain ⟨hp, hq, hsplit⟩ :=
    List.isChain_iff_getElem.1 (List.isChain_getLast_head_splitBy g.together as) i hi
  have hlast := List.getLast_mem hp
  have hhead := List.head_mem hq
  obtain ⟨x, hx⟩ := exists_period hg (List.getLast _ hp).date
  obtain ⟨y, hy⟩ := exists_period hg (List.head _ hq).date
  have hne : g.period? (List.getLast _ hp).date ≠ g.period? (List.head _ hq).date := by
    intro heq
    have htogether := together_iff.2 ⟨Option.isSome_iff_exists.2 ⟨x, hx⟩, heq⟩
    rw [hsplit] at htogether
    exact absurd htogether (by simp)
  have hbefore := before_of_le hg (hle _ hlast _ hhead) hne hx hy
  have hp' := periodOf?_eq (List.getElem_mem (by omega)) hlast
  have hq' := periodOf?_eq (List.getElem_mem hi) hhead
  exact ⟨x, hp'.trans hx, y, hq'.trans hy, hbefore⟩

theorem pairwise_periodOf?_group (hg : g.IsDated)
    (h : as.Pairwise fun a b => a.date ≤ b.date) :
    ((g.group as).map g.periodOf?).Pairwise Earlier :=
  (isChain_periodOf?_group hg h).pairwise

theorem nodup_periodOf?_group (hg : g.IsDated)
    (h : as.Pairwise fun a b => a.date ≤ b.date) :
    ((g.group as).map g.periodOf?).Nodup :=
  (pairwise_periodOf?_group hg h).imp fun hearlier => hearlier.ne

theorem mem_map_periodOf?_group {x : Option Period} :
    x ∈ (g.group as).map g.periodOf? ↔ x ∈ as.map fun a => g.period? a.date := by
  constructor
  · intro hx
    obtain ⟨p, hp, rfl⟩ := List.mem_map.1 hx
    obtain ⟨a, ha⟩ := List.exists_mem_of_ne_nil p (ne_nil_of_mem_group hp)
    rw [periodOf?_eq hp ha]
    refine List.mem_map.2 ⟨a, ?_, rfl⟩
    rw [← flatten_group g as]
    exact List.mem_flatten_of_mem hp ha
  · intro hx
    obtain ⟨a, ha, rfl⟩ := List.mem_map.1 hx
    rw [← flatten_group g as] at ha
    obtain ⟨p, hp, ha⟩ := List.mem_flatten.1 ha
    exact List.mem_map.2 ⟨p, hp, periodOf?_eq hp ha⟩

theorem length_group (hg : g.IsDated) (h : as.Pairwise fun a b => a.date ≤ b.date) :
    (g.group as).length = (as.map fun a => g.period? a.date).dedup.length := by
  have hnodup := nodup_periodOf?_group hg h
  have hperm := (List.perm_ext_iff_of_nodup hnodup (List.nodup_dedup _)).2 fun x => by
    rw [mem_map_periodOf?_group, List.mem_dedup]
  have hlength := hperm.length_eq
  rw [List.length_map] at hlength
  exact hlength

theorem index_eq_iff (hg : g.IsDated) (h : as.Pairwise fun a b => a.date ≤ b.date)
    {q : Process} {i j : Nat} (hp : (g.group as)[i]? = some p) (hq : (g.group as)[j]? = some q)
    {a b : Appearance} (ha : a ∈ p) (hb : b ∈ q) : i = j ↔ g.SamePeriod a.date b.date := by
  rw [← period?_eq_iff hg, ← periodOf?_eq (List.mem_of_getElem? hp) ha,
    ← periodOf?_eq (List.mem_of_getElem? hq) hb]
  constructor
  · rintro rfl
    rw [hp] at hq
    cases hq
    rfl
  · intro heq
    have hi : i < ((g.group as).map g.periodOf?).length := by
      rw [List.length_map]
      exact (List.getElem?_eq_some_iff.1 hp).1
    refine (List.getElem?_inj hi (nodup_periodOf?_group hg h)).1 ?_
    rw [List.getElem?_map, List.getElem?_map, hp, hq, Option.map_some, Option.map_some, heq]

/-! ## Processes -/

/-- Each period in which something appears has a process of its own, and the processes
come in the order of their periods. -/
structure ByPeriod (g : Granularity) (as : List Appearance) (ps : List Process) : Prop where
  together : ∀ (i j : Nat) (p q : Process), ps[i]? = some p → ps[j]? = some q →
    ∀ a ∈ p, ∀ b ∈ q, (i = j ↔ g.SamePeriod a.date b.date)
  increasing : ps.Pairwise fun p q =>
    ∀ a ∈ p, ∀ b ∈ q, Earlier (g.period? a.date) (g.period? b.date)
  length : ps.length = (as.map fun a => g.period? a.date).dedup.length

/-- The processes hold what appears, all of it and in its order. -/
structure Divides (g : Granularity) (as : List Appearance) (ps : List Process) : Prop where
  flatten : ps.flatten = as
  nonempty : ∀ p ∈ ps, p ≠ []
  alone : g = issues → ∀ p ∈ ps, p.length = 1
  byPeriod : g ≠ issues → g.ByPeriod as ps

theorem byPeriod_group (hg : g.IsDated) (h : as.Pairwise fun a b => a.date ≤ b.date) :
    g.ByPeriod as (g.group as) where
  together := fun _ _ _ _ hp hq _ ha _ hb => index_eq_iff hg h hp hq ha hb
  increasing := by
    refine (List.pairwise_map.1 (pairwise_periodOf?_group hg h)).imp_of_mem ?_
    intro p q hp hq hearlier a ha b hb
    rw [periodOf?_eq hp ha, periodOf?_eq hq hb] at hearlier
    exact hearlier
  length := length_group hg h

theorem divides_group (hg : g ≠ asImported) (h : as.Pairwise fun a b => a.date ≤ b.date) :
    g.Divides as (g.group as) where
  flatten := flatten_group g as
  nonempty := fun _ hp => ne_nil_of_mem_group hp
  alone := fun hissues _ hp => length_of_mem_group (fun hdated => hdated.1 hissues) hp
  byPeriod := fun hissues => byPeriod_group ⟨hissues, hg⟩ h

end Granularity
end PressCalendar
