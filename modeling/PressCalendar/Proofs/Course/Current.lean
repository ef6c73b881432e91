/-
Processes that still describe their course.

A course carries the processes of a split and those of the document it was read
from.  Both are `Current` as long as nothing has changed that they depend on.  The
changes an editor makes to a course are listed by `Edited`, and `Current.edited` says
that each of them leaves current processes or none.
-/
import Mathlib.Data.List.InsertIdx
import PressCalendar.Proofs.Course.Appearances

namespace PressCalendar
namespace Course

/-- The processes of a course, if it has any, are those that it was read with or the
ones of a partition of it as it is now.  The imported ones lie within its complete
blocks, and it has no others then. -/
structure Current (c : Course) : Prop where
  derived : c.processes = [] ∨ c.imported = some c.processes ∨
    ∃ g, g ≠ .asImported ∧ c.partition g = .ok c.processes
  imported : ∀ ps ∈ c.imported, ∀ p ∈ ps, c.Contains p
  complete : c.imported.isSome = true → ∀ b ∈ c.blocks, b.isComplete = true

theorem Current.contains {c : Course} (h : c.Current) : ∀ p ∈ c.processes, c.Contains p := by
  intro p hp
  rcases h.derived with hnone | himported | ⟨g, hg, hpartition⟩
  · rw [hnone] at hp
    exact absurd hp List.not_mem_nil
  · exact h.imported c.processes himported p hp
  · exact contains_of_partition hg hpartition p hp

theorem partition_congr {c d : Course} (happearances : d.appearances = c.appearances)
    (himported : d.imported = c.imported) (g : Granularity) : d.partition g = c.partition g := by
  unfold partition
  rw [happearances, himported]

/-- Processes stay current as long as no complete block is lost and nothing else
appears. -/
theorem Current.of_blocks {c d : Course} (h : c.Current) (hprocesses : d.processes = c.processes)
    (himported : d.imported = c.imported) (happearances : d.appearances = c.appearances)
    (hsub : ∀ b ∈ d.blocks, b ∈ c.blocks)
    (hkept : ∀ b ∈ c.blocks, b.isComplete = true → b ∈ d.blocks) : d.Current := by
  refine ⟨?_, ?_, ?_⟩
  · rw [hprocesses, himported]
    simp only [partition_congr happearances himported]
    exact h.derived
  · intro ps hps p hp a ha
    rw [himported] at hps
    obtain ⟨b, hb, hcomplete, hcovers⟩ := h.imported ps hps p hp a ha
    exact ⟨b, hkept b hb hcomplete, hcomplete, hcovers⟩
  · intro hsome b hb
    rw [himported] at hsome
    exact h.complete hsome b (hsub b hb)

theorem Current.newBlock {c : Course} (h : c.Current) : c.newBlock.2.Current :=
  h.of_blocks rfl rfl rfl (fun _ hb => hb) fun _ hb _ => hb

/-- A block that is not complete can be dropped, since nothing appears in it. -/
theorem Current.drop {c d : Course} {b : Block} {id : Nat} (h : c.Current)
    (hremove : c.remove? id = some (b, d)) (hb : b.isComplete = false) : d.Current := by
  obtain ⟨front, back, hblocks, -, rfl⟩ := remove?_cases hremove
  refine h.of_blocks rfl rfl ?_ ?_ ?_
  · simp only [appearances, hblocks, List.flatMap_append, List.flatMap_cons,
      Block.appearances_of_not_isComplete hb, List.nil_append]
  · intro x hx
    rw [hblocks]
    rcases List.mem_append.1 hx with hx | hx
    · exact List.mem_append_left _ hx
    · exact List.mem_append_right _ (List.mem_cons_of_mem b hx)
  · intro x hx hcomplete
    rw [hblocks] at hx
    rcases List.mem_append.1 hx with hx | hx
    · exact List.mem_append_left _ hx
    · rcases List.mem_cons.1 hx with rfl | hx
      · rw [hb] at hcomplete
        exact absurd hcomplete (by simp)
      · exact List.mem_append_right _ hx

theorem current_forgotten (c : Course) : c.clearProcesses.forgetImported.Current where
  derived := .inl rfl
  imported := by simp [forgetImported]
  complete := by simp [forgetImported]

theorem Current.split {c d : Course} {g : Granularity} (h : c.Current)
    (hsplit : c.split g = .ok d) : d.Current := by
  obtain ⟨ps, hp, rfl⟩ := split_cases hsplit
  refine ⟨?_, h.imported, h.complete⟩
  obtain ⟨-, ⟨-, himported⟩ | ⟨hg, -⟩⟩ := partition_cases hp
  · exact .inr (.inl himported)
  · exact .inr (.inr ⟨g, hg, hp⟩)

/-! ## Courses that were read -/

/-- A course made of the blocks of a document, without its processes. -/
structure Plain (c : Course) : Prop extends Sound c where
  complete : ∀ b ∈ c.blocks, b.isComplete = true
  unsplit : c.processes = []
  unread : c.imported = none

theorem plain_empty : empty.Plain := ⟨sound_empty, by simp [empty], rfl, rfl⟩

theorem Plain.addElement {c changed : Course} {e : BlockElement} (hc : c.Plain)
    (h : c.addElement e = .ok changed) : changed.Plain := by
  have hsound := hc.toSound.addElement h
  obtain ⟨b, id, hb, hadd⟩ := addElement_cases h
  obtain ⟨_, -, hok⟩ := bind_eq_ok.1 (show Block.withPeriod _ e.first e.last = .ok b from hb)
  cases hok
  obtain ⟨_, _, _, -, -, -, -, -, rfl⟩ := add_cases hc.toSound.newBlock.numbered hadd
  refine ⟨hsound, ?_, hc.unsplit, hc.unread⟩
  intro x hx
  rcases List.eq_or_mem_of_mem_insertIdx hx with rfl | hx
  · rfl
  · exact hc.complete x hx

theorem plain_of_foldlM {elements : List BlockElement} {plain : Course}
    (h : elements.foldlM Course.addElement empty = .ok plain) : plain.Plain :=
  foldlM_invariant (fun _ _ _ _ hc hadd => Plain.addElement hc hadd) plain_empty h

/-- Nothing that was read is unfinished. -/
theorem complete_of_ofXml {text : String} {c : Course} (h : ofXml text = .ok c) :
    ∀ b ∈ c.blocks, b.isComplete = true := by
  obtain ⟨d, -, hdocument⟩ := ofXml_eq_ok.1 h
  obtain ⟨plain, hfold, -, rfl⟩ := ofDocument_eq_ok.1 hdocument
  split
  · exact (plain_of_foldlM hfold).complete
  · exact (plain_of_foldlM hfold).complete

/-- A document without processes has no imported ones. -/
theorem imported_ne_of_ofXml {text : String} {c : Course} (h : ofXml text = .ok c) :
    c.imported ≠ some [] := by
  obtain ⟨d, -, hdocument⟩ := ofXml_eq_ok.1 h
  obtain ⟨plain, hfold, -, rfl⟩ := ofDocument_eq_ok.1 hdocument
  split
  · rw [(plain_of_foldlM hfold).unread]
    simp
  · case isFalse hsplit => simpa [withImported] using hsplit

theorem current_of_ofDocument {d : CourseDocument} {c : Course} (h : ofDocument d = .ok c) :
    c.Current := by
  obtain ⟨plain, hfold, hcheck, rfl⟩ := ofDocument_eq_ok.1 h
  have hplain := plain_of_foldlM hfold
  split
  · exact ⟨.inl hplain.unsplit, by simp [hplain.unread], by simp [hplain.unread]⟩
  · refine ⟨.inr (.inl rfl), ?_, fun _ => hplain.complete⟩
    intro ps hps p hp a ha
    cases hps
    have hblock := (checkProcess_eq_ok.1 (hcheck p hp)).2 a ha
    obtain ⟨b, hb, hcovers⟩ := (blockOn?_isSome_iff hplain.toInOrder).1 hblock
    exact ⟨b, hb, hplain.complete b hb, hcovers⟩

/-! ## What an editor does -/

/-- The changes that an editor makes to its course.  Nearly all of them end by
dropping the processes; the others are the ones that leave them right. -/
inductive Edited (c : Course) : Course → Prop
  | same : Edited c c
  | drawn : Edited c c.newBlock.2
  | dropped {d : Course} {b : Block} {id : Nat} (h : c.remove? id = some (b, d))
    (hb : b.isComplete = false) : Edited c d
  | touched {d : Course} (h : c.Reachable → d.Reachable) :
    Edited c d.clearProcesses.forgetImported
  | read {d : Course} {text : String} (h : ofXml text = .ok d) : Edited c d
  | split {d : Course} {g : Granularity} (h : c.split g = .ok d) : Edited c d

theorem Edited.reachable {c d : Course} (h : Edited c d) (hc : c.Reachable) : d.Reachable := by
  cases h with
  | same => exact hc
  | drawn => exact hc.asked .newBlock rfl rfl
  | @dropped d b id h hb => exact hc.asked (.remove id) rfl (by simp only [perform, h])
  | touched h =>
    have hcleared := (h hc).asked .clearProcesses rfl rfl
    exact hcleared.asked .forgetImported rfl rfl
  | read h => exact .read h
  | @split d g h => exact hc.asked (.split g) rfl (by simp only [perform, h])

theorem Current.edited {c d : Course} (hc : c.Current) (h : Edited c d) : d.Current := by
  cases h with
  | same => exact hc
  | drawn => exact hc.newBlock
  | dropped h hb => exact hc.drop h hb
  | touched h => exact current_forgotten _
  | read h =>
    obtain ⟨document, -, hdocument⟩ := ofXml_eq_ok.1 h
    exact current_of_ofDocument hdocument
  | split h => exact hc.split h

end Course
end PressCalendar
