/-
The label of a block, typed back.

The two dates of a label come apart again at the dash between them, and each is read as it was
written.  Giving a block the dates that it has takes it out of the course and puts it back where
it was, so `setPeriod_label` says that the halves of the label of the block being edited are
always accepted as its dates and change nothing about the blocks.
-/
import PressCalendar.Proofs.Date.Displayed
import PressCalendar.Proofs.Editor.Notices

namespace PressCalendar

open Text

/-! ## The halves of a label -/

/-- The dash between two dates is none of the characters of a date. -/
theorem Date.dash_notMem_displayText (d : Date) : '–' ∉ d.displayText := by
  have hnumber : ∀ width n, '–' ∉ padZero width n := by
    intro width n hmem
    exact absurd (List.all_eq_true.1 (all_isDigit_padZero width n) _ hmem) (by decide)
  have hyear : '–' ∉ yearText d.year := by
    unfold yearText
    split
    · exact hnumber _ _
    · split <;> simp [hnumber]
  simp [displayText, hnumber, hyear]

namespace Block

variable {b : Block} {first last : Date} {front back : String}

theorem label_eq (hfirst : b.first = some first) (hlast : b.last = some last) :
    b.label = first.display ++ " – " ++ last.display := by
  rw [label, hfirst, hlast]
  rfl

/-- A label comes apart at its dash in one way only. -/
theorem eq_display_of_label (hfirst : b.first = some first) (hlast : b.last = some last)
    (h : b.label = front ++ " – " ++ back) : front = first.display ∧ back = last.display := by
  have hdash : " – ".toList = [' ', '–', ' '] := by decide
  have hchars : (first.displayText ++ [' ']) ++ '–' :: (' ' :: last.displayText) =
      (front.toList ++ [' ']) ++ '–' :: (' ' :: back.toList) := by
    have heq := congrArg String.toList ((label_eq hfirst hlast).symm.trans h)
    simpa [Date.display, String.toList_append, hdash] using heq
  have hfront : '–' ∉ first.displayText ++ [' '] := by simp [first.dash_notMem_displayText]
  have hback : '–' ∉ ' ' :: last.displayText := by simp [last.dash_notMem_displayText]
  obtain ⟨hleft, -, hright⟩ := (List.append_cons_inj_of_notMem hfront hback).1 hchars
  have hleft := List.append_cancel_right hleft
  have hright := (List.cons.inj hright).2
  rw [Date.display, Date.display, hleft, hright, String.ofList_toList, String.ofList_toList]
  exact ⟨rfl, rfl⟩

/-- Of two blocks with dates only one can end before the other begins. -/
theorem Precedes.asymm {a b : Block} {first last first' last' : Date}
    (ha : a.span? = some (first, last)) (hb : b.span? = some (first', last'))
    (hle : first ≤ last) (hle' : first' ≤ last') (h : a.Precedes b) : ¬b.Precedes a := by
  rw [precedes_iff ha hb] at h
  rw [precedes_iff hb ha]
  simp only [Date.le_def, Date.lt_def] at *
  omega

end Block

/-! ## Dates that a block has already -/

namespace Course

variable {c : Course} {b : Block} {first last : Date} {blocks blocks' : List Block}

/-- Blocks can be in order in one way only. -/
theorem InOrder.eq_of_perm (h : InOrder blocks) (h' : InOrder blocks')
    (hperm : blocks.Perm blocks') : blocks = blocks' := by
  refine List.Perm.eq_of_pairwise ?_ h.ascending h'.ascending hperm
  intro a b ha hb hab hba
  obtain ⟨first, last, hspan, hle⟩ := h.span ha
  obtain ⟨first', last', hspan', hle'⟩ := h'.span hb
  exact absurd hba (hab.asymm hspan hspan' hle hle')

theorem Valid.not_meets_of_others (h : c.Valid) (hb : b ∈ c.blocks) :
    ∀ other ∈ c.others b.id, ¬other.Meets b := by
  intro other hother ⟨date, hcovers, hcovers'⟩
  obtain ⟨hmem, hne⟩ := List.mem_filter.1 hother
  rw [h.eq_of_covers hmem hb hcovers hcovers'] at hne
  exact absurd hne (by simp)

/-- A block that is taken out and put back is where it was. -/
theorem Valid.insertSorted_others (h : c.Valid) (hb : b ∈ c.blocks)
    (hspan : b.span? = some (first, last)) : insertSorted b (c.others b.id) = c.blocks := by
  have hordered := h.ordered b hb
  have hothers := ordered_others h.toInOrder b.id
  have hno := not_overlaps hothers.ordered hordered hspan (h.not_meets_of_others hb)
  obtain ⟨front, back, hblocks⟩ := List.append_of_mem hb
  have hperm : (insertSorted b (c.others b.id)).Perm c.blocks := by
    refine (insertSorted_perm hothers hspan (hordered.span_le hspan) hno).trans ?_
    rw [h.others_eq hblocks, hblocks]
    exact List.perm_middle.symm
  exact (hothers.insertSorted hspan hordered hno).eq_of_perm h.toInOrder hperm

theorem Valid.redate_eq_self (h : c.Valid) (hb : b ∈ c.blocks) {d : Block.Dating}
    (hdated : d.dated b = b) : d.ofCourse c b.id = .ok c := by
  obtain ⟨first, last, hspan, -⟩ := h.span hb
  have hordered := h.ordered b hb
  have hno := not_overlaps (ordered_others h.toInOrder b.id).ordered hordered hspan
    (h.not_meets_of_others hb)
  rw [h.redate_eq hb d (hdated.symm ▸ hspan), hdated, hordered.checked_eq,
    checkOverlap_eq_ok.2 hno]
  show Except.ok { c with blocks := insertSorted b (c.others b.id) } = _
  rw [h.insertSorted_others hb hspan]

end Course

namespace Editor

variable {e : Editor} {b : Block} {first last : Date} {front back : String}

theorem mem_of_showingBlock? (h : e.showingBlock? = some b) :
    e.showing = some b.id ∧ b ∈ e.course.blocks := by
  obtain ⟨id, hshowing, hblock⟩ := Option.bind_eq_some_iff.1 h
  rw [Course.id_of_block? hblock]
  exact ⟨hshowing, Course.mem_of_block? hblock⟩

theorem run_readDate_display (e : Editor) (field : DateField) {d : Date} (hyear : 100 ≤ d.year) :
    (Edit.readDate d.display field).run e = (.ok (d, []), e) := by
  rw [Edit.run_readDate, TypedDate.read_display e.today hyear]
  rfl

/-- A block is given the dates that it has: the editor settles them as it does new ones. -/
theorem run_setPeriod_display (h : e.Sound) (hb : e.showingBlock? = some b)
    (hfirst : b.first = some first) (hlast : b.last = some last) (hyear : 100 ≤ first.year)
    (hyear' : 100 ≤ last.year) : (Edit.setPeriod first.display last.display).run e =
      (.ok (Notice.about e.preferences.earliest e.today b), e.navigate.touch) := by
  obtain ⟨hshowing, hmem⟩ := mem_of_showingBlock? hb
  have hdated : (Block.Dating.period first last).dated b = b := by
    rw [Block.Dating.dated, ← hfirst, ← hlast]
  have hredate := h.valid.redate_eq_self hmem hdated
  have hchange := Edit.run_changeCourse_ok (f := (Block.Dating.ofCourse _ · b.id)) hredate
  refine (run_bind_ok (run_readDate_display e .firstAppearance hyear)).trans ?_
  refine (run_bind_ok (run_readDate_display e .lastAppearance hyear')).trans ?_
  show (Edit.giveDates (.period first last) []).run e = _
  unfold Edit.giveDates
  rw [Edit.run_get_bind, hshowing]
  refine (run_bind_ok hchange).trans ?_
  rw [← implausibilities_eq hb]
  rfl

/-- From the year 100 on every date is read as it is displayed, with no hint and whatever
today is.  So the label of the block being edited, if that has both dates, comes apart into two
halves that are accepted for its dates: no block changes, nor their order, and the same block
is being edited. -/
theorem setPeriod_label (he : e.Reachable) :
    (∀ (today d : Date), 100 ≤ d.year → TypedDate.read today d.display = .ok ⟨d, []⟩) ∧
    ∀ b first last, e.showingBlock? = some b → b.first = some first → b.last = some last →
      100 ≤ first.year → 100 ≤ last.year →
      (∃ front back, b.label = front ++ " – " ++ back) ∧
      ∀ front back, b.label = front ++ " – " ++ back →
        ∃ after, (Edit.setPeriod front back).run e =
            (.ok (Notice.about e.preferences.earliest e.today b), after) ∧
          after.course.blocks = e.course.blocks ∧ after.course.lastId = e.course.lastId ∧
          after.showing = e.showing := by
  refine ⟨fun today d => TypedDate.read_display today, ?_⟩
  intro b first last hb hfirst hlast hyear hyear'
  refine ⟨⟨_, _, Block.label_eq hfirst hlast⟩, ?_⟩
  intro front back hlabel
  obtain ⟨rfl, rfl⟩ := Block.eq_display_of_label hfirst hlast hlabel
  have hrun := run_setPeriod_display (sound_of_reachable he) hb hfirst hlast hyear hyear'
  refine ⟨_, hrun, ?_, ?_, showing_navigate e⟩
  · rw [course_touch, course_navigate]
    rfl
  · rw [course_touch, course_navigate]
    rfl

/-- A session with a block that ends in a year of five digits, and goes on with another
block in front of it. -/
def farFuture : Editor :=
  [.setPeriod "1.3.9999" "1.2.10000", .startNewBlock, .setPeriod "1.1.100" "29.2.104",
    .selectNumber 2].foldl perform (blank .standard ⟨2024, 6, 11, by decide⟩)

theorem setPeriod_label_farFuture :
    farFuture.Reachable ∧
    farFuture.showingBlock?.map Block.label = some "01.03.9999 – 01.02.+10000" ∧
    farFuture.course.blocks.map Block.id = [2, 1] ∧
    ∃ notices after, (Edit.setPeriod "01.03.9999" "01.02.+10000").run farFuture =
        (.ok notices, after) ∧
      after.course.blocks = farFuture.course.blocks := by
  have hreach : farFuture.Reachable := (Reachable.blank _ _).foldl _
  have hlabel : farFuture.showingBlock?.map Block.label = some "01.03.9999 – 01.02.+10000" := by
    decide +kernel
  have hdates : farFuture.showingBlock?.map (fun b => (b.first, b.last)) =
      some (some ⟨9999, 3, 1, by decide⟩, some ⟨10000, 2, 1, by decide⟩) := by decide +kernel
  refine ⟨hreach, hlabel, by decide +kernel, ?_⟩
  obtain ⟨b, hb, hblabel⟩ := Option.map_eq_some_iff.1 hlabel
  rw [hb, Option.map_some, Option.some.injEq, Prod.mk.injEq] at hdates
  obtain ⟨hfirst, hlast⟩ := hdates
  obtain ⟨-, hhalves⟩ := (setPeriod_label hreach).2 b _ _ hb hfirst hlast (by decide) (by decide)
  obtain ⟨after, hrun, hblocks, -⟩ := hhalves "01.03.9999" "01.02.+10000" hblabel
  exact ⟨_, after, hrun, hblocks⟩

end Editor
end PressCalendar
