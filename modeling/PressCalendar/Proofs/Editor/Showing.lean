/-
The block that is being edited, and the year on the sheet.

An editor names the block being edited by its number, while blocks come and go and change
their places; that the number is always that of a block is `Shows`.  The displayed year
moves into the range of the block whenever another block comes up or its dates change:
`Turned` is what such a request leaves, and `Turned.nearest` says where the year is then.
-/
import PressCalendar.Proofs.Course.Redating
import PressCalendar.Proofs.Editor.Caches
import PressCalendar.Proofs.Editor.Failure

namespace PressCalendar

theorem Date.year_le {a b : Date} (h : a ≤ b) : a.year ≤ b.year := by
  by_contra hlt
  exact Date.not_lt.2 h (Date.lt_iff.2 (Or.inl (by omega)))

namespace Editor

variable {e after : Editor}

/-! ## What is shown -/

/-- No block is being edited, or a block of the course. -/
def Shows (e : Editor) : Prop := ∀ id ∈ e.showing, ∃ b ∈ e.course.blocks, b.id = id

/-- The displayed year is the year of the block being edited that is nearest to a given
one. -/
def Nearest (e : Editor) (year : Int) : Prop :=
  ∃ b first last, e.showingBlock? = some b ∧ b.span? = some (first, last) ∧
    (first.year ≤ e.year ∧ e.year ≤ last.year) ∧
    ∀ other, first.year ≤ other → other ≤ last.year → other ≠ e.year →
      (e.year - year).natAbs < (other - year).natAbs

/-- What an editor of a session always has. -/
structure Sound (e : Editor) : Prop where
  reachable : e.course.Reachable
  shows : e.Shows

theorem Sound.valid (h : e.Sound) : e.course.Valid :=
  (Course.sound_of_reachable h.reachable).toValid

theorem Sound.exists_showing (h : e.Sound) {id : Nat} (hid : e.showing = some id) :
    ∃ b ∈ e.course.blocks, b.id = id ∧ e.course.block? id = some b ∧
      e.showingBlock? = some b := by
  obtain ⟨b, hb, rfl⟩ := h.shows id hid
  have hblock := h.valid.block?_of_mem hb
  refine ⟨b, hb, rfl, hblock, ?_⟩
  rw [showingBlock?, hid]
  exact hblock

/-- The displayed year has moved from where it was to the block now being edited. -/
def Turned (e after : Editor) : Prop :=
  ∃ m : Editor, m.year = e.year ∧ m.showingBlock?.isSome = true ∧
    (after = m.navigate ∨ after = m.navigate.touch)

/-- No block has come or gone, and the same one is being edited. -/
def Steady (e after : Editor) : Prop :=
  after.showing = e.showing ∧
    after.course.blocks.map Block.id = e.course.blocks.map Block.id

theorem Steady.refl (e : Editor) : e.Steady e := ⟨rfl, rfl⟩

theorem Steady.shows (h : e.Steady after) (he : e.Shows) : after.Shows := by
  intro id hid
  rw [h.1] at hid
  obtain ⟨b, hb, hbid⟩ := he id hid
  have hmem : id ∈ after.course.blocks.map Block.id := by
    rw [h.2]
    exact List.mem_map.2 ⟨b, hb, hbid⟩
  obtain ⟨b', hb', hid'⟩ := List.mem_map.1 hmem
  exact ⟨b', hb', hid'⟩

theorem Drawn.shows (h : e.Drawn after) (he : e.Shows) : after.Shows := by
  obtain ⟨lastId, -, rfl⟩ := h
  exact he

theorem showingBlock?_congr {m : Editor} (hshowing : after.showing = m.showing)
    (hblocks : after.course.blocks = m.course.blocks) :
    after.showingBlock? = m.showingBlock? := by
  have hfind : after.course.block? = m.course.block? := by
    funext id
    rw [Course.block?, Course.block?, hblocks]
  rw [showingBlock?, showingBlock?, hshowing, hfind]

theorem showingBlock?_navigate (m : Editor) : m.navigate.showingBlock? = m.showingBlock? :=
  showingBlock?_congr (showing_navigate m) (by rw [course_navigate])

theorem showingBlock?_touch (m : Editor) : m.touch.showingBlock? = m.showingBlock? :=
  showingBlock?_congr rfl rfl

theorem Turned.exists_eq (h : e.Turned after) :
    ∃ m : Editor, m.year = e.year ∧ m.showingBlock?.isSome = true ∧
      after.showingBlock? = m.showingBlock? ∧ after.year = m.navigate.year ∧
      after.showing = m.showing := by
  obtain ⟨m, hyear, hshown, rfl | rfl⟩ := h
  · exact ⟨m, hyear, hshown, showingBlock?_navigate m, rfl, showing_navigate m⟩
  · refine ⟨m, hyear, hshown, ?_, rfl, showing_navigate m⟩
    rw [showingBlock?_touch, showingBlock?_navigate]

theorem Turned.exists_showing (h : e.Turned after) :
    ∃ b, after.showingBlock? = some b ∧ after.showing = some b.id := by
  obtain ⟨m, -, hshown, heq, -, hshowing⟩ := h.exists_eq
  obtain ⟨b, hb⟩ := Option.isSome_iff_exists.1 hshown
  obtain ⟨id, hid, hblock⟩ := Option.bind_eq_some_iff.1 hb
  have hbid := Course.id_of_block? hblock
  exact ⟨b, heq.trans hb, hshowing.trans (hbid ▸ hid)⟩

theorem Turned.shows (h : e.Turned after) : after.Shows := by
  obtain ⟨b, hb, hshowing⟩ := h.exists_showing
  intro id hid
  obtain ⟨id', -, hblock⟩ := Option.bind_eq_some_iff.1 hb
  rw [hshowing] at hid
  cases hid
  exact ⟨b, Course.mem_of_block? hblock, rfl⟩

theorem year_navigate {m : Editor} {b : Block} {first last : Date}
    (hb : m.showingBlock? = some b) (hspan : b.span? = some (first, last)) :
    m.navigate.year = nearestYear first last m.year := by
  have hrange : m.showingBlock?.bind Block.span? = some (first, last) := by
    rw [hb]
    exact hspan
  rw [navigate, hrange]

theorem exists_span {b : Block} (h : e.course.Valid) (hb : e.showingBlock? = some b) :
    ∃ first last, b.span? = some (first, last) ∧ first ≤ last := by
  obtain ⟨id, -, hblock⟩ := Option.bind_eq_some_iff.1 hb
  exact h.span (Course.mem_of_block? hblock)

/-- Of all the years of the range none is as near. -/
theorem Turned.nearest (h : e.Turned after) (hvalid : after.course.Valid) :
    after.Nearest e.year := by
  obtain ⟨m, hyear, hshown, heq, hafter, -⟩ := h.exists_eq
  obtain ⟨b, hb⟩ := Option.isSome_iff_exists.1 hshown
  have hb' := heq.trans hb
  obtain ⟨first, last, hspan, hle⟩ := exists_span hvalid hb'
  have hyears := Date.year_le hle
  rw [year_navigate hb hspan, nearestYear, hyear] at hafter
  refine ⟨b, first, last, hb', hspan, by omega, ?_⟩
  intro other hfirst hlast hne
  omega

end Editor
end PressCalendar
