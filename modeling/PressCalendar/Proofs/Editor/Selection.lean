/-
What a whole session keeps: the block being edited is there, and the displayed year
belongs to it.

`Promise` says of every request what it leaves when it succeeds, and `ends_perform` is the
one case analysis over the requests.  `sound_of_reachable` follows from it by induction on
the session, and `selection_and_year` is the whole of it.
-/
import PressCalendar.Proofs.Editor.Promise

namespace PressCalendar
namespace Editor

open Error (BlockFound)

variable {e : Editor}

/-- The requests about the block being edited rather than one that is named. -/
def Concerns (e : Editor) : Request → Prop
  | .selectBlock id => e.showing = some id
  | .selectNumber _ => False
  | .selectIssue id _ _ => e.showing = some id
  | .unselectIssue id _ _ => e.showing = some id
  | .toggleIssue id _ _ => e.showing = some id
  | _ => True

/-- What a request leaves if it succeeds. -/
def Promise (e : Editor) (r : Request) (after : Editor) : Prop :=
  match r with
  | .selectBlock id => (e.showing = some id ∧ after = e) ∨ e.Turned after
  | .selectNumber _ => after = e ∨ e.Turned after
  | .neglect => e.Steady after ∨ after.showing = none
  | .startNewBlock => after.showing = none
  | .setFirst _ => after = e ∨ e.Turned after
  | .setLast _ => after = e ∨ e.Turned after
  | .setPeriod _ _ => e.Turned after
  | .copyBlock => e.Turned after
  | .removeBlock => e.Turned after ∨ after.showing = none ∧ after.course.blocks = []
  | .upload _ => e.Turned after ∨ after.showing = none ∧ after.course.blocks = []
  | _ => e.Steady after

/-- Every request keeps its promise, or fails and leaves everything in place; the block
being edited is never missed. -/
theorem ends_perform (h : e.Sound) (r : Request) :
    Edit.Ends e (fun cause => e.Concerns r → cause.BlockFound) (e.Promise r) (e.outcome r)
      (e.perform r) := by
  have hfound : ∀ cause : Error, cause.BlockFound → e.Concerns r → cause.BlockFound :=
    fun _ hcause _ => hcause
  have hatomic := atomic_edit r e
  cases r with
  | selectBlock number => exact (Edit.leaves_selectBlock h number).ends hatomic fun _ => id
  | selectNumber number =>
    exact (Edit.leaves_selectNumber h number).ends hatomic fun _ _ hnever => hnever.elim
  | neglect => exact Edit.leaves_neglect.ends hatomic hfound
  | startNewBlock => exact Edit.leaves_startNewBlock.ends hatomic hfound
  | readDate input field =>
    refine Edit.Leaves.ends (.ask (.refl e) ?_) hatomic hfound
    intro cause hfail
    exact TypedDate.blockFound_of_read (error_of_bind hfail fun _ => rfl)
  | setFirst input =>
    exact (Edit.leaves_setDate h .firstAppearance Block.first .first input).ends hatomic hfound
  | setLast input =>
    exact (Edit.leaves_setDate h .lastAppearance Block.last .last input).ends hatomic hfound
  | setPeriod firstInput lastInput =>
    exact (Edit.leaves_setPeriod h firstInput lastInput).ends hatomic hfound
  | copyBlock => exact (Edit.leaves_copyBlock h).ends hatomic hfound
  | removeBlock => exact (Edit.leaves_removeBlock h).ends hatomic hfound
  | addIssue heading => exact (Edit.leaves_addIssue h heading).ends hatomic hfound
  | removeIssue index => exact (Edit.leaves_removeIssue h index).ends hatomic hfound
  | setHeading index heading => exact (Edit.leaves_changeIssue h index _).ends hatomic hfound
  | setRegular index day appears => exact (Edit.leaves_changeIssue h index _).ends hatomic hfound
  | selectIssue number index date =>
    exact (Edit.leaves_changeIssueOn h number index date (·.select date)).ends hatomic fun _ => id
  | unselectIssue number index date =>
    exact (Edit.leaves_changeIssueOn h number index date (·.unselect date)).ends hatomic fun _ => id
  | toggleIssue number index date =>
    exact (Edit.leaves_toggleIssue h number index date).ends hatomic fun _ => id
  | setYear year => exact Edit.Leaves.ends (.update ⟨rfl, rfl⟩) hatomic hfound
  | previousYear => exact Edit.Leaves.ends (.update ⟨rfl, rfl⟩) hatomic hfound
  | nextYear => exact Edit.Leaves.ends (.update ⟨rfl, rfl⟩) hatomic hfound
  | upload xml => exact (Edit.leaves_upload xml).ends hatomic hfound
  | download => exact Edit.leaves_download.ends hatomic hfound
  | checkReady =>
    exact Edit.Leaves.ends (.ask (.refl e) fun _ => Edit.blockFound_of_checkReady) hatomic hfound
  | split g => exact (Edit.leaves_split g).ends hatomic hfound

theorem shows_of_promise {r : Request} {after : Editor} (h : e.Sound) (hr : e.Promise r after) :
    after.Shows := by
  have hnone : after.showing = none → after.Shows := by
    intro hshowing id hid
    rw [hshowing] at hid
    cases hid
  have hsame : after = e → after.Shows := fun heq => heq ▸ h.shows
  cases r with
  | selectBlock number => exact hr.elim (fun hkept => hsame hkept.2) Turned.shows
  | selectNumber number => exact hr.elim hsame Turned.shows
  | neglect => exact hr.elim (fun hsteady => hsteady.shows h.shows) hnone
  | startNewBlock => exact hnone hr
  | setFirst input => exact hr.elim hsame Turned.shows
  | setLast input => exact hr.elim hsame Turned.shows
  | setPeriod firstInput lastInput => exact Turned.shows hr
  | copyBlock => exact Turned.shows hr
  | removeBlock => exact hr.elim Turned.shows fun hempty => hnone hempty.1
  | upload xml => exact hr.elim Turned.shows fun hempty => hnone hempty.1
  | _ => exact Steady.shows hr h.shows

theorem Sound.perform (h : e.Sound) (r : Request) : (e.perform r).Sound := by
  refine ⟨(edited_perform e r).reachable h.reachable, ?_⟩
  cases ends_perform h r with
  | ok _ hpromise => exact shows_of_promise h hpromise
  | error _ _ hdrawn => exact hdrawn.shows h.shows

theorem sound_ofCourse {c : Course} (hc : c.Reachable) (preferences : Preferences)
    (today : Date) : (ofCourse c preferences today).Sound := by
  have hvalid := (Course.sound_of_reachable hc).toValid
  refine ⟨(course_ofCourse c preferences today).symm ▸ hc, ?_⟩
  rcases Edit.turned_load (blank preferences today) hvalid with hturned | ⟨hnone, -⟩
  · exact hturned.shows
  · intro id hid
    rw [ofCourse, hnone] at hid
    cases hid

theorem sound_of_reachable (h : e.Reachable) : e.Sound := by
  induction h with
  | blank preferences today =>
    refine ⟨.empty, ?_⟩
    intro id hid
    cases hid
  | opened hread preferences today => exact sound_ofCourse (.read hread) preferences today
  | perform _ r ih => exact ih.perform r

/-! ## The displayed year -/

/-- The requests with which another block comes up or the dates of the block change. -/
def Turns (e : Editor) (r : Request) : Prop :=
  match r with
  | .selectBlock id => e.showing ≠ some id
  | .selectNumber _ => (e.perform r).showing ≠ e.showing
  | .setFirst _ => (e.perform r).showingBlock? ≠ e.showingBlock?
  | .setLast _ => (e.perform r).showingBlock? ≠ e.showingBlock?
  | .setPeriod _ _ => (e.perform r).showingBlock? ≠ e.showingBlock?
  | .copyBlock => True
  | .removeBlock => (e.perform r).course.blocks ≠ []
  | .upload _ => (e.perform r).course.blocks ≠ []
  | _ => False

theorem turned_of_turns {r : Request} (h : e.Sound) (hok : e.outcome r = .ok ())
    (hturns : e.Turns r) : e.Turned (e.perform r) := by
  cases ends_perform h r with
  | error herror _ _ =>
    rw [hok] at herror
    cases herror
  | ok _ hpromise =>
    cases r with
    | selectBlock number => exact hpromise.resolve_left fun hkept => hturns hkept.1
    | selectNumber number =>
      exact hpromise.resolve_left fun hsame => hturns (congrArg Editor.showing hsame)
    | setFirst input =>
      exact hpromise.resolve_left fun hsame => hturns (congrArg Editor.showingBlock? hsame)
    | setLast input =>
      exact hpromise.resolve_left fun hsame => hturns (congrArg Editor.showingBlock? hsame)
    | setPeriod firstInput lastInput => exact hpromise
    | copyBlock => exact hpromise
    | removeBlock => exact hpromise.resolve_right fun hempty => hturns hempty.2
    | upload xml => exact hpromise.resolve_right fun hempty => hturns hempty.2
    | _ => exact hturns.elim

/-- An editor that was left by moving the displayed year was moved within a range that
is not empty. -/
theorem years_of_navigate {m : Editor} (h : e.course.Valid)
    (hm : m.navigate = e ∨ m.navigate.touch = e) {first last : Date}
    (hspan : m.showingBlock?.bind Block.span? = some (first, last)) : first.year ≤ last.year := by
  have hshown : m.showingBlock? = e.showingBlock? := by
    rcases hm with rfl | rfl
    · rw [showingBlock?_navigate]
    · rw [showingBlock?_touch, showingBlock?_navigate]
  obtain ⟨b, hb, hspan⟩ := Option.bind_eq_some_iff.1 hspan
  obtain ⟨_, _, hspan', hle⟩ := exists_span h (hshown ▸ hb)
  cases hspan.symm.trans hspan'
  exact Date.year_le hle

/-- In every editor of a session the block being edited is a block of the course, if there
is one.  Requests about it never fail because it is missing, and the range of years to
which the displayed one is confined is never empty.  With each request that brings up a
block or changes its dates the displayed year becomes the nearest one in the range of that
block, and so it does when a course is opened.  When one of several blocks is removed, the
one in front of it comes up, or the second one in place of the first. -/
theorem selection_and_year :
    (∀ e : Editor, e.Reachable →
      e.Shows ∧
      (∀ r cause, e.Concerns r → e.outcome r = .error cause → ∀ n, cause ≠ .unknownBlock n) ∧
      (∀ m : Editor, m.navigate = e ∨ m.navigate.touch = e → ∀ first last,
        m.showingBlock?.bind Block.span? = some (first, last) → first.year ≤ last.year) ∧
      (∀ r, e.outcome r = .ok () → e.Turns r → (e.perform r).Nearest e.year) ∧
      ∀ i b, e.course.blocks[i]? = some b → e.showing = some b.id →
        2 ≤ e.course.blocks.length → e.outcome .removeBlock = .ok () ∧ ∃ neighbour,
          e.course.blocks[if i = 0 then 1 else i - 1]? = some neighbour ∧
          (e.perform .removeBlock).showingBlock? = some neighbour) ∧
    ∀ text c preferences today, Course.ofXml text = .ok c → c.blocks ≠ [] →
      (ofCourse c preferences today).Nearest today.year := by
  constructor
  · intro e he
    have h := sound_of_reachable he
    refine ⟨h.shows, ?_, ?_, ?_, ?_⟩
    · intro r cause hconcerns herror
      cases ends_perform h r with
      | ok hok _ =>
        rw [herror] at hok
        cases hok
      | error hfail hfound _ =>
        rw [herror] at hfail
        cases hfail
        exact hfound hconcerns
    · intro m hm first last hspan
      exact years_of_navigate h.valid hm hspan
    · intro r hok hturns
      exact (turned_of_turns h hok hturns).nearest (h.perform r).valid
    · intro i b hb hshowing hlength
      obtain ⟨m, neighbour, hrun, -, hshown, hneighbour⟩ :=
        Edit.exists_removed h hb hshowing hlength
      have hafter : e.perform .removeBlock = m.navigate.touch := congrArg Prod.snd hrun
      have houtcome : e.outcome .removeBlock = .ok () :=
        congrArg (fun answer => answer.1.map fun _ => ()) hrun
      refine ⟨houtcome, neighbour, hneighbour, ?_⟩
      rw [hafter, showingBlock?_touch, showingBlock?_navigate, hshown]
  · intro text c preferences today hread hne
    have hsound := sound_ofCourse (.read hread) preferences today
    have hvalid := (Course.sound_of_reachable (.read hread)).toValid
    rcases Edit.turned_load (blank preferences today) hvalid with hturned | ⟨-, hempty⟩
    · exact hturned.nearest hsound.valid
    · rw [course_load] at hempty
      exact absurd hempty hne

/-- A session that is back at the first of two blocks. -/
def returned : Editor :=
  [.setPeriod "1.1.1850" "31.12.1850", .startNewBlock, .setPeriod "1.7.1860" "30.6.1862",
    .selectNumber 1].foldl perform (blank .standard ⟨2024, 6, 5, by decide⟩)

theorem selection_and_year_returned :
    returned.Reachable ∧ returned.Shows ∧ returned.showing = some 1 ∧ returned.year = 1850 ∧
      (returned.outcome (.setFirst "1.1.1861") = .error (.invalidRange
        "first appearance 01.01.1861 is after last appearance 31.12.1850") ∧
        ∀ n, Error.invalidRange
          "first appearance 01.01.1861 is after last appearance 31.12.1850" ≠ .unknownBlock n) ∧
      (∀ first last, returned.showingBlock?.bind Block.span? = some (first, last) →
        first.year ≤ last.year) ∧
      ((returned.perform .removeBlock).Nearest returned.year ∧
        (returned.perform .removeBlock).year = 1860) ∧
      (∃ neighbour, returned.course.blocks[1]? = some neighbour ∧
        (returned.perform .removeBlock).showingBlock? = some neighbour) ∧
      (ofCourse returned.course.exchanged .standard ⟨2024, 6, 5, by decide⟩).Nearest 2024 := by
  have hreach : returned.Reachable := (Reachable.blank _ _).foldl _
  obtain ⟨hall, hopened⟩ := selection_and_year
  obtain ⟨hshows, hfound, hyears, hnearest, hremoved⟩ := hall returned hreach
  have hrefused : returned.outcome (.setFirst "1.1.1861") = .error (.invalidRange
      "first appearance 01.01.1861 is after last appearance 31.12.1850") := by decide +kernel
  have hshowing : returned.showing = some 1 := by decide +kernel
  have hfirst : returned.course.blocks[0]?.map Block.id = some 1 := by decide +kernel
  obtain ⟨b, hb, hid⟩ := Option.map_eq_some_iff.1 hfirst
  obtain ⟨hok, hneighbour⟩ := hremoved 0 b hb (hid ▸ hshowing) (by decide +kernel)
  obtain ⟨hcourse, hcurrent⟩ := current_of_reachable hreach
  have hread := (Course.ofXml_toXml_eq_ok (Course.sound_of_reachable hcourse)).2
    ⟨hcurrent.contains, rfl⟩
  have hleft : (returned.perform .removeBlock).course.blocks ≠ [] := by decide +kernel
  exact ⟨hreach, hshows, hshowing, by decide +kernel,
    ⟨hrefused, hfound (.setFirst "1.1.1861") _ trivial hrefused⟩,
    hyears returned (Or.inl (by decide +kernel)),
    ⟨hnearest .removeBlock hok hleft, by decide +kernel⟩, hneighbour,
    hopened _ _ _ _ hread (by decide +kernel)⟩

end Editor
end PressCalendar
