/-
Notices about a change of dates of a stored course.

An editor that is opened shows the first block.  A command on another one lets that come up
first, with the notices about the dates it has so far, and prints those as well; they are out
of date by then.  `notices_of_dates` says what is printed, and exactly when it may be relied
on: for the first block, for a block about which there was nothing to be noticed, and where
nothing was to be done.
-/
import PressCalendar.Proofs.Command.Dates
import PressCalendar.Proofs.Workspace.Change

namespace PressCalendar
namespace Workspace

open Change (Dates)
open Notice (about Faithful)

variable {w : Workspace} {settings : Settings} {document? : Option String} {today : Date}
  {e : Editor} {t t' : FileTree} {tag : String} {i : Nat} {b : Block}

theorem showing_opened (h : opened settings today document? = .ok e) :
    e.showing = e.course.blocks.head?.map Block.id := by
  cases document? with
  | none =>
    cases h
    rfl
  | some xml =>
    obtain ⟨c, -, hok⟩ := bind_eq_ok.1 h
    cases hok
    rw [Editor.course_ofCourse]
    exact Editor.showing_navigate _

/-- The first block is shown on opening, and no other one. -/
theorem showing_iff (hopened : opened settings today document? = .ok e) (he : e.course.Valid)
    (hb : e.course.blocks[i]? = some b) : e.showing = some b.id ↔ i = 0 := by
  rw [showing_opened hopened, List.head?_eq_getElem?]
  constructor
  · intro h
    obtain ⟨first, hfirst, hid⟩ := Option.map_eq_some_iff.1 h
    have hplace := he.index?_eq hfirst
    rw [hid, he.index?_eq hb] at hplace
    exact Option.some.inj hplace
  · rintro rfl
    rw [hb]
    rfl

/-- A command that changes dates prints the notices about the block as it was, unless it is
the first one; the hints on how the dates were understood; and the notices about the block as
it is stored now, unless it had the only date that was given already.  So they are true of
that block and none is printed twice just if the block is the first one, or there was nothing
to be noticed about it before, or it had the date already. -/
theorem notices_of_dates (hopen : (w.openEditor today : Filing Editor).run t = (.ok e, t))
    (htag : '/' ∉ tag.toList) {number : Nat} {first? last? : Option String} {u : Change.Outcome}
    (hset : (w.change today tag (.setBlock number first? last?)).run t = (.ok u, t')) :
    ∃ i b d hints, number = i + 1 ∧ e.course.blocks[i]? = some b ∧
      Dates today first? last? d hints ∧
      u.notices = (if i = 0 then [] else about e.preferences.earliest today b) ++ (hints ++
        (if d.Idle b then [] else about e.preferences.earliest today (d.dated b))) ∧
      u.deed = .blockSet number (d.dated b).label ∧
      (∃ front back reopened, e.course.blocks.eraseIdx i = front ++ back ∧
        (w.openEditor today : Filing Editor).run t' = (.ok reopened, t') ∧
        reopened.course.alike { e.course with blocks := front ++ d.dated b :: back } = true) ∧
      (Faithful e.preferences.earliest today (d.dated b) u.notices ↔
        i = 0 ∨ about e.preferences.earliest today b = [] ∨ d.Idle b) := by
  obtain ⟨settings, document?, hholds, hopened⟩ := exists_holds hopen
  have htwins := twins_opened hopened
  have hsound := Course.sound_of_reachable (Editor.current_of_reachable htwins.left).1
  obtain ⟨after, reopened, hx, hreopened, hbare⟩ := exists_reopened_of_change hopen htag hset
  obtain ⟨i, b, d, hints, hnumber, hb, hdates, hnotices, hdeed, hredated⟩ :=
    Change.redates_of_perform hsound hx
  simp only [showing_iff hopened hsound.toValid hb, htwins.day] at hnotices hdates
  obtain ⟨front, back, hothers, hblocks⟩ := hredated.blocks
  refine ⟨i, b, d, hints, hnumber, hb, hdates, hnotices, hdeed,
    ⟨front, back, reopened, hothers, hreopened, ?_⟩, ?_⟩
  · rw [Course.alike_iff, hbare, Course.bare, hblocks, Course.bare]
  · rw [hnotices]
    exact Notice.faithful_dated_iff hdates.hints_not_mem (i = 0)

/-- Two years before there were newspapers. -/
def ancient : Course :=
  ⟨[⟨1, some ⟨1500, 1, 1, by decide⟩, some ⟨1500, 12, 31, by decide⟩, []⟩,
    ⟨2, some ⟨1600, 1, 1, by decide⟩, some ⟨1600, 12, 31, by decide⟩, []⟩], 2, [], none⟩

/-- The files of `begun` with the document of `ancient`. -/
def unearthed : FileTree :=
  ⟨begun.entries ++ [(["press", "course.xml"], .text ancient.toXml)], []⟩

theorem openEditor_unearthed : (press.openEditor demandDay : Filing Editor).run unearthed =
    (.ok (.ofCourse ancient .standard demandDay), unearthed) :=
  Prod.ext (by decide +kernel) (by decide +kernel)

theorem room_unearthed : (unearthed.writable (press.draftPath "101")).isOk = true := by
  decide +kernel

/-- The first year begins earlier still, which is noticed once. -/
theorem notices_of_dates_unearthed :
    ∃ t' b d hints, (press.change demandDay "101" (.setBlock 1 (some "1.1.1450") none)).run
        unearthed = (.ok ⟨[.firstEarly, .lastEarly], .blockSet 1 "01.01.1450 – 31.12.1500"⟩, t') ∧
      ancient.blocks[0]? = some b ∧ Dates demandDay (some "1.1.1450") none d hints ∧
      Faithful Preferences.firstNewspaper demandDay (d.dated b) [.firstEarly, .lastEarly] := by
  have htag : '/' ∉ "101".toList := by decide
  have hx : ((Change.setBlock 1 (some "1.1.1450") none).perform.run
      (.ofCourse ancient .standard demandDay)).1 =
        .ok ⟨[.firstEarly, .lastEarly], .blockSet 1 "01.01.1450 – 31.12.1500"⟩ := by
    decide +kernel
  obtain ⟨t', hset⟩ := exists_run_change openEditor_unearthed htag room_unearthed hx
  obtain ⟨i, b, d, hints, hnumber, hb, hdates, -, -, -, hfaithful⟩ :=
    notices_of_dates openEditor_unearthed htag hset
  cases hnumber
  rw [Editor.course_ofCourse] at hb
  exact ⟨t', b, d, hints, hset, hb, hdates, hfaithful.2 (.inl rfl)⟩

/-- The second year is moved to when there were newspapers, and still it is noticed that it
lies before the first of them. -/
theorem notices_of_dates_outdated :
    (press.openEditor demandDay : Filing Editor).run unearthed =
        (.ok (.ofCourse ancient .standard demandDay), unearthed) ∧
      ∃ t' reopened b, (press.change demandDay "101"
          (.setBlock 2 (some "1.1.1700") (some "31.12.1700"))).run unearthed =
            (.ok ⟨[.firstEarly, .lastEarly], .blockSet 2 "01.01.1700 – 31.12.1700"⟩, t') ∧
        (press.openEditor demandDay : Filing Editor).run t' = (.ok reopened, t') ∧
        reopened.course.blocks[1]? = some b ∧
        ¬Notice.firstEarly.Holds Preferences.firstNewspaper demandDay b ∧
        ¬Notice.lastEarly.Holds Preferences.firstNewspaper demandDay b := by
  have htag : '/' ∉ "101".toList := by decide
  have hx : ((Change.setBlock 2 (some "1.1.1700") (some "31.12.1700")).perform.run
      (.ofCourse ancient .standard demandDay)).1 =
        .ok ⟨[.firstEarly, .lastEarly], .blockSet 2 "01.01.1700 – 31.12.1700"⟩ := by
    decide +kernel
  obtain ⟨t', hset⟩ := exists_run_change openEditor_unearthed htag room_unearthed hx
  obtain ⟨after, reopened, hrun, hreopened, hbare⟩ :=
    exists_reopened_of_change openEditor_unearthed htag hset
  have hleft : _ = after := congrArg Prod.snd hrun
  have hafter : after.course.bare[1]? =
      some ⟨0, some ⟨1700, 1, 1, by decide⟩, some ⟨1700, 12, 31, by decide⟩, []⟩ := by
    rw [← hleft]
    decide +kernel
  rw [← hbare, Course.bare, List.getElem?_map] at hafter
  obtain ⟨b, hb, hdated⟩ := Option.map_eq_some_iff.1 hafter
  -- the number of a block has no part in this
  have hnone : ¬Notice.firstEarly.Holds Preferences.firstNewspaper demandDay b.bare ∧
      ¬Notice.lastEarly.Holds Preferences.firstNewspaper demandDay b.bare := by
    rw [hdated]
    decide
  exact ⟨openEditor_unearthed, t', reopened, b, hset, hreopened, hb, hnone⟩

end Workspace
end PressCalendar
