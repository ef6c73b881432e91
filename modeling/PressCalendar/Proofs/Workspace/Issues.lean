/-
Commands on the issues of a stored course.

`issues_addressed` carries what a command does in an editor over to the files: the course that
is opened afterwards differs from the one before in the issues of one block only, and a
command that is refused, with the number of the block or the issue as it was typed, changes
no file.
-/
import PressCalendar.Proofs.Command.Issues
import PressCalendar.Proofs.Workspace.Change

namespace PressCalendar
namespace Workspace

open Change (Affects IssueRefusal)

variable {w : Workspace} {today : Date} {e : Editor} {t : FileTree} {tag : String}

/-- The course of an editor in which the issues of one block were changed. -/
theorem bare_of_editing {after : Editor} {i : Nat} {b : Block} {issues : List Issue}
    (h : e.Editing i b issues after) :
    after.course.bare =
      Course.bare { e.course with blocks := e.course.blocks.set i { b with issues } } := by
  rw [Course.bare, Course.bare, h.blocks]

/-- A command on an issue is refused for the reasons there are, and for no others if its draft
can be written.  If it succeeds, it affects the issues of the block of its number as it says,
the issue being the one of its number; all else is stored as it was.  The weekdays are those
that were named in the argument, in any order and as often as you like. -/
theorem issues_addressed (hopen : (w.openEditor today : Filing Editor).run t = (.ok e, t))
    (htag : '/' ∉ tag.toList) {c : Change} {number : Nat} {issue? : Option Nat}
    (hc : c.issuePlace? = some (number, issue?)) :
    (∀ cause, IssueRefusal today e.course c cause →
      (w.change today tag c).run t = (.error cause, t)) ∧
    ((t.writable (w.draftPath tag)).isOk = true → ∀ cause t',
      (w.change today tag c).run t = (.error cause, t') → IssueRefusal today e.course c cause) ∧
    (∀ u t', (w.change today tag c).run t = (.ok u, t') → ∃ i b issues,
      number = i + 1 ∧ e.course.blocks[i]? = some b ∧ Affects today b c u.deed issues ∧
      ∃ reopened, (w.openEditor today : Filing Editor).run t' = (.ok reopened, t') ∧
        reopened.course.alike
          { e.course with blocks := e.course.blocks.set i { b with issues } } = true) ∧
    ∀ word days, Weekday.readList word = .ok days → ∀ d, d ∈ days ↔ d.NamedIn word := by
  obtain ⟨settings, document?, hholds, hopened⟩ := exists_holds hopen
  have htwins := twins_opened hopened
  obtain ⟨hrefused, haffected⟩ := Change.performs_issue htwins.left.valid hc
  rw [htwins.day] at hrefused haffected
  refine ⟨?_, ?_, ?_, fun word days hread => Weekday.mem_of_readList hread⟩
  · intro cause hrefusal
    obtain ⟨after, hx⟩ := (hrefused cause).2 hrefusal
    exact change_of_error hopen hx
  · intro hdraft cause t' hrun
    cases hx : c.perform.run e with
    | mk answer after =>
      cases answer with
      | error other =>
        cases (change_of_error hopen hx).symm.trans hrun
        exact (hrefused cause).1 ⟨after, hx⟩
      | ok u =>
        obtain ⟨stored, hstored⟩ := exists_run_change hopen htag hdraft (congrArg Prod.fst hx)
        cases hstored.symm.trans hrun
  · intro u t' hu
    obtain ⟨after, reopened, hx, hreopened, hbare⟩ := exists_reopened_of_change hopen htag hu
    obtain ⟨i, b, issues, hnumber, haffects, hediting⟩ := haffected u after hx
    refine ⟨i, b, issues, hnumber, hediting.place, haffects, reopened, hreopened, ?_⟩
    rw [Course.alike_iff, hbare, bare_of_editing hediting]

/-- There is no third issue to rename, and the first one is made regular on Tuesdays. -/
theorem issues_addressed_kept :
    (press.change demandDay "101" (.renameIssue 1 3 "Noon")).run kept =
        (.error (.unknownIssue 3), kept) ∧
      ∃ t' b issues reopened, mondays.blocks = [b] ∧
        Affects demandDay b (.setDays 1 1 [.tue, .tue]) (.daysSet 1 1) issues ∧
        (press.change demandDay "101" (.setDays 1 1 [.tue, .tue])).run kept =
          (.ok ⟨[], .daysSet 1 1⟩, t') ∧
        (press.openEditor demandDay : Filing Editor).run t' = (.ok reopened, t') ∧
        reopened.course.alike { mondays with blocks := [{ b with issues }] } = true := by
  have hcourse : (Editor.ofCourse mondays .standard demandDay).course = mondays :=
    Editor.course_ofCourse mondays .standard demandDay
  have htag : '/' ∉ "101".toList := by decide
  obtain ⟨hrefused, -, -, -⟩ := issues_addressed openEditor_kept htag
    (show (Change.renameIssue 1 3 "Noon").issuePlace? = some (1, some 3) from rfl)
  obtain ⟨-, -, haffected, -⟩ := issues_addressed openEditor_kept htag
    (show (Change.setDays 1 1 [.tue, .tue]).issuePlace? = some (1, some 1) from rfl)
  rw [hcourse] at hrefused haffected
  have hmissing : IssueRefusal demandDay mondays (.renameIssue 1 3 "Noon") (.unknownIssue 3) :=
    .issue rfl rfl (by decide) fun input heq => by cases heq
  have hset : ((Change.setDays 1 1 [.tue, .tue]).perform.run
      (.ofCourse mondays .standard demandDay)).1 = .ok ⟨[], .daysSet 1 1⟩ := by
    decide +kernel
  obtain ⟨-, -, hdraft⟩ := room_kept ("101", .weeks) List.mem_cons_self
  obtain ⟨t', hrun⟩ := exists_run_change openEditor_kept htag hdraft hset
  obtain ⟨i, b, issues, hnumber, hb, haffects, reopened, hreopened, halike⟩ := haffected _ t' hrun
  cases hnumber
  cases hb
  exact ⟨hrefused _ hmissing, t', _, issues, reopened, rfl, haffects, hrun, hreopened, halike⟩

end Workspace
end PressCalendar
