/-
Requests: everything that can be asked of an editor.

A session begins with an empty course or with one that was read from a document, and
goes on with any requests, each of which leaves an editor behind whether it succeeds
or fails.
-/
import PressCalendar.Editor.Edit

namespace PressCalendar

/-- Whether an edit succeeds, or why it fails. -/
def Edit.outcome {α : Type} (x : Edit α) (e : Editor) : Except Error Unit :=
  (x.run e).1.map fun _ => ()

namespace Editor

inductive Request where
  | selectBlock (id : Nat)
  | selectNumber (number : Nat)
  | neglect
  | startNewBlock
  | readDate (input : String) (field : DateField)
  | setFirst (input : String)
  | setLast (input : String)
  | setPeriod (firstInput lastInput : String)
  | copyBlock
  | removeBlock
  | addIssue (heading : String)
  | removeIssue (index : Nat)
  | setHeading (index : Nat) (heading : String)
  | setRegular (index : Nat) (day : Weekday) (appears : Bool)
  | selectIssue (id index : Nat) (date : Date)
  | unselectIssue (id index : Nat) (date : Date)
  | toggleIssue (id index : Nat) (date : Date)
  | setYear (year : Int)
  | previousYear
  | nextYear
  | upload (xml : String)
  | download
  | checkReady
  | split (g : Granularity)

/-- What is asked, with the type of the answer. -/
def Request.edit : Request → (α : Type) × Edit α
  | .selectBlock id => ⟨_, Edit.selectBlock id⟩
  | .selectNumber number => ⟨_, Edit.selectNumber number⟩
  | .neglect => ⟨_, Edit.neglect⟩
  | .startNewBlock => ⟨_, Edit.startNewBlock⟩
  | .readDate input field => ⟨_, Edit.readDate input field⟩
  | .setFirst input => ⟨_, Edit.setFirst input⟩
  | .setLast input => ⟨_, Edit.setLast input⟩
  | .setPeriod firstInput lastInput => ⟨_, Edit.setPeriod firstInput lastInput⟩
  | .copyBlock => ⟨_, Edit.copyBlock⟩
  | .removeBlock => ⟨_, Edit.removeBlock⟩
  | .addIssue heading => ⟨_, Edit.addIssue heading⟩
  | .removeIssue index => ⟨_, Edit.removeIssue index⟩
  | .setHeading index heading => ⟨_, Edit.setHeading index heading⟩
  | .setRegular index day appears => ⟨_, Edit.setRegular index day appears⟩
  | .selectIssue id index date => ⟨_, Edit.selectIssue id index date⟩
  | .unselectIssue id index date => ⟨_, Edit.unselectIssue id index date⟩
  | .toggleIssue id index date => ⟨_, Edit.toggleIssue id index date⟩
  | .setYear year => ⟨_, Edit.setYear year⟩
  | .previousYear => ⟨_, Edit.previousYear⟩
  | .nextYear => ⟨_, Edit.nextYear⟩
  | .upload xml => ⟨_, Edit.upload xml⟩
  | .download => ⟨_, Edit.download⟩
  | .checkReady => ⟨_, Edit.checkReady⟩
  | .split g => ⟨_, Edit.split g⟩

/-- The editor that is left behind by a request. -/
def perform (e : Editor) (r : Request) : Editor := (r.edit.2.run e).2

def outcome (e : Editor) (r : Request) : Except Error Unit := r.edit.2.outcome e

/-- The editors that any sequence of requests leads to. -/
inductive Reachable : Editor → Prop
  | blank (preferences : Preferences) (today : Date) : Reachable (blank preferences today)
  | opened {text : String} {c : Course} (h : Course.ofXml text = .ok c) (preferences : Preferences)
    (today : Date) : Reachable (ofCourse c preferences today)
  | perform {e : Editor} (h : Reachable e) (r : Request) : Reachable (e.perform r)

theorem Reachable.foldl {e : Editor} (h : e.Reachable) (requests : List Request) :
    (requests.foldl Editor.perform e).Reachable := by
  induction requests generalizing e with
  | nil => exact h
  | cons r requests ih => exact ih (h.perform r)

end Editor
end PressCalendar
