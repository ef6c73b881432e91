/-
Requests: everything that can be asked of a course, and what comes of it.

A caller holds courses and blocks.  The blocks are new ones, blocks of a course,
copies, blocks that were removed, and blocks of other courses; their dates and
issues can be changed as long as they are held.  `Block.Obtained` and
`Course.Reachable` are the blocks and the courses that a caller can come by.  A
request that fails leaves the course as it was, so `perform` answers a course in
any case.
-/
import PressCalendar.CourseDocument.Reader

namespace PressCalendar

inductive Issue.Revision where
  | rename (heading : String)
  | setRegular (day : Weekday) (appears : Bool)
  | addAddition (date : Date)
  | removeAddition (date : Date)
  | addExclusion (date : Date)
  | removeExclusion (date : Date)

namespace Issue

def Revision.apply : Revision → Issue → Issue
  | rename heading, issue => issue.rename heading
  | setRegular day appears, issue => issue.setRegular day appears
  | addAddition date, issue => issue.addAddition date
  | removeAddition date, issue => issue.removeAddition date
  | addExclusion date, issue => issue.addExclusion date
  | removeExclusion date, issue => issue.removeExclusion date

def made (heading : String) (revisions : List Revision) : Issue :=
  revisions.foldl (fun issue r => r.apply issue) (irregular heading)

end Issue

inductive Block.Revision where
  | add (heading : String) (revisions : List Issue.Revision)
  | remove (index : Nat)
  | revise (index : Nat) (revision : Issue.Revision)

namespace Block

def Revision.apply : Revision → Block → Block
  | add heading revisions, b => b.addIssue (Issue.made heading revisions)
  | remove index, b =>
    match b.removeIssue? index with
    | some (_, changed) => changed
    | none => b
  | revise index revision, b =>
    match b.issues[index]? with
    | some issue => b.setIssue index (revision.apply issue)
    | none => b

theorem Dating.ofCourse_eq (d : Dating) (c : Course) (id : Nat) :
    d.ofCourse c id = c.changePeriod id d.apply := by
  cases d <;> rfl

end Block

namespace Course

inductive Request where
  | newBlock
  | copyOf (b : Block)
  | add (b : Block)
  | remove (id : Nat)
  | clear
  | redate (id : Nat) (dating : Block.Dating)
  | revise (id : Nat) (revision : Block.Revision)
  | split (g : Granularity)
  | clearProcesses
  | forgetImported

def Request.blocks : Request → List Block
  | copyOf b => [b]
  | add b => [b]
  | _ => []

/-- The course after a request, whether that succeeds or fails. -/
def perform (c : Course) : Request → Course
  | .newBlock => c.newBlock.2
  | .copyOf b => (c.copyOf b).2
  | .add b =>
    match c.add b with
    | .ok (_, changed) => changed
    | .error _ => c
  | .remove id =>
    match c.remove? id with
    | some (_, changed) => changed
    | none => c
  | .clear => c.clear
  | .redate id dating =>
    match dating.ofCourse c id with
    | .ok changed => changed
    | .error _ => c
  | .revise id revision => c.modify id revision.apply
  | .split g =>
    match c.split g with
    | .ok changed => changed
    | .error _ => c
  | .clearProcesses => c.clearProcesses
  | .forgetImported => c.forgetImported

end Course

mutual

/-- The blocks a caller can hold. -/
inductive Block.Obtained : Block → Prop
  | new {c : Course} (hc : Course.Reachable c) : Block.Obtained c.newBlock.1
  | copy {c : Course} {b : Block} (hc : Course.Reachable c) (hb : Block.Obtained b) :
    Block.Obtained (c.copyOf b).1
  | part {c : Course} {b : Block} (hc : Course.Reachable c) (hb : b ∈ c.blocks) :
    Block.Obtained b
  | redate {b changed : Block} {dating : Block.Dating} (hb : Block.Obtained b)
    (h : dating.apply b = .ok changed) : Block.Obtained changed
  | revise {b : Block} (revision : Block.Revision) (hb : Block.Obtained b) :
    Block.Obtained (revision.apply b)

/-- The courses that any sequence of requests leads to, from nothing or from a
document. -/
inductive Course.Reachable : Course → Prop
  | empty : Course.Reachable Course.empty
  | read {text : String} {c : Course} (h : Course.ofXml text = .ok c) : Course.Reachable c
  | perform {c : Course} {r : Course.Request} (hc : Course.Reachable c)
    (hr : ∀ b ∈ r.blocks, Block.Obtained b) : Course.Reachable (c.perform r)

end

end PressCalendar
