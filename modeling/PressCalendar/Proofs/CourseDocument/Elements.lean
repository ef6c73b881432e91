/-
Reading back the elements of a course document.

Each kind of element is read as what it was written for: `ReadsAs` says so of one
element, and there is a lemma of that form for dates, issues, blocks and processes.
-/
import PressCalendar.CourseDocument.Reader
import PressCalendar.CourseDocument.Writer
import PressCalendar.Proofs.Date.Written
import PressCalendar.Proofs.Markup.Forms

namespace PressCalendar

open Markup Markup.Attribute Markup.Node

namespace CourseDocument

/-! ## Lists of elements -/

/-- What a reader makes of an element, on whatever level it is written. -/
def ReadsAs {α : Type} (name : String) (read : List Char → List Node → Except Fault α)
    (node : Node) (a : α) : Prop :=
  ∀ level, ∃ attributes children, spaced level node = .element name.toList attributes children ∧
    read attributes children = .ok a

/-- A part of what is being read that holds a list. -/
structure HoldsList {σ α : Type} (get : σ → List α) (set : σ → List α → σ) : Prop where
  get_set : ∀ s xs, get (set s xs) = xs
  set_set : ∀ s xs ys, set (set s xs) ys = set s ys
  set_get : ∀ s, set s (get s) = s

section

variable {σ α : Type} {get : σ → List α} {set : σ → List α → σ}

theorem HoldsList.foldl (h : HoldsList get set) (xs : List α) (s : σ) :
    xs.foldl (fun s x => set s (get s ++ [x])) s = set s (get s ++ xs) := by
  induction xs generalizing s with
  | nil => rw [List.foldl_nil, List.append_nil, h.set_get]
  | cons x xs ih =>
    rw [List.foldl_cons, ih, h.get_set, h.set_set, List.append_assoc]
    rfl

/-- The elements of a list that has not begun are read as the list. -/
theorem readChildren_listField (hholds : HoldsList get set) (form : Form σ) {name : String}
    {inside : List Outline} {read : List Char → List Node → Except Fault α} {node : α → Node}
    (hname : IsWord name.toList)
    (hfind : form.children.find? (·.name.toList == name.toList) =
      some (listField name inside get set read))
    (hnode : ∀ x, ReadsAs name read (node x) x) (xs : List α)
    (list : Option (ChildField σ × List Char)) (hlist : list.filter (·.2 == name.toList) = none)
    {s : σ} (hempty : get s = []) (level : Nat) (rest : List Node) :
    ∃ last, (last = list ∨ last = some (listField name inside get set read, name.toList)) ∧
      form.readChildren list s (spacedAll level (xs.map node) ++ rest) =
        form.readChildren last (set s xs) rest := by
  have hfresh : (listField name inside get set read).isRead s = false := by
    show (!(get s).isEmpty) = false
    rw [hempty]
    rfl
  have helement : ∀ x, ∃ attributes children,
      spaced level (node x) = .element name.toList attributes children ∧
        ∀ s, (listField name inside get set read).read s attributes children =
          .ok (set s (get s ++ [x])) := by
    intro x
    obtain ⟨attributes, children, hspaced, hread⟩ := hnode x level
    refine ⟨attributes, children, hspaced, ?_⟩
    intro s
    simp only [listField, hread]
    rfl
  obtain ⟨last, hlast, heq⟩ := Form.readChildren_list hname hfind rfl helement xs
    (Or.inr ⟨hlist, hfresh⟩) rest
  refine ⟨last, hlast, ?_⟩
  rw [heq, hholds.foldl, hempty, List.nil_append]

end

/-! ## Dates -/

theorem dateNode_eq (name : String) (date : Date) :
    dateNode name date =
      .element name.toList (writeAll [("date".toList, date.isoText)]) [] := by
  simp [dateNode, element, valued, writeAll]

theorem distinct_date (date : Date) : Distinct [("date".toList, date.isoText)] :=
  distinct_of_names (show _ = ["date".toList] from rfl) (by decide) (by decide)

theorem readAttributes_date {σ : Type} {form : Form σ} {name : String} {get : σ → Option Date}
    {set : σ → Date → σ} {as : List Attribute} {s : σ} (hname : IsWord name.toList)
    (hfind : form.attributes.find? (·.name.toList == name.toList) =
      some (dateField name get set))
    (hfresh : get s = none) (date : Date) :
    form.readAttributes s (written (name.toList, date.isoText) :: as) =
      form.readAttributes (set s date) as := by
  refine Form.readAttributes_escape hname hfind ?_ rfl ?_
  · show (get s).isSome = false
    rw [hfresh]
    rfl
  · show (Date.ofIsoText? date.isoText).map (set s) = _
    rw [Date.ofIsoText?_isoText, Option.map_some]

theorem readDate_dateNode (name : String) (date : Date) :
    ReadsAs name readDate (dateNode name date) date := by
  intro level
  refine ⟨_, _, congrArg (spaced level) (dateNode_eq name date), ?_⟩
  have hread : dateForm.readAttributes none ([("date".toList, date.isoText)].map written) =
      .ok (some date) := by
    rw [List.map_singleton, readAttributes_date (by decide) rfl rfl]
    rfl
  unfold readDate
  rw [Form.read_writeAll (distinct_date date) hread]
  rfl

/-! ## Issues -/

/-- What is written into the tag of an issue. -/
def issueValues (e : IssueElement) : List (List Char × List Char) :=
  ("heading".toList, e.heading.toList) ::
    Weekday.all.map fun day => (day.long.toList, flagText (e.pattern.has day))

theorem issueNode_eq (e : IssueElement) :
    issueNode e = .element "issue".toList (writeAll (issueValues e))
      (e.additions.map (dateNode "addition") ++ e.exclusions.map (dateNode "exclusion")) := by
  simp [issueNode, element, valued, writeAll, issueValues, List.flatMap_map]

theorem distinct_issueValues (e : IssueElement) : Distinct (issueValues e) :=
  distinct_of_names
    (show _ = "heading".toList :: Weekday.all.map fun day => day.long.toList from rfl)
    (by decide) (by decide)

theorem readAttributes_heading {σ : Type} {form : Form σ} {get : σ → Option String}
    {set : σ → String → σ} {as : List Attribute} {s : σ}
    (hfind : form.attributes.find? (·.name.toList == "heading".toList) =
      some (headingField get set))
    (hfresh : get s = none) (heading : String) :
    form.readAttributes s (written ("heading".toList, heading.toList) :: as) =
      form.readAttributes (set s heading) as := by
  refine Form.readAttributes_escape (by decide) hfind ?_ rfl ?_
  · show (get s).isSome = false
    rw [hfresh]
    rfl
  · show some (set s (String.ofList heading.toList)) = _
    rw [String.ofList_toList]

theorem escape_flagText (flag : Bool) : Reference.escape (flagText flag) = flagText flag := by
  cases flag <;> rfl

theorem flag?_flagText (flag : Bool) : flag? (flagText flag) = some flag := by
  cases flag <;> rfl

theorem find?_dayField (day : Weekday) :
    IssueDraft.form.attributes.find? (·.name.toList == day.long.toList) =
      some (IssueDraft.dayField day) := by
  cases day <;> rfl

theorem isWord_long (day : Weekday) : IsWord day.long.toList := by cases day <;> decide

/-- Days that have no flag yet take the flags that were written. -/
theorem readAttributes_flags (flag : Weekday → Bool) {days : List Weekday} (hdays : days.Nodup)
    {d : IssueDraft} (hfresh : ∀ day ∈ days, d.flags.lookup day = none) :
    IssueDraft.form.readAttributes d
        (days.map fun day => written (day.long.toList, flagText (flag day))) =
      .ok { d with flags := (days.map fun day => (day, flag day)).reverse ++ d.flags } := by
  induction days generalizing d with
  | nil => rfl
  | cons day days ih =>
    obtain ⟨hnot, hrest⟩ := List.nodup_cons.1 hdays
    have hread : (IssueDraft.dayField day).read? d (flagText (flag day)) =
        some { d with flags := (day, flag day) :: d.flags } := by
      show (flag? (flagText (flag day))).map _ = _
      rw [flag?_flagText, Option.map_some]
    have hfirst : (IssueDraft.dayField day).isRead d = false := by
      show (d.flags.lookup day).isSome = false
      rw [hfresh day List.mem_cons_self]
      rfl
    rw [List.map_cons, written, Form.readAttributes_written (isWord_long day) (find?_dayField day)
      hfirst (congrArg some (escape_flagText (flag day))) hread, ih hrest]
    · simp
    · intro other ho
      have hne : (other == day) = false := by
        rw [beq_eq_false_iff_ne]
        rintro rfl
        exact hnot ho
      rw [List.lookup_cons, hne]
      exact hfresh other (List.mem_cons_of_mem day ho)

def issueDraft (e : IssueElement) : IssueDraft :=
  ⟨some e.heading, (Weekday.all.map fun day => (day, e.pattern.has day)).reverse, [], []⟩

theorem readAttributes_issueValues (e : IssueElement) :
    IssueDraft.form.readAttributes .blank ((issueValues e).map written) =
      .ok (issueDraft e) := by
  rw [issueValues, List.map_cons, readAttributes_heading rfl rfl, List.map_map]
  exact readAttributes_flags e.pattern.has (by decide) (by simp [IssueDraft.blank])

theorem lookup_issueDraft (e : IssueElement) (day : Weekday) :
    (issueDraft e).flags.lookup day = some (e.pattern.has day) := by
  cases day <;> rfl

theorem finish_eq {d : IssueDraft} {pattern : WeekPattern}
    (h : ∀ day, d.flags.lookup day = some (pattern.has day)) :
    d.finish = .ok ⟨d.heading.getD "", pattern, d.additions, d.exclusions⟩ := by
  unfold IssueDraft.finish
  simp only [h, require]
  cases pattern
  rfl

theorem holdsList_additions :
    HoldsList IssueDraft.additions fun d dates => { d with additions := dates } :=
  ⟨fun _ _ => rfl, fun _ _ _ => rfl, fun _ => rfl⟩

theorem holdsList_exclusions :
    HoldsList IssueDraft.exclusions fun d dates => { d with exclusions := dates } :=
  ⟨fun _ _ => rfl, fun _ _ _ => rfl, fun _ => rfl⟩

theorem readIssue_issueNode (e : IssueElement) : ReadsAs "issue" readIssue (issueNode e) e := by
  intro level
  rw [issueNode_eq, spaced_element, spacedAll_append, List.append_assoc]
  refine ⟨_, _, rfl, ?_⟩
  unfold readIssue
  rw [Form.read_writeAll (distinct_issueValues e) (readAttributes_issueValues e)]
  obtain ⟨last, hlast, hadditions⟩ := readChildren_listField holdsList_additions IssueDraft.form
    (by decide) rfl (readDate_dateNode "addition") e.additions none rfl
    (show (issueDraft e).additions = [] from rfl) (level + 1)
    (spacedAll (level + 1) (e.exclusions.map (dateNode "exclusion")) ++
      ending level (e.additions.map (dateNode "addition") ++
        e.exclusions.map (dateNode "exclusion")))
  have hother : last.filter (·.2 == "exclusion".toList) = none := by
    rcases hlast with rfl | rfl <;> rfl
  obtain ⟨_, -, hexclusions⟩ := readChildren_listField holdsList_exclusions IssueDraft.form
    (by decide) rfl (readDate_dateNode "exclusion") e.exclusions last hother
    (show { issueDraft e with additions := e.additions }.exclusions = [] from rfl) (level + 1)
    (ending level (e.additions.map (dateNode "addition") ++
      e.exclusions.map (dateNode "exclusion")))
  rw [hadditions, hexclusions, Form.readChildren_ending]
  show IssueDraft.finish
    { issueDraft e with additions := e.additions, exclusions := e.exclusions } = .ok e
  exact finish_eq (lookup_issueDraft e)

/-! ## Blocks -/

def blockValues (e : BlockElement) : List (List Char × List Char) :=
  [("first".toList, e.first.isoText), ("last".toList, e.last.isoText)]

theorem blockNode_eq (e : BlockElement) :
    blockNode e = .element "block".toList (writeAll (blockValues e)) (e.issues.map issueNode) := by
  simp [blockNode, element, valued, writeAll, blockValues]

theorem distinct_blockValues (e : BlockElement) : Distinct (blockValues e) :=
  distinct_of_names (show _ = ["first".toList, "last".toList] from rfl) (by decide) (by decide)

theorem holdsList_issues :
    HoldsList BlockDraft.issues fun d issues => { d with issues := issues } :=
  ⟨fun _ _ => rfl, fun _ _ _ => rfl, fun _ => rfl⟩

theorem readBlock_blockNode (e : BlockElement) : ReadsAs "block" readBlock (blockNode e) e := by
  intro level
  rw [blockNode_eq, spaced_element]
  refine ⟨_, _, rfl, ?_⟩
  have hread : BlockDraft.form.readAttributes .blank ((blockValues e).map written) =
      .ok ⟨some e.first, some e.last, []⟩ := by
    rw [blockValues, List.map_cons, readAttributes_date (by decide) rfl rfl, List.map_singleton,
      readAttributes_date (by decide) rfl rfl]
    rfl
  obtain ⟨_, -, hissues⟩ := readChildren_listField holdsList_issues BlockDraft.form (by decide) rfl
    readIssue_issueNode e.issues none rfl
    (show (BlockDraft.mk (some e.first) (some e.last) []).issues = [] from rfl) (level + 1)
    (ending level (e.issues.map issueNode))
  unfold readBlock
  rw [Form.read_writeAll (distinct_blockValues e) hread, hissues, Form.readChildren_ending]
  rfl

/-! ## Processes -/

def appearanceValues (a : Appearance) : List (List Char × List Char) :=
  [("heading".toList, a.heading.toList), ("date".toList, a.date.isoText)]

theorem appearanceNode_eq (a : Appearance) :
    appearanceNode a = .element "issue".toList (writeAll (appearanceValues a)) [] := by
  simp [appearanceNode, element, valued, writeAll, appearanceValues]

theorem distinct_appearanceValues (a : Appearance) : Distinct (appearanceValues a) :=
  distinct_of_names (show _ = ["heading".toList, "date".toList] from rfl) (by decide) (by decide)

theorem readAppearance_appearanceNode (a : Appearance) :
    ReadsAs "issue" readAppearance (appearanceNode a) a := by
  intro level
  refine ⟨_, _, congrArg (spaced level) (appearanceNode_eq a), ?_⟩
  have hread : AppearanceDraft.form.readAttributes .blank ((appearanceValues a).map written) =
      .ok ⟨some a.heading, some a.date⟩ := by
    rw [appearanceValues, List.map_cons, readAttributes_heading rfl rfl, List.map_singleton,
      readAttributes_date (by decide) rfl rfl]
    rfl
  unfold readAppearance
  rw [Form.read_writeAll (distinct_appearanceValues a) hread]
  rfl

theorem distinct_nil : Distinct [] := ⟨by simp, List.Pairwise.nil⟩

theorem holdsList_self (α : Type) : HoldsList (id : List α → List α) fun _ xs => xs :=
  ⟨fun _ _ => rfl, fun _ _ _ => rfl, fun _ => rfl⟩

theorem read_listForm {α : Type} {name : String} {inside : List Outline}
    {read : List Char → List Node → Except Fault α} {node : α → Node} (hname : IsWord name.toList)
    (hnode : ∀ x, ReadsAs name read (node x) x) (xs : List α) (level : Nat) :
    Form.read ⟨[], [listField name inside id (fun _ xs => xs) read]⟩ [] []
      (spacedAll (level + 1) (xs.map node) ++ ending level (xs.map node)) = .ok xs := by
  have hfind : [listField name inside id (fun _ (xs : List α) => xs) read].find?
      (·.name.toList == name.toList) = some (listField name inside id (fun _ xs => xs) read) := by
    rw [List.find?_cons_of_pos]
    exact beq_self_eq_true name.toList
  obtain ⟨_, -, hlist⟩ := readChildren_listField (holdsList_self α) ⟨[], [_]⟩ hname hfind hnode xs
    none rfl (show id [] = [] from rfl) (level + 1) (ending level (xs.map node))
  show Form.read _ [] (writeAll []) _ = _
  rw [Form.read_writeAll distinct_nil rfl, hlist, Form.readChildren_ending]

theorem read_processNode (p : Process) :
    ReadsAs "process" (processForm.read []) (processNode p) p := by
  intro level
  refine ⟨[], _, spaced_element level _ _ _, ?_⟩
  exact read_listForm (by decide) readAppearance_appearanceNode p level

end CourseDocument

end PressCalendar
