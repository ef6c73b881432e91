/-
Reading back a course document.

The whole of a written tree is known to the reader, so nothing of it is taken away,
and `read_text` says that every document is read as the document that was written,
whatever its headings and dates are.
-/
import PressCalendar.Proofs.CourseDocument.Elements
import PressCalendar.Proofs.Markup.Outlines

namespace PressCalendar

open Markup Markup.Attribute Markup.Node

namespace CourseDocument

/-! ## Documents -/

def processesNodes (d : CourseDocument) : List Node :=
  if d.processes.isEmpty then [] else [element "processes" [] (d.processes.map processNode)]

theorem toNode_eq (d : CourseDocument) :
    d.toNode = .element "course".toList [] (d.blocks.map blockNode ++ processesNodes d) := rfl

theorem readChildren_processesNodes (d : CourseDocument) {s : Draft} (hfresh : s.processes = none)
    {list : Option (ChildField Draft × List Char)}
    (hlist : list.filter (·.2 == "processes".toList) = none) (level : Nat) (children : List Node) :
    ∃ draft, Draft.form.readChildren list s
        (spacedAll (level + 1) (processesNodes d) ++ ending level children) = .ok draft ∧
      draft.finish = ⟨s.blocks, d.processes⟩ := by
  by_cases hempty : d.processes = []
  · refine ⟨s, ?_, ?_⟩
    · rw [processesNodes, hempty]
      exact Form.readChildren_ending list s level children
    · rw [Draft.finish, hfresh, hempty]
      rfl
  · have hnodes : processesNodes d = [element "processes" [] (d.processes.map processNode)] := by
      rw [processesNodes, if_neg (by simpa using hempty)]
    have hinside : processesForm.read [] []
        (spacedAll (level + 2) (d.processes.map processNode) ++
          ending (level + 1) (d.processes.map processNode)) = .ok d.processes :=
      read_listForm (by decide) read_processNode d.processes (level + 1)
    have hfield : Draft.processesField.read s []
        (spacedAll (level + 2) (d.processes.map processNode) ++
          ending (level + 1) (d.processes.map processNode)) =
        .ok { s with processes := some d.processes } := by
      show (processesForm.read [] [] _ >>= _) = _
      rw [hinside]
      rfl
    have hunread : Draft.processesField.isRead s = false := by
      show s.processes.isSome = false
      rw [hfresh]
      rfl
    have hfind : Draft.form.children.find? (·.name.toList == localName "processes".toList) =
        some Draft.processesField := rfl
    refine ⟨{ s with processes := some d.processes }, ?_, rfl⟩
    rw [hnodes, spacedAll, spacedAll, element, spaced_element, List.cons_append,
      Form.readChildren_gap, List.cons_append, Form.readChildren, hlist]
    simp only [hfind, hunread, hfield, Bool.false_eq_true, if_false]
    exact Form.readChildren_ending _ _ level children

theorem holdsList_blocks : HoldsList Draft.blocks fun d blocks => { d with blocks := blocks } :=
  ⟨fun _ _ => rfl, fun _ _ _ => rfl, fun _ => rfl⟩

theorem readChildren_toNode (d : CourseDocument) (level : Nat) :
    ∃ draft, Draft.form.readChildren none .blank
        (spacedAll (level + 1) (d.blocks.map blockNode ++ processesNodes d) ++
          ending level (d.blocks.map blockNode ++ processesNodes d)) = .ok draft ∧
      draft.finish = d := by
  obtain ⟨last, hlast, hblocks⟩ := readChildren_listField holdsList_blocks Draft.form (by decide)
    rfl readBlock_blockNode d.blocks none rfl (show Draft.blank.blocks = [] from rfl) (level + 1)
    (spacedAll (level + 1) (processesNodes d) ++
      ending level (d.blocks.map blockNode ++ processesNodes d))
  have hother : last.filter (·.2 == "processes".toList) = none := by
    rcases hlast with rfl | rfl <;> rfl
  rw [spacedAll_append, List.append_assoc, hblocks]
  exact readChildren_processesNodes d (show (Draft.mk d.blocks none).processes = none from rfl)
    hother level _

/-! ## The whole text -/

theorem admits_dateNode {name : String} (around : List Char) (date : Date)
    (hname : IsWord name.toList)
    (hfind : Outline.find? IssueDraft.form.outline name.toList = some (false, dateForm.outline)) :
    Outline.Admits IssueDraft.form.outline around (dateNode name date) := by
  rw [dateNode_eq]
  exact .element hname (distinct_date date) hfind (by simp) (by simp)

theorem admits_issueNode (around : List Char) (e : IssueElement) :
    Outline.Admits BlockDraft.form.outline around (issueNode e) := by
  rw [issueNode_eq]
  refine .element (by decide) (distinct_issueValues e)
    (show _ = some (false, IssueDraft.form.outline) from rfl) (by simp) ?_
  intro child hchild
  rcases List.mem_append.1 hchild with hchild | hchild
  · obtain ⟨date, -, rfl⟩ := List.mem_map.1 hchild
    exact admits_dateNode _ date (by decide) rfl
  · obtain ⟨date, -, rfl⟩ := List.mem_map.1 hchild
    exact admits_dateNode _ date (by decide) rfl

theorem admits_blockNode (around : List Char) (e : BlockElement) :
    Outline.Admits Draft.form.outline around (blockNode e) := by
  rw [blockNode_eq]
  refine .element (by decide) (distinct_blockValues e)
    (show _ = some (false, BlockDraft.form.outline) from rfl) (by simp) ?_
  intro child hchild
  obtain ⟨issue, -, rfl⟩ := List.mem_map.1 hchild
  exact admits_issueNode _ issue

theorem admits_appearanceNode (around : List Char) (a : Appearance) :
    Outline.Admits processForm.outline around (appearanceNode a) := by
  rw [appearanceNode_eq]
  exact .element (by decide) (distinct_appearanceValues a)
    (show _ = some (false, AppearanceDraft.form.outline) from rfl) (by simp) (by simp)

theorem admits_processNode (around : List Char) (p : Process) :
    Outline.Admits processesForm.outline around (processNode p) := by
  show Outline.Admits _ around
    (.element "process".toList (writeAll []) (p.map appearanceNode))
  refine .element (by decide) distinct_nil
    (show _ = some (false, processForm.outline) from rfl) (by simp) ?_
  intro child hchild
  obtain ⟨a, -, rfl⟩ := List.mem_map.1 hchild
  exact admits_appearanceNode _ a

theorem admits_toNode (d : CourseDocument) :
    ∀ child ∈ d.blocks.map blockNode ++ processesNodes d,
      Outline.Admits Draft.form.outline [] child := by
  intro child hchild
  rcases List.mem_append.1 hchild with hchild | hchild
  · obtain ⟨e, -, rfl⟩ := List.mem_map.1 hchild
    exact admits_blockNode _ e
  · unfold processesNodes at hchild
    split at hchild
    · exact absurd hchild List.not_mem_nil
    · rw [List.mem_singleton.1 hchild]
      -- The one element that may be nil: nothing in its tag or around it says so.
      show Outline.Admits _ [] (.element "processes".toList (writeAll []) _)
      refine .element (by decide) distinct_nil
        (show _ = some (true, processesForm.outline) from rfl) (fun _ => ⟨rfl, rfl⟩) ?_
      intro node hnode
      obtain ⟨p, -, rfl⟩ := List.mem_map.1 hnode
      exact admits_processNode _ p

theorem isWritten_toNode (d : CourseDocument) : IsWritten d.toNode := by
  show IsWritten (.element "course".toList (writeAll []) (d.blocks.map blockNode ++
    processesNodes d))
  refine .element (by decide) distinct_nil ?_
  intro child hchild
  exact (admits_toNode d child hchild).isWritten

/-- Behind the declaration the text goes on at the beginning of a line. -/
theorem scan_declaration (rest : List Char) :
    Token.scan (declaration ++ rest) = Token.scanFrom (.text ['\n']) rest := rfl

theorem ofText_text (d : CourseDocument) :
    Node.ofText d.text = [.text (gap 0), spaced 0 d.toNode, .text ['\n']] := by
  unfold Node.ofText text
  rw [scan_declaration]
  exact ofTokens_pretty (isWritten_toNode d) 0

/-- Every document is read as the document that was written. -/
theorem read_text (d : CourseDocument) : read (String.ofList d.text) = .ok d := by
  obtain ⟨draft, hread, hfinish⟩ := readChildren_toNode d 0
  have henter : Scope.empty.enter [] = some ⟨1, []⟩ := Scope.enter_writeAll distinct_nil
  have hrestrict := Outline.restrictAll_inside 0 fun child hchild =>
    Outline.restrict_spaced (admits_toNode d child hchild) 1 1
  unfold read
  rw [String.toList_ofList, ofText_text, ofNodes, if_pos (all_isSpace_gap 0), toNode_eq,
    spaced_element, ofNodes, ofRoot, henter]
  simp only [hrestrict]
  show (Draft.form.read .blank (writeAll []) _ >>= _) = _
  rw [Form.read_writeAll distinct_nil rfl, hread]
  exact congrArg Except.ok hfinish

end CourseDocument

end PressCalendar
