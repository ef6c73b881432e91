/-
Written trees and what is known of them.

Of a tree that an outline admits nothing is taken away: `restrict_spaced` says that
restricting it answers the tree itself, however it is spaced out.
-/
import PressCalendar.Markup.Outline
import PressCalendar.Proofs.Markup.Trees

namespace PressCalendar
namespace Markup

open Node

/-- A tree of which every element is known.  An element that may be nil has no
attributes that could say so, nor has the element around it. -/
inductive Outline.Admits : (known : List Outline) → (around : List Char) → Node → Prop
  | element {known inside : List Outline} {around name : List Char} {mayBeNil : Bool}
    {pairs : List (List Char × List Char)} {children : List Node}
    (hname : IsWord name) (hpairs : Attribute.Distinct pairs)
    (hfind : find? known name = some (mayBeNil, inside))
    (hnil : mayBeNil = true → around = [] ∧ pairs = [])
    (hchildren : ∀ child ∈ children, Admits inside (Attribute.writeAll pairs) child) :
    Admits known around (.element name (Attribute.writeAll pairs) children)

namespace Outline

theorem Admits.isWritten {known : List Outline} {around : List Char} {node : Node}
    (h : Admits known around node) : IsWritten node := by
  induction h with
  | element hname hpairs hfind hnil hchildren ih => exact .element hname hpairs ih

theorem isNil_nil (s : Scope) : s.isNil [] = false := by
  unfold Scope.isNil
  rw [Attribute.scan]
  rfl

theorem restrict_text (known : List Outline) (around raw : List Char) (s : Scope) :
    restrict known around s (.text raw) = (.text raw, s) := rfl

/-- Nodes that each stay what they are stay what they are together. -/
theorem restrictAll_eq {known : List Outline} {around : List Char} {s : Scope}
    {nodes : List Node} (h : ∀ node ∈ nodes, restrict known around s node = (node, s)) :
    restrictAll known around s nodes = (nodes, s) := by
  induction nodes with
  | nil => rfl
  | cons node nodes ih =>
    have hnode := h node List.mem_cons_self
    have hnodes := ih fun other ho => h other (List.mem_cons_of_mem node ho)
    simp only [restrictAll, hnode, hnodes]

theorem restrict_spacedAll {known : List Outline} {around : List Char} {s : Scope} {level : Nat}
    {nodes : List Node}
    (h : ∀ node ∈ nodes, restrict known around s (spaced level node) = (spaced level node, s)) :
    ∀ node ∈ spacedAll level nodes, restrict known around s node = (node, s) := by
  induction nodes with
  | nil =>
    intro node hnode
    exact absurd hnode List.not_mem_nil
  | cons first nodes ih =>
    intro node hnode
    rcases List.mem_cons.1 hnode with rfl | hnode
    · exact restrict_text ..
    · rcases List.mem_cons.1 hnode with rfl | hnode
      · exact h first List.mem_cons_self
      · exact ih (fun other ho => h other (List.mem_cons_of_mem first ho)) node hnode

theorem restrictAll_inside {known : List Outline} {around : List Char} {s : Scope} (level : Nat)
    {children : List Node}
    (h : ∀ child ∈ children, restrict known around s (spaced (level + 1) child) =
      (spaced (level + 1) child, s)) :
    restrictAll known around s (spacedAll (level + 1) children ++ ending level children) =
      (spacedAll (level + 1) children ++ ending level children, s) := by
  refine restrictAll_eq ?_
  intro node hnode
  rcases List.mem_append.1 hnode with hnode | hnode
  · exact restrict_spacedAll h node hnode
  · unfold ending at hnode
    split at hnode
    · exact absurd hnode List.not_mem_nil
    · rw [List.mem_singleton.1 hnode]
      exact restrict_text ..

theorem restrict_spaced {known : List Outline} {around : List Char} {node : Node}
    (h : Admits known around node) (level depth : Nat) :
    restrict known around ⟨depth, []⟩ (spaced level node) = (spaced level node, ⟨depth, []⟩) := by
  induction h generalizing level depth with
  | @element known inside around name mayBeNil pairs children hname hpairs hfind hnil _ ih =>
    have henter := Scope.enter_writeAll (s := ⟨depth, []⟩) hpairs
    have hinside := restrictAll_inside level fun child hchild =>
      ih child hchild (level + 1) (depth + 1)
    have hnot : ∀ s : Scope,
        (mayBeNil && (s.isNil around || s.isNil (Attribute.writeAll pairs))) = false := by
      intro s
      cases mayBeNil with
      | false => rfl
      | true =>
        obtain ⟨rfl, rfl⟩ := hnil rfl
        simp [Attribute.writeAll, isNil_nil]
    rw [spaced_element]
    simp only [restrict, henter, hfind, hnot, hinside]
    rfl

end Outline

end Markup
end PressCalendar
