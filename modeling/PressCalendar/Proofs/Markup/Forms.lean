/-
Reading forms from written trees.

An attribute that was written under a known name is read as what was written, and
the gaps between the tags do not count.  `readChildren_list` says that a list of
written elements is read one by one, also where it follows another list.
-/
import PressCalendar.Markup.Form
import PressCalendar.Proofs.Markup.Trees

namespace PressCalendar
namespace Markup
namespace Form

open Attribute Node

variable {σ α : Type} {form : Form σ}

/-! ## Attributes -/

/-- A known attribute that has not been read before adds its value. -/
theorem readAttributes_written {field : AttributeField σ} {name raw value : List Char}
    {as : List Attribute} {s t : σ} (hname : IsWord name)
    (hfind : form.attributes.find? (·.name.toList == name) = some field)
    (hfresh : field.isRead s = false) (hmeaning : field.meaning? raw = some value)
    (hread : field.read? s value = some t) :
    form.readAttributes s (⟨name, raw⟩ :: as) = form.readAttributes t as := by
  have hadd : field.add s (field.meaning? raw) = .ok t := by
    unfold AttributeField.add
    rw [hfresh, hmeaning, Option.bind_some, hread]
    rfl
  rw [readAttributes, key_word hname, hfind]
  simp only [hadd]
  rfl

theorem readAttributes_escape {field : AttributeField σ} {name value : List Char}
    {as : List Attribute} {s t : σ} (hname : IsWord name)
    (hfind : form.attributes.find? (·.name.toList == name) = some field)
    (hfresh : field.isRead s = false) (hmeant : field.isLiteral = false)
    (hread : field.read? s value = some t) :
    form.readAttributes s (written (name, value) :: as) = form.readAttributes t as := by
  refine readAttributes_written hname hfind hfresh ?_ hread
  unfold AttributeField.meaning?
  rw [hmeant]
  exact Reference.resolve_escape value

theorem read_writeAll {pairs : List (List Char × List Char)} {children : List Node} {s t : σ}
    (hpairs : Distinct pairs) (hread : form.readAttributes s (pairs.map written) = .ok t) :
    form.read s (writeAll pairs) children = form.readChildren none t children := by
  unfold read
  rw [readAll_writeAll hpairs]
  simp only [hread]
  rfl

/-! ## Children -/

theorem readChildren_gap (list : Option (ChildField σ × List Char)) (s : σ) (level : Nat)
    (nodes : List Node) :
    form.readChildren list s (.text (gap level) :: nodes) = form.readChildren list s nodes := by
  rw [readChildren, if_pos (all_isSpace_gap level)]

theorem readChildren_ending (list : Option (ChildField σ × List Char)) (s : σ) (level : Nat)
    (children : List Node) : form.readChildren list s (ending level children) = .ok s := by
  unfold ending
  split
  · rfl
  · rw [readChildren_gap]
    rfl

/-- An element of a list, be it the first one or one that follows the others. -/
theorem readChildren_element {field : ChildField σ} {list : Option (ChildField σ × List Char)}
    {name attributes : List Char} {children nodes : List Node} {s t : σ} (hname : IsWord name)
    (hfind : form.children.find? (·.name.toList == name) = some field)
    (hkind : field.isList = true)
    (hlist : list = some (field, name) ∨
      list.filter (·.2 == name) = none ∧ field.isRead s = false)
    (hread : field.read s attributes children = .ok t) :
    form.readChildren list s (.element name attributes children :: nodes) =
      form.readChildren (some (field, name)) t nodes := by
  rcases hlist with rfl | ⟨hother, hfresh⟩
  · have hsame : (some (field, name)).filter (·.2 == name) = some (field, name) := by
      simp
    rw [readChildren, hsame]
    simp only [hread]
    rfl
  · rw [readChildren, hother, localName_word hname, hfind]
    simp only [hfresh, hread, hkind, Bool.false_eq_true, if_false, if_true]
    rfl

/-- The elements of a list are read one by one.  Whatever list came before has
elements of another name. -/
theorem readChildren_list {field : ChildField σ} {name : List Char} {node : α → Node}
    {add : σ → α → σ} {level : Nat} (hname : IsWord name)
    (hfind : form.children.find? (·.name.toList == name) = some field)
    (hkind : field.isList = true)
    (hnode : ∀ x, ∃ attributes children,
      spaced level (node x) = .element name attributes children ∧
        ∀ s, field.read s attributes children = .ok (add s x))
    (xs : List α) {list : Option (ChildField σ × List Char)} {s : σ}
    (hlist : list = some (field, name) ∨
      list.filter (·.2 == name) = none ∧ field.isRead s = false) (rest : List Node) :
    ∃ last, (last = list ∨ last = some (field, name)) ∧
      form.readChildren list s (spacedAll level (xs.map node) ++ rest) =
        form.readChildren last (xs.foldl add s) rest := by
  induction xs generalizing list s with
  | nil => exact ⟨list, Or.inl rfl, rfl⟩
  | cons x xs ih =>
    obtain ⟨attributes, children, hspaced, hread⟩ := hnode x
    obtain ⟨last, hlast, hxs⟩ := @ih (some (field, name)) (add s x) (Or.inl rfl)
    refine ⟨last, Or.inr (hlast.elim id id), ?_⟩
    rw [List.map_cons, spacedAll, hspaced, List.cons_append, List.cons_append, readChildren_gap,
      readChildren_element hname hfind hkind hlist (hread s), hxs, List.foldl_cons]

end Form
end Markup
end PressCalendar
