/-
Reading back a written tree.

Between the tags of a written tree stands nothing but line breaks and indentation,
and that is all the reader finds beside the elements: `ofTokens_pretty` says that it
answers the tree `spaced` out by these gaps.
-/
import PressCalendar.Proofs.Markup.Tags

namespace PressCalendar
namespace Markup
namespace Node

open Token

/-- An element whose name is a word and whose attributes were written, down to its
last descendant. -/
inductive IsWritten : Node → Prop
  | element {name : List Char} {pairs : List (List Char × List Char)} {children : List Node}
    (hname : IsWord name) (hpairs : Attribute.Distinct pairs)
    (hchildren : ∀ child ∈ children, IsWritten child) :
    IsWritten (.element name (Attribute.writeAll pairs) children)

/-- What stands in front of a tag: the end of the line before and the
indentation. -/
def gap (level : Nat) : List Char := '\n' :: indentation level

theorem all_isSpace_gap (level : Nat) : (gap level).all isSpace = true := by
  simp [gap, indentation, isSpace]

mutual

/-- A node with a gap in front of every tag inside it. -/
def spaced (level : Nat) : Node → Node
  | .element name attributes [] => .element name attributes []
  | .element name attributes (child :: children) =>
    .element name attributes
      (spacedAll (level + 1) (child :: children) ++ [.text (gap level)])
  | node => node

def spacedAll (level : Nat) : List Node → List Node
  | [] => []
  | node :: nodes => .text (gap level) :: spaced level node :: spacedAll level nodes

end

/-- What stands in front of the end tag of an element, if it has one. -/
def ending (level : Nat) (children : List Node) : List Node :=
  if children.isEmpty then [] else [.text (gap level)]

theorem spaced_element (level : Nat) (name attributes : List Char) (children : List Node) :
    spaced level (.element name attributes children) =
      .element name attributes (spacedAll (level + 1) children ++ ending level children) := by
  cases children <;> rfl

theorem spacedAll_append (level : Nat) (nodes others : List Node) :
    spacedAll level (nodes ++ others) = spacedAll level nodes ++ spacedAll level others := by
  induction nodes with
  | nil => rfl
  | cons node nodes ih => simp only [List.cons_append, spacedAll, ih]

theorem scanFrom_indentation (level : Nat) (rest : List Char) :
    scanFrom (.text ['\n']) (indentation level ++ rest) =
      scanFrom (.text (gap level).reverse) rest := by
  have hrun : ∀ held, ∀ c ∈ indentation level,
      Token.step (.text held) c = .move (.text (c :: held)) := by
    intro held c hc
    have heq : c = ' ' := (List.mem_replicate.1 hc).2
    rw [heq]
    rfl
  rw [scanFrom_run .text hrun, gap, List.reverse_cons]

theorem textToken_gap (level : Nat) : textToken (gap level).reverse = [.text (gap level)] := by
  unfold textToken
  rw [if_neg (by simp [gap]), List.reverse_reverse]

theorem scanFrom_line (rest : List Char) :
    scanFrom (.text []) ('\n' :: rest) = scanFrom (.text ['\n']) rest :=
  scanFrom_move rfl

/-- Reading on through a list of written nodes, if that is known of each of them. -/
theorem build_prettyAll {level : Nat} {nodes : List Node}
    (h : ∀ node ∈ nodes, ∀ opened before rest,
      build opened before (scanFrom (.text ['\n']) (pretty level node ++ rest)) =
        build opened (spaced level node :: .text (gap level) :: before)
          (scanFrom (.text ['\n']) rest))
    (opened : List Open) (before : List Node) (rest : List Char) :
    build opened before (scanFrom (.text ['\n']) (prettyAll level nodes ++ rest)) =
      build opened ((spacedAll level nodes).reverse ++ before)
        (scanFrom (.text ['\n']) rest) := by
  induction nodes generalizing before with
  | nil => rfl
  | cons node nodes ih =>
    have hrest := ih fun other ho => h other (List.mem_cons_of_mem node ho)
    rw [prettyAll, List.append_assoc, h node List.mem_cons_self, hrest, spacedAll]
    simp only [List.reverse_cons, List.append_assoc, List.cons_append, List.nil_append]

theorem pretty_empty (level : Nat) (name attributes rest : List Char) :
    pretty level (.element name attributes []) ++ rest =
      indentation level ++ '<' :: (name ++ attributes ++ '/' :: '>' :: '\n' :: rest) := by
  show indentation level ++ '<' :: name ++ attributes ++ ['/', '>', '\n'] ++ rest = _
  simp

theorem pretty_open (level : Nat) (name attributes rest : List Char) (child : Node)
    (children : List Node) :
    pretty level (.element name attributes (child :: children)) ++ rest =
      indentation level ++ '<' :: (name ++ attributes ++ '>' :: '\n' ::
        (prettyAll (level + 1) (child :: children) ++
          (indentation level ++ '<' :: '/' :: (name ++ '>' :: '\n' :: rest)))) := by
  show indentation level ++ '<' :: name ++ attributes ++ ['>', '\n'] ++
    prettyAll (level + 1) (child :: children) ++
    indentation level ++ '<' :: '/' :: name ++ ['>', '\n'] ++ rest = _
  simp

theorem build_pretty {node : Node} (h : IsWritten node) (level : Nat) (opened : List Open)
    (before : List Node) (rest : List Char) :
    build opened before (scanFrom (.text ['\n']) (pretty level node ++ rest)) =
      build opened (spaced level node :: .text (gap level) :: before)
        (scanFrom (.text ['\n']) rest) := by
  induction h generalizing level opened before rest with
  | @element name pairs children hname hpairs _ ih =>
    cases children with
    | nil =>
      rw [pretty_empty, scanFrom_indentation, scanFrom_empty hname hpairs.1, textToken_gap,
        scanFrom_line]
      simp only [List.cons_append, List.nil_append, build, spaced, if_pos, List.reverse_nil]
    | cons child children =>
      rw [pretty_open, scanFrom_indentation, scanFrom_open hname hpairs.1, textToken_gap,
        scanFrom_line]
      simp only [List.cons_append, List.nil_append, build]
      rw [build_prettyAll fun node hnode => ih node hnode (level + 1), scanFrom_indentation,
        scanFrom_close hname, textToken_gap, scanFrom_line]
      simp only [List.cons_append, List.nil_append, build, spaced, if_pos, List.append_nil,
        List.reverse_cons, List.reverse_reverse]

theorem ofTokens_pretty {node : Node} (h : IsWritten node) (level : Nat) :
    ofTokens (scanFrom (.text ['\n']) (pretty level node)) =
      [.text (gap level), spaced level node, .text ['\n']] := by
  have hbuild := build_pretty h level [] [] []
  rw [List.append_nil] at hbuild
  unfold ofTokens
  rw [hbuild]
  rfl

end Node
end Markup
end PressCalendar
