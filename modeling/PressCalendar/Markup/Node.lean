/-
Trees of markup: elements with what they contain.

`Node.ofTokens` pairs every start tag with its end tag.  Where the tokens do not
pair up, or end too early, the node `broken` stands in the innermost element that
was open, and no element gets any further content; reading such a tree in order
meets the fault where the text has it.

`Node.pretty` writes a tree with one tag a line and four spaces a level.
-/
import PressCalendar.Markup.Token

namespace PressCalendar
namespace Markup

inductive Node where
  /-- The attributes are kept as they are written in the tag. -/
  | element (name attributes : List Char) (children : List Node)
  | text (raw : List Char)
  | cdata (content : List Char)
  | doctype (content : List Char)
  | broken
deriving Repr

namespace Node

/-! ## From tokens to trees -/

/-- An element whose end has not been reached, with the nodes that come before
it in its parent, latest first. -/
structure Open where
  name : List Char
  attributes : List Char
  before : List Node

/-- End every open element at once, the innermost one first. -/
def closeAll : List Open → List Node → List Node
  | [], nodes => nodes.reverse
  | o :: outer, nodes => closeAll outer (.element o.name o.attributes nodes.reverse :: o.before)

/-- Read on, with the open elements and the latest nodes of the innermost one. -/
def build : List Open → List Node → List Token → List Node
  | [], nodes, [] => nodes.reverse
  | o :: outer, nodes, [] => closeAll (o :: outer) (.broken :: nodes)
  | opened, nodes, .start name attributes :: rest =>
    build (⟨name, attributes, nodes⟩ :: opened) [] rest
  | o :: outer, nodes, .finish name :: rest =>
    if name = o.name then
      build outer (.element o.name o.attributes nodes.reverse :: o.before) rest
    else closeAll (o :: outer) (.broken :: nodes)
  | [], nodes, .finish _ :: _ => closeAll [] (.broken :: nodes)
  | opened, nodes, .text raw :: rest => build opened (.text raw :: nodes) rest
  | opened, nodes, .cdata content :: rest => build opened (.cdata content :: nodes) rest
  | opened, nodes, .doctype content :: rest => build opened (.doctype content :: nodes) rest
  | opened, nodes, .broken :: _ => closeAll opened (.broken :: nodes)

def ofTokens (tokens : List Token) : List Node := build [] [] tokens

def ofText (cs : List Char) : List Node := ofTokens (Token.scan cs)

mutual

/-- Whether the text goes on as markup to the end of the node. -/
def isWhole : Node → Bool
  | .element _ _ children => allWhole children
  | .text _ => true
  | .cdata _ => true
  | .doctype _ => true
  | .broken => false

def allWhole : List Node → Bool
  | [] => true
  | node :: nodes => node.isWhole && allWhole nodes

end

/-! ## Writing -/

def indentation (level : Nat) : List Char := List.replicate (4 * level) ' '

mutual

/-- A node on lines of its own, indented by its level. -/
def pretty (level : Nat) : Node → List Char
  | .element name attributes [] =>
    indentation level ++ '<' :: name ++ attributes ++ ['/', '>', '\n']
  | .element name attributes (child :: children) =>
    indentation level ++ '<' :: name ++ attributes ++ ['>', '\n'] ++
      prettyAll (level + 1) (child :: children) ++
      indentation level ++ '<' :: '/' :: name ++ ['>', '\n']
  | .text raw => raw
  | .cdata content => "<![CDATA[".toList ++ content ++ "]]>".toList
  | .doctype content => '<' :: '!' :: content ++ ['>']
  | .broken => []

def prettyAll (level : Nat) : List Node → List Char
  | [] => []
  | node :: nodes => pretty level node ++ prettyAll level nodes

end

end Node

end Markup
end PressCalendar
