/-
The characters in elements.

Space at either end of an element's text does not count, and a comment or a
document type declaration leaves no trace in it.  `Node.content?` is the text that
an element contains if it contains nothing else.
-/
import PressCalendar.Markup.Node
import PressCalendar.Markup.Reference

namespace PressCalendar
namespace Markup
namespace Node

def isBlank : Node → Bool
  | .text raw => raw.all isSpace
  | _ => false

def isDoctype : Node → Bool
  | .doctype _ => true
  | _ => false

/-- Whether a node counts for nothing at the beginning and the end of an
element. -/
def isVoid (node : Node) : Bool := node.isBlank || node.isDoctype

def isCharacters : Node → Bool
  | .text _ => true
  | .cdata _ => true
  | _ => false

/-- Whether the references in a text mean something. -/
def resolves : Node → Bool
  | .text raw => (Reference.resolve raw).isSome
  | _ => true

def trimStart (raw : List Char) : List Char := raw.dropWhile isSpace

def trimEnd (raw : List Char) : List Char := (raw.reverse.dropWhile isSpace).reverse

/-- The characters of a run of them.  Space at the end of a text counts only if
there are more characters behind it. -/
def characters? : List Node → Option (List Char)
  | [] => some []
  | [.text raw] => Reference.resolve (trimEnd raw)
  | .text raw :: nodes => do return (← Reference.resolve raw) ++ (← characters? nodes)
  | .cdata content :: nodes => do return content ++ (← characters? nodes)
  | _ => none

/-- The text that an element contains, if it contains nothing but one run of
characters. -/
def content? (nodes : List Node) : Option (List Char) :=
  let nodes := nodes.dropWhile isVoid
  if !(nodes.dropWhile isCharacters).all isVoid then none
  else match nodes.takeWhile isCharacters with
    | .text raw :: run => characters? (.text (trimStart raw) :: run)
    | run => characters? run

end Node
end Markup
end PressCalendar
