/-
Tokens of a markup text: tags and the characters between them.

The scanner is a machine that moves from `Mode` to `Mode` with every character.
Comments and processing instructions leave no token.
A text that does not go on as markup ends in the token `broken`, so what stands
before the fault is still there to be read.  `scanOnto_eq` says that the tokens
found so far do not influence the ones that follow.
-/

namespace PressCalendar
namespace Markup

def isSpace (c : Char) : Bool := c = ' ' || c = '\t' || c = '\r' || c = '\n'

inductive Token where
  /-- The name of a start tag and all that stands between the name and the end
  of the tag. -/
  | start (name attributes : List Char)
  | finish (name : List Char)
  /-- Characters between markup, references as they are written. -/
  | text (raw : List Char)
  | cdata (content : List Char)
  /-- What stands in a document type declaration. -/
  | doctype (content : List Char)
  | broken
deriving DecidableEq, Repr

namespace Token

/-- Where the scanner stands.  `held` are the characters of the token at hand,
latest first. -/
inductive Mode where
  | text (held : List Char)
  /-- Behind a `<`. -/
  | opening
  | tag (quote : Option Char) (held : List Char)
  | closing (quote : Option Char) (held : List Char)
  /-- In a processing instruction: whether the last character was a question
  mark, and whether it is the one that begins the instruction. -/
  | instruction (asked fresh : Bool)
  /-- Behind a `<!`. -/
  | bang
  /-- Behind a `<!-`. -/
  | dash
  /-- In a comment: how many of the last characters were dashes, at most two. -/
  | comment (dashes : Nat)
  /-- Before the rest of the mark that begins character data. -/
  | mark (awaited : List Char)
  | cdata (held : List Char)
  /-- In a document type declaration: how many tags are open in it. -/
  | doctype (depth : Nat) (held : List Char)
deriving DecidableEq, Repr

inductive Step where
  | move (mode : Mode)
  | emit (tokens : List Token) (mode : Mode)
  | fail

def isQuote (c : Char) : Bool := c = '\x22' || c = '\x27'

/-- The quote that is open behind a character of a tag. -/
def quoteAfter (quote : Option Char) (c : Char) : Option Char :=
  match quote with
  | some q => if c = q then none else some q
  | none => if isQuote c then some c else none

def textToken (held : List Char) : List Token :=
  if held.isEmpty then [] else [text held.reverse]

/-- The tokens of a start tag, two if a slash closes it at once. -/
def tagTokens (held : List Char) : List Token :=
  match held with
  | '/' :: rest =>
    let content := rest.reverse
    let name := content.takeWhile (!isSpace ·)
    [start name (content.dropWhile (!isSpace ·)), finish name]
  | _ =>
    let content := held.reverse
    [start (content.takeWhile (!isSpace ·)) (content.dropWhile (!isSpace ·))]

/-- The token of an end tag; space behind the name does not count, unless there is
nothing else. -/
def closingToken (held : List Char) : Token :=
  finish (if held.all isSpace then held else held.dropWhile isSpace).reverse

/-- Whether a declaration declares a document type and names it. -/
def isDoctype (content : List Char) : Bool :=
  (content.take 7).map Char.toUpper == "DOCTYPE".toList && !(content.drop 7).all isSpace

def step (mode : Mode) (c : Char) : Step :=
  match mode with
  | .text held => if c = '<' then .emit (textToken held) .opening else .move (.text (c :: held))
  | .opening =>
    match c with
    | '!' => .move .bang
    | '/' => .move (.closing none [])
    | '?' => .move (.instruction true true)
    | '>' => .emit (tagTokens []) (.text [])
    | _ => .move (.tag (quoteAfter none c) [c])
  | .tag quote held =>
    if c = '>' && quote.isNone then .emit (tagTokens held) (.text [])
    else .move (.tag (quoteAfter quote c) (c :: held))
  | .closing quote held =>
    if c = '>' && quote.isNone then .emit [closingToken held] (.text [])
    else .move (.closing (quoteAfter quote c) (c :: held))
  | .instruction asked fresh =>
    if c = '>' && asked then if fresh then .fail else .move (.text [])
    else .move (.instruction (c = '?') false)
  | .bang =>
    match c with
    | '-' => .move .dash
    | '[' => .move (.mark "CDATA[".toList)
    | 'D' => .move (.doctype 0 [c])
    | 'd' => .move (.doctype 0 [c])
    | _ => .fail
  | .dash => if c = '-' then .move (.comment 0) else .fail
  | .comment dashes =>
    if c = '>' && dashes = 2 then .move (.text [])
    else .move (.comment (if c = '-' then min 2 (dashes + 1) else 0))
  | .mark awaited =>
    match awaited with
    | [] => .fail
    | a :: rest => if c ≠ a then .fail else .move (if rest.isEmpty then .cdata [] else .mark rest)
  | .cdata held =>
    match c, held with
    | '>', ']' :: ']' :: rest => .emit [cdata rest.reverse] (.text [])
    | _, _ => .move (.cdata (c :: held))
  | .doctype depth held =>
    match c, depth with
    | '>', 0 =>
      if isDoctype held.reverse then .emit [doctype held.reverse] (.text []) else .fail
    | '>', n + 1 => .move (.doctype n (c :: held))
    | '<', n => .move (.doctype (n + 1) (c :: held))
    | _, n => .move (.doctype n (c :: held))

/-- What a text that ends in a mode leaves behind. -/
def atEnd : Mode → List Token
  | .text held => textToken held
  | _ => [broken]

/-- Scan on, with the tokens found so far at hand, latest first. -/
def scanOnto (found : List Token) : Mode → List Char → List Token
  | mode, [] => found.reverse ++ atEnd mode
  | mode, c :: cs =>
    match step mode c with
    | .move mode => scanOnto found mode cs
    | .emit tokens mode => scanOnto (tokens.reverse ++ found) mode cs
    | .fail => found.reverse ++ [broken]

def scanFrom (mode : Mode) (cs : List Char) : List Token := scanOnto [] mode cs

theorem scanOnto_eq (found : List Token) (mode : Mode) (cs : List Char) :
    scanOnto found mode cs = found.reverse ++ scanFrom mode cs := by
  unfold scanFrom
  induction cs generalizing found mode with
  | nil => simp [scanOnto]
  | cons c cs ih =>
    simp only [scanOnto]
    split
    · exact ih _ _
    · rw [ih, ih (_ ++ []), List.reverse_append, List.append_assoc, List.append_nil]
    · simp

/-- The tokens of a text.  A byte order mark in front does not count. -/
def scan : List Char → List Token
  | '\uFEFF' :: cs => scanFrom (.text []) cs
  | cs => scanFrom (.text []) cs

end Token

end Markup
end PressCalendar
