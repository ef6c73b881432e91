/-
Quoted texts of TOML.

Between double quotes a backslash begins an escape, between single quotes nothing
has a meaning but the quote itself.  Three quotes begin a text that may have
several lines and may hold one or two of the quotes as they are.  The writer takes
the first of these styles that needs no escapes.
-/
import PressCalendar.Text.Digit

namespace PressCalendar
namespace Toml
namespace Quoted

open Text

def isBlank (c : Char) : Bool := c = ' ' || c = '\t'

/-- The characters that may stand in a comment or a text as they are. -/
def isPrintable (c : Char) : Bool := c = '\t' || (0x20 ≤ c.toNat && c.toNat ≠ 0x7F)

/-- The character with a number, unless it is a surrogate or too large. -/
def scalar? (n : Nat) : Option Char :=
  if h : n.isValidChar then some (Char.ofNatAux n h) else none

/-! ## Reading -/

/-- Where the reader of an escaped text stands. -/
inductive Mode where
  | plain
  /-- Behind a backslash. -/
  | escape
  /-- In the number of a character, with the digits that are missing and the
  value of the others. -/
  | code (left value : Nat)
  /-- Behind a backslash and blanks at the end of a line. -/
  | lineEnd
  /-- At the head of a line that goes on with the one before. -/
  | joining
deriving DecidableEq, Repr

/-- The character of an escape of one letter. -/
def escaped? : Char → Option Char
  | 'b' => some '\x08'
  | 't' => some '\t'
  | 'n' => some '\n'
  | 'f' => some '\x0c'
  | 'r' => some '\r'
  | '\x22' => some '\x22'
  | '\\' => some '\\'
  | _ => none

/-- A line break, which may be of two characters: `next` is the character behind
`c`. -/
def isBreak (c : Char) (next : Option Char) : Bool := c = '\n' || (c = '\r' && next = some '\n')

/-- What a break stands for: the first of two characters stands for nothing. -/
def breakText (c : Char) : List Char := if c = '\n' then ['\n'] else []

/-- One character of an escaped text, of one line or of several: the characters
it stands for, and where the reader stands then. -/
def step (lines : Bool) (mode : Mode) (c : Char) (next : Option Char) :
    Option (List Char × Mode) :=
  match mode with
  | .plain =>
    if c = '\\' then some ([], .escape)
    else if lines && isBreak c next then some (breakText c, .plain)
    else if isPrintable c then some ([c], .plain)
    else none
  | .escape =>
    if c = 'u' then some ([], .code 4 0)
    else if c = 'U' then some ([], .code 8 0)
    else match escaped? c with
      | some d => some ([d], .plain)
      | none =>
        if lines && isBreak c next then some ([], .joining)
        else if lines && isBlank c then some ([], .lineEnd)
        else none
  | .code left value => do
    let digit ← hexValue? c
    let value := 16 * value + digit
    if left ≤ 1 then (scalar? value).map fun d => ([d], .plain)
    else some ([], .code (left - 1) value)
  | .lineEnd =>
    if isBreak c next then some ([], .joining)
    else if isBlank c then some ([], .lineEnd)
    else none
  | .joining =>
    if isBlank c || isBreak c next then some ([], .joining)
    else if c = '\\' then some ([], .escape)
    else if isPrintable c then some ([c], .plain)
    else none

def endsAt : Mode → Bool
  | .plain => true
  | .joining => true
  | _ => false

/-- The end of a text of several lines: three quotes, and up to two more that
belong to the text. -/
def ending? (quote : Char) (cs : List Char) : Option (List Char × List Char) :=
  let count := (cs.takeWhile (· = quote)).length
  if count < 3 then none
  else some (List.replicate (min count 5 - 3) quote, cs.drop (min count 5))

/-- The rest of a text between double quotes. -/
def takeEscaped? (lines : Bool) : Mode → List Char → Option (List Char × List Char)
  | _, [] => none
  | mode, c :: cs =>
    if c = '\x22' && endsAt mode then
      if lines then
        match ending? '\x22' (c :: cs) with
        | some answer => some answer
        | none => (takeEscaped? lines .plain cs).map fun (text, rest) => (c :: text, rest)
      else some ([], cs)
    else match step lines mode c cs.head? with
      | some (made, mode) =>
        (takeEscaped? lines mode cs).map fun (text, rest) => (made ++ text, rest)
      | none => none

/-- The rest of a text between single quotes. -/
def takeLiteral? (lines : Bool) : List Char → Option (List Char × List Char)
  | [] => none
  | c :: cs =>
    if c = '\x27' then
      if lines then
        match ending? '\x27' (c :: cs) with
        | some answer => some answer
        | none => (takeLiteral? lines cs).map fun (text, rest) => (c :: text, rest)
      else some ([], cs)
    else if lines && isBreak c cs.head? then
      (takeLiteral? lines cs).map fun (text, rest) => (breakText c ++ text, rest)
    else if isPrintable c then
      (takeLiteral? lines cs).map fun (text, rest) => (c :: text, rest)
    else none

/-- A break right behind the quotes does not belong to the text. -/
def skipBreak : List Char → List Char
  | '\n' :: rest => rest
  | '\r' :: '\n' :: rest => rest
  | rest => rest

def takeLine? : List Char → Option (String × List Char)
  | '\x22' :: rest =>
    (takeEscaped? false .plain rest).map fun (cs, rest) => (String.ofList cs, rest)
  | '\x27' :: rest => (takeLiteral? false rest).map fun (cs, rest) => (String.ofList cs, rest)
  | _ => none

def take? : List Char → Option (String × List Char)
  | '\x22' :: '\x22' :: '\x22' :: rest =>
    (takeEscaped? true .plain (skipBreak rest)).map fun (cs, rest) => (String.ofList cs, rest)
  | '\x27' :: '\x27' :: '\x27' :: rest =>
    (takeLiteral? true (skipBreak rest)).map fun (cs, rest) => (String.ofList cs, rest)
  | rest => takeLine? rest

/-! ## Writing -/

def isControl (c : Char) : Bool := c.toNat < 0x20 || c.toNat = 0x7F

/-- The length of the longest run of a mark, where `here` of them stand right in
front. -/
def longestRunFrom (mark : Char) (here : Nat) : List Char → Nat
  | [] => here
  | c :: cs =>
    if c = mark then longestRunFrom mark (here + 1) cs
    else max here (longestRunFrom mark 0 cs)

def longestRun (mark : Char) (cs : List Char) : Nat := longestRunFrom mark 0 cs

/-- Which quotes a text is written between, three of them if `lines` holds. -/
inductive Style where
  | escaped (lines : Bool)
  | literal (lines : Bool)
deriving DecidableEq, Repr

/-- The first style that shows the text without any escape but that of a tab:
double quotes before single ones, and one quote before three.  Where none does, it
is double quotes. -/
def styleOf (cs : List Char) : Style :=
  let lines := cs.contains '\n'
  let isPlain := cs.all fun c => !isControl c || c = '\t' || c = '\n'
  let isUnescaped := isPlain && !cs.contains '\\'
  if isUnescaped && !lines && longestRun '\x22' cs = 0 then .escaped false
  else if isPlain && !lines && longestRun '\x27' cs = 0 then .literal false
  else if isUnescaped && longestRun '\x22' cs ≤ 2 then .escaped true
  else if isPlain && longestRun '\x27' cs ≤ 2 then .literal true
  else .escaped lines

def hexDigits (n : Nat) : List Char := (Nat.toDigits 16 n).map Char.toUpper

/-- A character other than a quote between double quotes. -/
def escapeChar (lines : Bool) (c : Char) : List Char :=
  match c with
  | '\x08' => "\\b".toList
  | '\t' => "\\t".toList
  | '\n' => if lines then ['\n'] else "\\n".toList
  | '\x0c' => "\\f".toList
  | '\r' => "\\r".toList
  | '\\' => "\\\\".toList
  | _ =>
    if isControl c then
      let digits := hexDigits c.toNat
      "\\u".toList ++ List.replicate (4 - digits.length) '0' ++ digits
    else [c]

/-- A text between double quotes, behind so many double quotes that stand as they
are.  Two of them may stand so between three quotes, and none between single
ones. -/
def escapeFrom (lines : Bool) (here : Nat) : List Char → List Char
  | [] => []
  | c :: cs =>
    if c = '\x22' then
      if lines && here < 2 then c :: escapeFrom lines (here + 1) cs
      else '\\' :: c :: escapeFrom lines 0 cs
    else escapeChar lines c ++ escapeFrom lines 0 cs

def Style.quotes : Style → List Char
  | .escaped lines => List.replicate (if lines then 3 else 1) '\x22'
  | .literal lines => List.replicate (if lines then 3 else 1) '\x27'

def Style.body : Style → List Char → List Char
  | .escaped lines, cs => escapeFrom lines 0 cs
  | .literal _, cs => cs

/-- A text of several lines begins on a line of its own. -/
def write (s : String) : List Char :=
  let cs := s.toList
  let style := styleOf cs
  let opening := if cs.contains '\n' then ['\n'] else []
  style.quotes ++ opening ++ style.body cs ++ style.quotes

end Quoted
end Toml
end PressCalendar
