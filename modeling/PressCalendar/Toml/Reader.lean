/-
Reading TOML.

Every reader answers a value and what is left of the text behind it.  Values may
be nested to a depth of 79.
-/
import PressCalendar.Toml.Plain
import PressCalendar.Toml.Quoted
import PressCalendar.Toml.Value

namespace PressCalendar
namespace Toml

open Quoted (isBlank isBreak isPrintable)

/-! ## Blanks and comments -/

def skipBlanks (cs : List Char) : List Char := cs.dropWhile isBlank

def nextLine? : List Char → Option (List Char)
  | [] => some []
  | '\n' :: rest => some rest
  | '\r' :: '\n' :: rest => some rest
  | _ => none

/-- What is left of a line may hold blanks and a comment. -/
def finishLine? (cs : List Char) : Option (List Char) :=
  match skipBlanks cs with
  | '#' :: rest => nextLine? (rest.dropWhile isPrintable)
  | rest => nextLine? rest

def skipLines (inComment : Bool) : List Char → List Char
  | [] => []
  | c :: cs =>
    if isBreak c cs.head? then skipLines (inComment && c = '\r') cs
    else if inComment then if isPrintable c then skipLines true cs else c :: cs
    else if isBlank c then skipLines false cs
    else if c = '#' then skipLines true cs
    else c :: cs

/-! ## Keys -/

def isBare (c : Char) : Bool := c.isAlphanum || c = '_' || c = '-'

def takeKey? (cs : List Char) : Option (String × List Char) :=
  match Quoted.takeLine? cs with
  | some answer => some answer
  | none =>
    let bare := cs.takeWhile isBare
    if bare.isEmpty then none else some (String.ofList bare, cs.drop bare.length)

/-- A key with dots, of less than 80 parts: the last part and those before it. -/
def takePath? : Nat → List Char → Option ((List String × String) × List Char)
  | 0, _ => none
  | limit + 1, cs => do
    let (key, rest) ← takeKey? (skipBlanks cs)
    match skipBlanks rest with
    | '.' :: rest => do
      let ((path, last), rest) ← takePath? limit rest
      return ((key :: path, last), rest)
    | rest => return (([], key), rest)

def longestPath : Nat := 79

def skip? (mark : Char) : List Char → Option (List Char)
  | c :: rest => if c = mark then some rest else none
  | [] => none

/-! ## Values -/

abbrev ValueReader := List Char → Option (Value × List Char)

def takeAssignment? (value : ValueReader) (cs : List Char) :
    Option ((List String × String × Value) × List Char) := do
  let ((path, key), rest) ← takePath? longestPath cs
  let rest ← skip? '=' rest
  let (v, rest) ← value (skipBlanks rest)
  return ((path, key, v), rest)

/-- The items of a list that has no more than `limit` of them. -/
def takeItems? (value : ValueReader) : Nat → List Char → Option (List Value × List Char)
  | 0, _ => none
  | limit + 1, cs =>
    match skipLines false cs with
    | ']' :: rest => some ([], rest)
    | cs => do
      let (v, rest) ← value cs
      match skipLines false rest with
      | ',' :: rest => do
        let (vs, rest) ← takeItems? value limit rest
        return (v :: vs, rest)
      | ']' :: rest => some ([v], rest)
      | _ => none

/-- The entries of a table between braces, on top of those that it has. -/
def takeEntries? (value : ValueReader) : Nat → Entries → List Char → Option (Entries × List Char)
  | 0, _, _ => none
  | limit + 1, es, cs => do
    let ((path, key, v), rest) ← takeAssignment? value cs
    let es ← es.assign [] path key v
    match skipBlanks rest with
    | ',' :: rest => takeEntries? value limit es rest
    | '}' :: rest => some (es, rest)
    | _ => none

/-- A value with lists and tables between braces nested in it to a depth. -/
def takeValue? : Nat → ValueReader
  | 0, '[' :: _ => none
  | 0, '{' :: _ => none
  | depth + 1, '[' :: rest =>
    (takeItems? (takeValue? depth) (rest.length + 1) rest).map fun (items, rest) =>
      (.list false items, rest)
  | depth + 1, '{' :: rest =>
    match skipBlanks rest with
    | '}' :: rest => some (.table .closed [], rest)
    | rest =>
      (takeEntries? (takeValue? depth) rest.length [] rest).map fun (es, rest) =>
        (.table .closed es, rest)
  | _, cs =>
    match Quoted.take? cs with
    | some (s, rest) => some (.text s, rest)
    | none => (Plain.take? cs).map fun (written, rest) => (.plain written, rest)

def deepest : Nat := 79

/-! ## Texts -/

/-- Read on, below a header, in a text that has fewer than `limit` lines. -/
def readLines? : Nat → List String → Entries → List Char → Option Entries
  | 0, _, _, _ => none
  | limit + 1, header, es, cs =>
    match skipBlanks cs with
    | [] => some es
    | '[' :: '[' :: rest => do
      let ((path, key), rest) ← takePath? longestPath rest
      let rest ← (skip? ']' rest).bind (skip? ']')
      let es ← es.openElement path key
      readLines? limit (path ++ [key]) es (← finishLine? rest)
    | '[' :: rest => do
      let ((path, key), rest) ← takePath? longestPath rest
      let rest ← skip? ']' rest
      let es ← es.openTable path key
      readLines? limit (path ++ [key]) es (← finishLine? rest)
    | rest =>
      match finishLine? rest with
      | some rest => readLines? limit header es rest
      | none => do
        let ((path, key, v), rest) ← takeAssignment? (takeValue? deepest) rest
        let es ← es.assign header path key v
        readLines? limit header es (← finishLine? rest)

def read? (s : String) : Option Entries :=
  match s.toList with
  | '\uFEFF' :: cs => readLines? (cs.length + 1) [] [] cs
  | cs => readLines? (cs.length + 1) [] [] cs

end Toml
end PressCalendar
