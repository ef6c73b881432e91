/-
Values of a TOML text.

A table may come about in several ways, and how it did decides whether the text
may add to it later on.  `Entries.assign`, `Entries.openTable` and
`Entries.openElement` are the three ways in which a text adds to the table it
stands for; each of them refuses to define anything twice.
-/

namespace PressCalendar
namespace Toml

inductive TableKind where
  /-- By its own header. -/
  | headed
  /-- By the header of a table in it. -/
  | implied
  /-- By a key with dots. -/
  | dotted
  /-- Between braces; nothing can be added to it. -/
  | closed
deriving DecidableEq, Repr

inductive Value where
  | text (s : String)
  /-- A number, truth value, date or time, as it is written. -/
  | plain (written : List Char)
  /-- A list, which is `growing` if its elements are headed tables. -/
  | list (growing : Bool) (items : List Value)
  | table (kind : TableKind) (entries : List (String × Value))

abbrev Entries := List (String × Value)

namespace Value

def text? : Value → Option String
  | text s => some s
  | _ => none

def texts? : Value → Option (List String)
  | list _ items => items.mapM text?
  | _ => none

end Value

namespace Entries

/-- Put a value in the place of the one that has its key. -/
def replace (key : String) (v : Value) (es : Entries) : Entries :=
  es.map fun e => if e.1 = key then (key, v) else e

def changeLast {α : Type} (f : α → Option α) (items : List α) : Option (List α) := do
  let item ← items.getLast?
  let changed ← f item
  return items.dropLast ++ [changed]

/-- Change the table at the end of a path, making the tables on the way that are
not there.  A path of dotted keys does not lead into headed tables. -/
def changeAt (isDotted : Bool) (f : TableKind → Entries → Option Entries) :
    List String → TableKind → Entries → Option Entries
  | [], kind, es => f kind es
  | key :: path, _, es =>
    match es.lookup key with
    | none => do
      let kind : TableKind := if isDotted then .dotted else .implied
      let inner ← changeAt isDotted f path kind []
      return es ++ [(key, .table kind inner)]
    | some (.table .closed _) => none
    | some (.table kind inner) =>
      if isDotted && kind = .headed then none
      else do
        let inner ← changeAt isDotted f path kind inner
        return replace key (.table kind inner) es
    | some (.list true items) => do
      let items ← changeLast (fun item => match item with
        | .table kind inner => (changeAt isDotted f path kind inner).map (.table kind)
        | _ => none) items
      return replace key (.list true items) es
    | some _ => none

/-- Add a value under a key, unless there is one.  The table has to be of a kind
that fits the key: behind dots a dotted one, otherwise any other. -/
def add (isDotted : Bool) (key : String) (v : Value) (kind : TableKind) (es : Entries) :
    Option Entries :=
  if (kind == .dotted) != isDotted || (es.lookup key).isSome then none
  else some (es ++ [(key, v)])

/-- Assign a value to a key with dots inside the table of a header. -/
def assign (header path : List String) (key : String) (v : Value) (es : Entries) :
    Option Entries :=
  changeAt false (changeAt true (add (!path.isEmpty) key v) path) header .headed es

/-- Begin the table of a header. -/
def openTable (path : List String) (key : String) (es : Entries) : Option Entries :=
  changeAt false (fun _ es =>
    match es.lookup key with
    | none => some (es ++ [(key, .table .headed [])])
    | some (.table .implied inner) => some (replace key (.table .headed inner) es)
    | some _ => none) path .headed es

/-- Begin the next element of the list of a header. -/
def openElement (path : List String) (key : String) (es : Entries) : Option Entries :=
  changeAt false (fun _ es =>
    match es.lookup key with
    | none => some (es ++ [(key, .list true [.table .headed []])])
    | some (.list true items) =>
      some (replace key (.list true (items ++ [.table .headed []])) es)
    | some _ => none) path .headed es

end Entries

end Toml
end PressCalendar
