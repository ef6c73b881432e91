/-
Character references: characters that are written as `&name;` or `&#number;`.

`escape` writes the four characters that have a meaning inside a quoted value as
references, and `resolve` reads references of all kinds.  `resolve_escape` says
that reading takes back what was written, for every text.
-/
import PressCalendar.Text.Digit

namespace PressCalendar
namespace Markup
namespace Reference

/-! ## Reading -/

def decimalValue? (c : Char) : Option Nat :=
  if c.isDigit then some (c.toNat - 48) else none

def number? (base : Nat) (value? : Char → Option Nat) : List Char → Option Nat
  | [] => none
  | cs => cs.foldlM (fun n c => (value? c).map (base * n + ·)) 0

/-- The character with a number, unless it is zero, a surrogate or too large. -/
def scalar? (n : Nat) : Option Char :=
  if h : n ≠ 0 ∧ n.isValidChar then some (Char.ofNatAux n h.2) else none

/-- The character meant by what stands between `&` and `;`. -/
def character? : List Char → Option Char
  | '#' :: 'x' :: digits => (number? 16 Text.hexValue? digits).bind scalar?
  | '#' :: digits => (number? 10 decimalValue? digits).bind scalar?
  | ['a', 'm', 'p'] => some '&'
  | ['l', 't'] => some '<'
  | ['g', 't'] => some '>'
  | ['q', 'u', 'o', 't'] => some '\x22'
  | ['a', 'p', 'o', 's'] => some '\x27'
  | _ => none

/-- Read on, inside a reference if there are characters at hand, latest
first. -/
def resolveFrom : Option (List Char) → List Char → Option (List Char)
  | none, [] => some []
  | some _, [] => none
  | none, c :: cs =>
    if c = '&' then resolveFrom (some []) cs else (resolveFrom none cs).map (c :: ·)
  | some held, c :: cs =>
    if c = ';' then
      match character? held.reverse with
      | some d => (resolveFrom none cs).map (d :: ·)
      | none => none
    else if c = '&' then none
    else resolveFrom (some (c :: held)) cs

/-- The text meant by a raw text, unless one of its references means nothing. -/
def resolve (raw : List Char) : Option (List Char) := resolveFrom none raw

/-! ## Writing -/

def escapeChar (c : Char) : List Char :=
  if c = '&' then "&amp;".toList
  else if c = '<' then "&lt;".toList
  else if c = '>' then "&gt;".toList
  else if c = '\x22' then "&quot;".toList
  else [c]

def escape (cs : List Char) : List Char := cs.flatMap escapeChar

theorem resolveFrom_escapeChar (c : Char) (cs : List Char) :
    resolveFrom none (escapeChar c ++ cs) = (resolveFrom none cs).map (c :: ·) := by
  unfold escapeChar
  split
  · case isTrue h =>
    subst h
    rfl
  · split
    · case isTrue h =>
      subst h
      rfl
    · split
      · case isTrue h =>
        subst h
        rfl
      · split
        · case isTrue h =>
          subst h
          rfl
        · case isFalse hamp _ _ _ => simp [resolveFrom, hamp]

theorem resolve_escape (cs : List Char) : resolve (escape cs) = some cs := by
  unfold resolve escape
  induction cs with
  | nil => rfl
  | cons c cs ih => rw [List.flatMap_cons, resolveFrom_escapeChar, ih, Option.map_some]

/-- No quote is left to end a quoted value early. -/
theorem quote_not_mem_escape (cs : List Char) : '\x22' ∉ escape cs := by
  intro h
  obtain ⟨c, _, hc⟩ := List.mem_flatMap.1 h
  unfold escapeChar at hc
  split at hc
  · exact absurd hc (by decide)
  · split at hc
    · exact absurd hc (by decide)
    · split at hc
      · exact absurd hc (by decide)
      · split at hc
        · exact absurd hc (by decide)
        · case isFalse hne => exact hne (List.mem_singleton.1 hc).symm

end Reference
end Markup
end PressCalendar
