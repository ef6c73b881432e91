/-
Plain values of TOML: numbers, truth values, dates and times.

Whoever reads a text for the sake of its quoted values still has to tell whether
its plain ones are sound.  `isSound` decides that for a value as it is written.
-/
import PressCalendar.Date.Basic
import PressCalendar.Text.Digit
import PressCalendar.Text.Separated

namespace PressCalendar
namespace Toml
namespace Plain

open Text

def isPart (c : Char) : Bool :=
  c.isAlphanum || c = '+' || c = '-' || c = '.' || c = ':' || c = '_'

/-- A text without a sign in front of it. -/
def unsigned : List Char → List Char
  | '+' :: rest => rest
  | '-' :: rest => rest
  | rest => rest

/-- Digits with single underscores between them. -/
def isGrouped (isDigit : Char → Bool) (cs : List Char) : Bool :=
  (pieces '_' cs).all fun group => !group.isEmpty && group.all isDigit

def ungrouped (cs : List Char) : List Char := cs.filter (· ≠ '_')

/-! ## Integers -/

/-- A number without zeros in front. -/
def isWhole (cs : List Char) : Bool :=
  isGrouped Char.isDigit cs && (cs = ['0'] || cs.head? ≠ some '0')

def value (base : Nat) (cs : List Char) : Nat :=
  (ungrouped cs).foldl (fun n c => base * n + (hexValue? c).getD 0) 0

def isBelow (base : Nat) (c : Char) : Bool := (hexValue? c).any (· < base)

/-- A number of a base, of at most 63 bits. -/
def isBased (base : Nat) (cs : List Char) : Bool :=
  isGrouped (isBelow base) cs && value base cs < 0x8000000000000000

def isInteger : List Char → Bool
  | '0' :: 'x' :: rest => isBased 16 rest
  | '0' :: 'o' :: rest => isBased 8 rest
  | '0' :: 'b' :: rest => isBased 2 rest
  | cs =>
    let digits := unsigned cs
    isWhole digits &&
      (value 10 digits < 0x8000000000000000 ||
        (cs.head? = some '-' && value 10 digits = 0x8000000000000000))

/-! ## Fractions -/

/-- The least number that is closer to 2¹⁰²⁴ than to any number of 53 bits below
it. -/
def unbounded : Nat := Nat.pow 2 1024 - Nat.pow 2 970

/-- Whether a number times a power of ten is too large to be kept. -/
def isHuge (digits : Nat) (exponent : Int) : Bool :=
  if digits = 0 then false
  else if 0 ≤ exponent then 400 < exponent || unbounded ≤ digits * Nat.pow 10 exponent.toNat
  else if ((Nat.toDigits 10 digits).length : Int) ≤ -exponent then false
  else unbounded * Nat.pow 10 exponent.natAbs ≤ digits

def isExponent (c : Char) : Bool := c = 'e' || c = 'E'

/-- A number with a fraction, an exponent or both. -/
def isFraction (cs : List Char) : Bool :=
  let body := unsigned cs
  let mantissa := body.takeWhile (!isExponent ·)
  let power := body.dropWhile (!isExponent ·)
  let whole := mantissa.takeWhile (· ≠ '.')
  let fraction := mantissa.dropWhile (· ≠ '.')
  let scale := match power with
    | _ :: '-' :: digits => -(value 10 digits : Int)
    | _ :: '+' :: digits => (value 10 digits : Int)
    | _ :: digits => (value 10 digits : Int)
    | [] => 0
  isWhole whole &&
    (fraction.isEmpty || isGrouped Char.isDigit fraction.tail) &&
    (power.isEmpty || isGrouped Char.isDigit (unsigned power.tail)) &&
    !(fraction.isEmpty && power.isEmpty) &&
    (cs.head? = some '-' ||
      !isHuge (value 10 (whole ++ fraction.tail))
        (scale - (ungrouped fraction.tail).length))

def isSpecial (cs : List Char) : Bool := unsigned cs = "inf".toList || unsigned cs = "nan".toList

/-! ## Dates and times -/

def fixed? (width : Nat) (cs : List Char) : Option Nat :=
  if cs.length = width then number? cs else none

def isDay (cs : List Char) : Bool :=
  match (pieces '-' cs) with
  | [y, m, d] =>
    match fixed? 4 y, fixed? 2 m, fixed? 2 d with
    | some y, some m, some d => decide (IsDate y m d)
    | _, _, _ => false
  | _ => false

def isClock (cs : List Char) : Bool :=
  match pieces ':' cs with
  | [h, m] => (fixed? 2 h).any (· < 24) && (fixed? 2 m).any (· < 60)
  | _ => false

/-- Seconds, with a fraction of them if there is a full stop. -/
def isSeconds (cs : List Char) : Bool :=
  (fixed? 2 (cs.takeWhile (· ≠ '.'))).any (· ≤ 60) &&
    match cs.dropWhile (· ≠ '.') with
    | [] => true
    | _ :: digits => (number? digits).isSome

def isTime (cs : List Char) : Bool :=
  isClock (cs.take 5) && (cs.drop 5).head? = some ':' && isSeconds (cs.drop 6)

/-- A time with the difference of its clock behind it, or without. -/
def isZonedTime (cs : List Char) : Bool :=
  let time := cs.takeWhile fun c => c.isDigit || c = ':' || c = '.'
  isTime time &&
    match cs.drop time.length with
    | [] => true
    | ['Z'] => true
    | ['z'] => true
    | '+' :: shift => isClock shift
    | '-' :: shift => isClock shift
    | _ => false

def isMark (c : Char) : Bool := c = 'T' || c = 't' || c = ' '

def isDateTime (cs : List Char) : Bool :=
  isTime cs ||
    (isDay (cs.take 10) &&
      match cs.drop 10 with
      | [] => true
      | mark :: time => isMark mark && isZonedTime time)

/-! ## All of them -/

def isSound (cs : List Char) : Bool :=
  cs = "true".toList || cs = "false".toList || isDateTime cs || isFraction cs ||
    isSpecial cs || isInteger cs

/-- The value at the head of a text.  A date and a time behind a space are one
value. -/
def take? (cs : List Char) : Option (List Char × List Char) :=
  let first := cs.takeWhile isPart
  let rest := cs.drop first.length
  let written := match isDay first, rest with
    | true, ' ' :: c :: _ =>
      if c.isDigit then first ++ ' ' :: (rest.drop 1).takeWhile isPart else first
    | _, _ => first
  if isSound written then some (written, cs.drop written.length) else none

end Plain
end Toml
end PressCalendar
