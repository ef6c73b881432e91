/-
The attributes of a tag: names with quoted values.

An attribute that is not well formed is a fault, as is a name that comes a second
time.  `Attribute.scan` goes on behind every fault.  `Attribute.readAll` stops at
the first one; the flag beside the list says whether it got to the end.
-/
import PressCalendar.Markup.Reference
import PressCalendar.Markup.Token

namespace PressCalendar
namespace Markup

structure Attribute where
  name : List Char
  /-- The value as it is written between its quotes. -/
  value : List Char
deriving DecidableEq, Repr

/-- What stands behind the first colon of a name, or all of it. -/
def localName (name : List Char) : List Char :=
  match name.dropWhile (· ≠ ':') with
  | _ :: behind => behind
  | [] => name

namespace Attribute

/-- The name under which an attribute is looked up.  The colon means something
else in declarations of namespaces. -/
def key (a : Attribute) : List Char :=
  if "xmlns:".toList.isPrefixOf a.name then a.name else localName a.name

inductive Next where
  | nothing
  | fault (rest : List Char)
  | found (a : Attribute) (rest : List Char)

def quoted? : List Char → Option (List Char × List Char)
  | q :: cs =>
    if Token.isQuote q then
      match cs.dropWhile (· ≠ q) with
      | _ :: rest => some (cs.takeWhile (· ≠ q), rest)
      | [] => none
    else none
  | [] => none

/-- What is left behind the characters up to the next space. -/
def skipWord (cs : List Char) : List Char := cs.dropWhile (!isSpace ·)

/-- The next attribute, whose name must not be among the ones seen.  The name ends
at an equals sign or at space. -/
def next (seen : List (List Char)) (cs : List Char) : Next :=
  match cs.dropWhile isSpace with
  | [] => .nothing
  | c :: behind =>
    let inName (d : Char) : Bool := !(d = '=' || isSpace d)
    match (behind.dropWhile inName).dropWhile isSpace with
    | '=' :: value =>
      let name := c :: behind.takeWhile inName
      if seen.contains name then .fault (skipWord value)
      else match value.dropWhile isSpace with
        | [] => .fault []
        | q :: quoted =>
          match quoted? (q :: quoted) with
          | some (v, rest) => .found ⟨name, v⟩ rest
          | none => if Token.isQuote q then .fault [] else .fault (skipWord quoted)
    | rest => .fault rest

theorem length_dropWhile_le {α : Type} (p : α → Bool) (xs : List α) :
    (xs.dropWhile p).length ≤ xs.length :=
  (List.dropWhile_suffix p).length_le

theorem length_lt_of_quoted? {cs v rest : List Char} (h : quoted? cs = some (v, rest)) :
    rest.length < cs.length := by
  unfold quoted? at h
  split at h
  · case h_1 q cs =>
    split at h
    · split at h
      · case h_1 c rest' heq =>
        have hle := length_dropWhile_le (fun x => decide (x ≠ q)) cs
        rw [heq, List.length_cons] at hle
        simp only [Option.some.injEq, Prod.mk.injEq] at h
        rw [← h.2, List.length_cons]
        omega
      · exact absurd h (by simp)
    · exact absurd h (by simp)
  · exact absurd h (by simp)

theorem length_lt_of_next {seen : List (List Char)} {cs rest : List Char} {a : Attribute}
    (h : next seen cs = .found a rest ∨ next seen cs = .fault rest) : rest.length < cs.length := by
  unfold next at h
  split at h
  · simp at h
  · case h_2 c behind heq =>
    have hcs := length_dropWhile_le isSpace cs
    rw [heq, List.length_cons] at hcs
    simp only at h
    have hname := length_dropWhile_le (fun d => !(decide (d = '=') || isSpace d)) behind
    have hspace := length_dropWhile_le isSpace
      (behind.dropWhile fun d => !(decide (d = '=') || isSpace d))
    split at h
    · case h_1 value hvalue =>
      rw [hvalue, List.length_cons] at hspace
      have hvalueSpace := length_dropWhile_le isSpace value
      split at h
      · have hskip := length_dropWhile_le (!isSpace ·) value
        simp only [reduceCtorEq, Next.fault.injEq, false_or] at h
        rw [← h, skipWord]
        omega
      · split at h
        · simp only [reduceCtorEq, Next.fault.injEq, false_or] at h
          rw [← h, List.length_nil]
          omega
        · case h_2 q quoted hquote =>
          rw [hquote, List.length_cons] at hvalueSpace
          split at h
          · case h_1 v rest' hquoted =>
            have hrest := length_lt_of_quoted? hquoted
            rw [List.length_cons] at hrest
            simp only [Next.found.injEq, reduceCtorEq, or_false] at h
            rw [← h.2]
            omega
          · have hskip := length_dropWhile_le (!isSpace ·) quoted
            split at h
            · simp only [reduceCtorEq, Next.fault.injEq, false_or] at h
              rw [← h, List.length_nil]
              omega
            · simp only [reduceCtorEq, Next.fault.injEq, false_or] at h
              rw [← h, skipWord]
              omega
    · simp only [reduceCtorEq, Next.fault.injEq, false_or] at h
      rw [← h]
      omega

/-- Everything in a tag, one after the other, with nothing for a fault.  If the
names are to be `distinct`, one that was seen before is a fault. -/
def scan (distinct : Bool) (seen : List (List Char)) (cs : List Char) : List (Option Attribute) :=
  match _h : next seen cs with
  | .nothing => []
  | .fault rest => none :: scan distinct seen rest
  | .found a rest => some a :: scan distinct (if distinct then a.name :: seen else seen) rest
termination_by cs.length
decreasing_by
  · exact length_lt_of_next (a := ⟨[], []⟩) (.inr _h)
  · exact length_lt_of_next (.inl _h)

def sound (found : List (Option Attribute)) : List Attribute :=
  (found.takeWhile Option.isSome).filterMap id

def readAll (cs : List Char) : List Attribute × Bool :=
  let found := scan true [] cs
  (sound found, found.all Option.isSome)

/-- Attributes as they are written in a tag, each with a space in front. -/
def write (name value : List Char) : List Char :=
  ' ' :: name ++ '=' :: '\x22' :: Reference.escape value ++ ['\x22']

end Attribute

end Markup
end PressCalendar
