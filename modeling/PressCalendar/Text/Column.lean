/-
Columns of a table in plain text.
-/

namespace PressCalendar
namespace Text

/-- A text moved to the right edge of a column.  A longer text is kept whole, so
it pushes what follows it to the right. -/
def alignRight (width : Nat) (cs : List Char) : List Char :=
  List.replicate (width - cs.length) ' ' ++ cs

theorem length_alignRight {width : Nat} {cs : List Char} (h : cs.length ≤ width) :
    (alignRight width cs).length = width := by
  simp only [alignRight, List.length_append, List.length_replicate]
  omega

end Text
end PressCalendar
