/-
Writing TOML.

An entry takes a line.  A list of one value or none stands in one line, a longer
one has a line for each of its values.
-/
import PressCalendar.Toml.Quoted
import PressCalendar.Toml.Value

namespace PressCalendar
namespace Toml

/-- What is written behind a key: a text, or texts in a list. -/
inductive Content where
  | text (s : String)
  | texts (items : List String)
deriving DecidableEq

namespace Content

def toValue : Content → Value
  | text s => .text s
  | texts items => .list false (items.map .text)

def write : Content → List Char
  | text s => Quoted.write s
  | texts [] => ['[', ']']
  | texts [s] => '[' :: Quoted.write s ++ [']']
  | texts items =>
    "[\n".toList ++ items.flatMap (fun s => "    ".toList ++ Quoted.write s ++ ",\n".toList) ++
      [']']

end Content

def write (entries : List (String × Content)) : String :=
  String.ofList (entries.flatMap fun (key, content) =>
    key.toList ++ " = ".toList ++ content.write ++ ['\n'])

end Toml
end PressCalendar
