import Traversals.Text.Shapeless

/-!
# Quoted text

A text shown inside a record stands in double quotes. Quotes, backslashes and
the controls that have a short name are written with a backslash; any other
character without a shape of its own is written by its number in base sixteen.
-/

namespace Traversals.Text

/-- The digits of a number in base sixteen, in lower case. -/
def hexadecimal (n : Nat) : String :=
  String.ofList (Nat.toDigits 16 n)

def escape (c : Char) : String :=
  match c with
  | '\x22' => "\\\x22"
  | '\\' => "\\\\"
  | '\n' => "\\n"
  | '\r' => "\\r"
  | '\t' => "\\t"
  | '\x00' => "\\0"
  | c => if isShapeless c then "\\u\x7b" ++ hexadecimal c.toNat ++ "\x7d" else c.toString

def quoted (text : String) : String :=
  "\x22" ++ String.join (text.toList.map escape) ++ "\x22"

end Traversals.Text
