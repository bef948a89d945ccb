import Traversals.Json.Basic
import Traversals.Json.Token

/-!
# Reading JSON

Tokens are read as one value that nothing may follow. Items and members are
set apart by single commas, and none stands before a closing bracket. Blanks may
stand between tokens and around them. The grammar is granted as it is:
`Json.Spells` has all texts of a value, and each of them is read as that value.
-/

namespace Traversals.Json

mutual

/-- The value in front of the tokens. The bound is spent on every value, item
and member, of which there are fewer than tokens. -/
def value : Nat → List Token → Option (Json × List Token)
  | 0, _ => none
  | _ + 1, .null :: rest => some (null, rest)
  | _ + 1, .bool b :: rest => some (bool b, rest)
  | _ + 1, .integer n :: rest => some (integer n, rest)
  | _ + 1, .real :: rest => some (real, rest)
  | _ + 1, .text content :: rest => some (text content, rest)
  | _ + 1, .openBracket :: .closeBracket :: rest => some (array [], rest)
  | bound + 1, .openBracket :: rest => do
      let (items, rest) ← items bound rest
      return (array items, rest)
  | _ + 1, .openBrace :: .closeBrace :: rest => some (object [], rest)
  | bound + 1, .openBrace :: rest => do
      let (members, rest) ← members bound rest
      return (object members, rest)
  | _ + 1, _ => none

/-- One item or more, and the closing bracket. -/
def items : Nat → List Token → Option (List Json × List Token)
  | 0, _ => none
  | bound + 1, tokens => do
      let (item, rest) ← value bound tokens
      match rest with
      | .closeBracket :: rest => return ([item], rest)
      | .comma :: rest => do
          let (tail, rest) ← items bound rest
          return (item :: tail, rest)
      | _ => none

/-- One member or more, and the closing brace. -/
def members : Nat → List Token → Option (List (Option String × Json) × List Token)
  | 0, _ => none
  | bound + 1, .text key :: .colon :: tokens => do
      let (item, rest) ← value bound tokens
      match rest with
      | .closeBrace :: rest => return ([(key, item)], rest)
      | .comma :: rest => do
          let (tail, rest) ← members bound rest
          return ((key, item) :: tail, rest)
      | _ => none
  | _ + 1, _ => none

end

def ofTokens (tokens : List Token) : Option Json :=
  match value (2 * tokens.length + 1) tokens with
  | some (json, []) => some json
  | _ => none

def ofString (s : String) : Option Json := do
  let tokens ← Token.ofString s
  ofTokens tokens

end Traversals.Json
