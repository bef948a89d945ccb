import Mathlib.Data.List.Basic
import Mathlib.Data.Nat.Notation
import Mathlib.Data.Int.Notation
import Traversals.Json.Basic
import Traversals.Json.Token

/-!
# Spellings

The ways to write a value in JSON, as trees of what is written: blanks, digits,
characters of quoted texts with their escapes. Each spelling has the characters
it is written with, the tokens in them, and the value it stands for. Any text
of a value is made of the characters of a spelling, and blanks around it.
-/

namespace Traversals.Json

/-- Blanks between tokens. -/
structure Blanks where
  chars : List Char
  blank : ∀ c ∈ chars, Token.isBlank c = true

def Blanks.none : Blanks := ⟨[], by simp⟩

/-- One digit or more. -/
structure Digits where
  first : Fin 10
  others : List (Fin 10)

def Digits.chars (digits : Digits) : List Char :=
  (digits.first :: digits.others).map fun digit : Fin 10 => Nat.digitChar digit

structure Exponent where
  capital : Bool
  sign : Option Bool
  digits : Digits

def Exponent.chars (exponent : Exponent) : List Char :=
  (if exponent.capital then 'E' else 'e') ::
    ((exponent.sign.toList.map fun negative => if negative then '-' else '+') ++
      exponent.digits.chars)

/-- A number. Its whole part has no zeros in front. -/
structure Numeral where
  negative : Bool
  whole : ℕ
  fraction : Option Digits
  exponent : Option Exponent

namespace Numeral

def fractionChars (numeral : Numeral) : List Char :=
  numeral.fraction.elim [] fun digits => '.' :: digits.chars

def exponentChars (numeral : Numeral) : List Char :=
  numeral.exponent.elim [] Exponent.chars

/-- The digits and what follows them. -/
def magnitudeChars (numeral : Numeral) : List Char :=
  Nat.toDigits 10 numeral.whole ++ (numeral.fractionChars ++ numeral.exponentChars)

def chars (numeral : Numeral) : List Char :=
  if numeral.negative then '-' :: numeral.magnitudeChars else numeral.magnitudeChars

/-- Only a number without fraction and exponent is an integer, and a zero with a
sign is none. -/
def isReal (numeral : Numeral) : Bool :=
  numeral.fraction.isSome || numeral.exponent.isSome || (numeral.negative && numeral.whole == 0)

def integer (numeral : Numeral) : ℤ :=
  if numeral.negative then -numeral.whole else numeral.whole

def token (numeral : Numeral) : Token :=
  if numeral.isReal then .real else .integer numeral.integer

def json (numeral : Numeral) : Json :=
  if numeral.isReal then .real else .integer numeral.integer

end Numeral

/-- What a quoted text is written with. -/
inductive Written where
  | plain (c : Char) (printable : 32 ≤ c.toNat) (unmarked : c ≠ '\x22' ∧ c ≠ '\\')
  | short (escape character : Char) (short_eq : Token.shortEscape escape = some character)
  | unit (a b c d : Char) (n : ℕ) (unit_eq : Token.hexUnit a b c d = some n)

namespace Written

def chars : Written → List Char
  | plain c _ _ => [c]
  | short escape _ _ => ['\\', escape]
  | unit a b c d _ _ => ['\\', 'u', a, b, c, d]

def piece : Written → Token.Piece
  | plain c _ _ => .character c
  | short _ character _ => .character character
  | unit _ _ _ _ n _ => .unit n

end Written

/-- A quoted text. -/
abbrev Quoted := List Written

namespace Quoted

def chars (quoted : Quoted) : List Char :=
  '\x22' :: (quoted.flatMap Written.chars ++ ['\x22'])

def content (quoted : Quoted) : Option String :=
  (Token.characters (quoted.map Written.piece)).map String.ofList

end Quoted

/-- The name of a member, with blanks around it. -/
structure Key where
  before : Blanks
  quoted : Quoted
  after : Blanks

mutual

inductive Spelling where
  | null
  | bool (b : Bool)
  | numeral (numeral : Numeral)
  | text (quoted : Quoted)
  | emptyArray (blanks : Blanks)
  | array (items : Items)
  | emptyObject (blanks : Blanks)
  | object (members : Members)

/-- One item or more, and the closing bracket. -/
inductive Items where
  | last (before : Blanks) (item : Spelling) (after : Blanks)
  | more (before : Blanks) (item : Spelling) (after : Blanks) (rest : Items)

/-- One member or more, and the closing brace. -/
inductive Members where
  | last (key : Key) (before : Blanks) (item : Spelling) (after : Blanks)
  | more (key : Key) (before : Blanks) (item : Spelling) (after : Blanks) (rest : Members)

end

mutual

def Spelling.chars : Spelling → List Char
  | .null => ['n', 'u', 'l', 'l']
  | .bool true => ['t', 'r', 'u', 'e']
  | .bool false => ['f', 'a', 'l', 's', 'e']
  | .numeral numeral => numeral.chars
  | .text quoted => quoted.chars
  | .emptyArray blanks => '[' :: (blanks.chars ++ [']'])
  | .array items => '[' :: items.chars
  | .emptyObject blanks => '{' :: (blanks.chars ++ ['}'])
  | .object members => '{' :: members.chars

def Items.chars : Items → List Char
  | .last before item after => before.chars ++ (item.chars ++ (after.chars ++ [']']))
  | .more before item after rest =>
      before.chars ++ (item.chars ++ (after.chars ++ ',' :: rest.chars))

def Members.chars : Members → List Char
  | .last key before item after => key.before.chars ++ (key.quoted.chars ++ (key.after.chars ++
      ':' :: (before.chars ++ (item.chars ++ (after.chars ++ ['}'])))))
  | .more key before item after rest => key.before.chars ++ (key.quoted.chars ++
      (key.after.chars ++ ':' :: (before.chars ++ (item.chars ++
        (after.chars ++ ',' :: rest.chars)))))

end

mutual

def Spelling.tokens : Spelling → List Token
  | .null => [.null]
  | .bool b => [.bool b]
  | .numeral numeral => [numeral.token]
  | .text quoted => [.text quoted.content]
  | .emptyArray _ => [.openBracket, .closeBracket]
  | .array items => .openBracket :: items.tokens
  | .emptyObject _ => [.openBrace, .closeBrace]
  | .object members => .openBrace :: members.tokens

def Items.tokens : Items → List Token
  | .last _ item _ => item.tokens ++ [.closeBracket]
  | .more _ item _ rest => item.tokens ++ .comma :: rest.tokens

def Members.tokens : Members → List Token
  | .last key _ item _ => .text key.quoted.content :: .colon :: (item.tokens ++ [.closeBrace])
  | .more key _ item _ rest =>
      .text key.quoted.content :: .colon :: (item.tokens ++ .comma :: rest.tokens)

end

mutual

/-- The value that is spelled. -/
def Spelling.json : Spelling → Json
  | .null => .null
  | .bool b => .bool b
  | .numeral numeral => numeral.json
  | .text quoted => .text quoted.content
  | .emptyArray _ => .array []
  | .array items => .array items.json
  | .emptyObject _ => .object []
  | .object members => .object members.json

def Items.json : Items → List Json
  | .last _ item _ => [item.json]
  | .more _ item _ rest => item.json :: rest.json

def Members.json : Members → List (Option String × Json)
  | .last key _ item _ => [(key.quoted.content, item.json)]
  | .more key _ item _ rest => (key.quoted.content, item.json) :: rest.json

end

/-- A text of a value. -/
def Spells (text : String) (json : Json) : Prop :=
  ∃ (before : Blanks) (spelling : Spelling) (after : Blanks), spelling.json = json ∧
    text.toList = before.chars ++ (spelling.chars ++ after.chars)

end Traversals.Json
