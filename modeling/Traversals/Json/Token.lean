/-!
# JSON tokens

A text is cut into marks, words, numbers and quoted texts. A number written
with a fraction or an exponent, and a zero written with a sign, is no integer.
A quoted text may hold escaped halves of characters; halves that do not pair
leave it without content, which matters only to a reader who asks for it.
-/

namespace Traversals.Json

inductive Token where
  | openBrace
  | closeBrace
  | openBracket
  | closeBracket
  | colon
  | comma
  | null
  | bool (b : Bool)
  | integer (n : Int)
  | real
  | text (content : Option String)
  deriving DecidableEq, Repr

namespace Token

def isBlank (c : Char) : Bool :=
  c = ' ' || c = '\t' || c = '\n' || c = '\r'

def isDigit (c : Char) : Bool :=
  48 ≤ c.toNat && c.toNat ≤ 57

/-! ### Numbers -/

/-- The run of digits in front, and what follows it. -/
def digits (cs : List Char) : List Char × List Char :=
  (cs.takeWhile isDigit, cs.dropWhile isDigit)

/-- The number a run of digits writes in base ten. -/
def natural (ds : List Char) : Nat :=
  ds.foldl (fun n c => n * 10 + (c.toNat - 48)) 0

/-- A whole number starts with a zero only if it is zero. -/
def isWhole : List Char → Bool
  | [] => false
  | ['0'] => true
  | c :: _ => c ≠ '0'

/-- A point has to be followed by digits. The answer says whether it was there. -/
def fraction : List Char → Option (Bool × List Char)
  | '.' :: cs =>
      match digits cs with
      | ([], _) => none
      | (_, rest) => some (true, rest)
  | cs => some (false, cs)

def dropSign : List Char → List Char
  | '+' :: cs => cs
  | '-' :: cs => cs
  | cs => cs

/-- An exponent may have a sign and has to have digits. -/
def exponent : List Char → Option (Bool × List Char)
  | [] => some (false, [])
  | c :: cs =>
      if c = 'e' || c = 'E' then
        match digits (dropSign cs) with
        | ([], _) => none
        | (_, rest) => some (true, rest)
      else some (false, c :: cs)

/-- A number without its sign. -/
def magnitude (negative : Bool) (cs : List Char) : Option (Token × List Char) := do
  let (ds, rest) := digits cs
  guard (isWhole ds)
  let (hasFraction, rest) ← fraction rest
  let (hasExponent, rest) ← exponent rest
  let n := natural ds
  if hasFraction || hasExponent || (negative && n == 0) then return (real, rest)
  else return (integer (if negative then -(n : Int) else n), rest)

def number : List Char → Option (Token × List Char)
  | '-' :: cs => magnitude true cs
  | cs => magnitude false cs

/-! ### Quoted texts -/

/-- What a quoted text is written with: characters, and escaped 16-bit units. -/
inductive Piece where
  | character (c : Char)
  | unit (n : Nat)
  deriving DecidableEq, Repr

def hexDigit (c : Char) : Option Nat :=
  let n := c.toNat
  if 48 ≤ n && n ≤ 57 then some (n - 48)
  else if 97 ≤ n && n ≤ 102 then some (n - 87)
  else if 65 ≤ n && n ≤ 70 then some (n - 55)
  else none

def hexUnit (a b c d : Char) : Option Nat := do
  let a ← hexDigit a
  let b ← hexDigit b
  let c ← hexDigit c
  let d ← hexDigit d
  return ((a * 16 + b) * 16 + c) * 16 + d

/-- The character a short escape stands for. -/
def shortEscape (c : Char) : Option Char :=
  match c with
  | '\x22' => some '\x22'
  | '\\' => some '\\'
  | '/' => some '/'
  | 'b' => some '\x08'
  | 'f' => some '\x0c'
  | 'n' => some '\n'
  | 'r' => some '\r'
  | 't' => some '\t'
  | _ => none

/-- The pieces up to the closing quote, and what follows it. Control
characters have to be escaped. -/
def pieces : List Char → Option (List Piece × List Char)
  | [] => none
  | '\x22' :: rest => some ([], rest)
  | '\\' :: 'u' :: a :: b :: c :: d :: rest => do
      let unit ← hexUnit a b c d
      let (tail, rest) ← pieces rest
      return (.unit unit :: tail, rest)
  | '\\' :: c :: rest => do
      let character ← shortEscape c
      let (tail, rest) ← pieces rest
      return (.character character :: tail, rest)
  | c :: rest => do
      guard (32 ≤ c.toNat && c ≠ '\\')
      let (tail, rest) ← pieces rest
      return (.character c :: tail, rest)

def isLeading (n : Nat) : Bool := 0xD800 ≤ n && n < 0xDC00

def isTrailing (n : Nat) : Bool := 0xDC00 ≤ n && n < 0xE000

/-- The character written by a leading and a trailing half. -/
def joined (leading trailing : Nat) : Char :=
  Char.ofNat (0x10000 + (leading - 0xD800) * 0x400 + (trailing - 0xDC00))

/-- The characters of a quoted text, if every half has its partner. -/
def characters : List Piece → Option (List Char)
  | [] => some []
  | .character c :: rest => do
      let tail ← characters rest
      return c :: tail
  | .unit leading :: .unit trailing :: rest =>
      if isLeading leading then do
        guard (isTrailing trailing)
        let tail ← characters rest
        return joined leading trailing :: tail
      else do
        guard (!isTrailing leading)
        let tail ← characters (.unit trailing :: rest)
        return Char.ofNat leading :: tail
  | .unit n :: rest => do
      guard (!isLeading n && !isTrailing n)
      let tail ← characters rest
      return Char.ofNat n :: tail

def quotedText (cs : List Char) : Option (Token × List Char) := do
  let (written, rest) ← pieces cs
  return (text ((characters written).map String.ofList), rest)

/-! ### Whole texts -/

/-- The first token of a text that does not start with a blank. -/
def first : List Char → Option (Token × List Char)
  | '{' :: rest => some (openBrace, rest)
  | '}' :: rest => some (closeBrace, rest)
  | '[' :: rest => some (openBracket, rest)
  | ']' :: rest => some (closeBracket, rest)
  | ':' :: rest => some (colon, rest)
  | ',' :: rest => some (comma, rest)
  | '\x22' :: rest => quotedText rest
  | 'n' :: 'u' :: 'l' :: 'l' :: rest => some (null, rest)
  | 't' :: 'r' :: 'u' :: 'e' :: rest => some (bool true, rest)
  | 'f' :: 'a' :: 'l' :: 's' :: 'e' :: rest => some (bool false, rest)
  | cs => number cs

/-- All tokens of a text. Every token takes a character, so a bound above the
length of the text is never reached. -/
def scan : Nat → List Char → Option (List Token)
  | 0, _ => none
  | bound + 1, cs =>
      match cs.dropWhile isBlank with
      | [] => some []
      | c :: cs => do
          let (token, rest) ← first (c :: cs)
          let tail ← scan bound rest
          return token :: tail

def ofString (s : String) : Option (List Token) :=
  scan (s.length + 1) s.toList

end Token

end Traversals.Json
