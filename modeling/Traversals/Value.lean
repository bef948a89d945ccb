import Traversals.Text.Layout

/-!
# Values

The elements of assembled pipelines: nothing, truth values, integers, texts,
lists, and numbered values. Rows of zips and products are lists.
-/

namespace Traversals

inductive Value where
  | null
  | bool (b : Bool)
  | int (n : Int)
  | text (s : String)
  | list (items : List Value)
  | indexed (index : Nat) (value : Value)

namespace Value

mutual

/-- Equality of structure. -/
def same : Value → Value → Bool
  | null, null => true
  | bool a, bool b => a == b
  | int a, int b => a == b
  | text a, text b => a == b
  | list a, list b => sameAll a b
  | indexed i a, indexed j b => i == j && same a b
  | _, _ => false

def sameAll : List Value → List Value → Bool
  | [], [] => true
  | a :: as, b :: bs => same a b && sameAll as bs
  | _, _ => false

end

mutual

/-- The text of a value. Texts stand for themselves, without quotes. -/
def display : Value → String
  | null => "null"
  | bool b => Text.bool b
  | int n => toString n
  | text s => s
  | list items => Text.list (displayAll items)
  | indexed index value => toString index ++ ": " ++ display value

def displayAll : List Value → List String
  | [] => []
  | item :: items => display item :: displayAll items

end

/-- An integer reduced to 64 bits, read with a sign. -/
def wrap (n : Int) : Int := Int.bmod n 0x10000000000000000

/-- A list is its own elements; any other value is the only one. -/
def elements : Value → List Value
  | list items => items
  | value => [value]

end Value

end Traversals
