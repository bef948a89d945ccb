import Traversals.Value

/-!
# Reducers

A reducer combines what has been accumulated with one more value. The
arithmetic reducers answer with the value alone unless both are integers.
-/

namespace Traversals

structure Reducer where
  tag : Option String
  combine : Value → Value → Value

namespace Reducer

def onIntegers (f : Int → Int → Int) : Value → Value → Value
  | .int a, .int b => .int (f a b)
  | _, b => b

def add : Value → Value → Value := onIntegers fun a b => Value.wrap (a + b)

def subtract : Value → Value → Value := onIntegers fun a b => Value.wrap (a - b)

def greatest : Value → Value → Value := onIntegers max

def pair (a b : Value) : Value := .list [a, b]

/-- The catalogue. -/
def ofName? (name : String) (tag : Option String) : Option Reducer :=
  match name with
  | "add" => some ⟨tag, add⟩
  | "sub" => some ⟨tag, subtract⟩
  | "max" => some ⟨tag, greatest⟩
  | "first" => some ⟨tag, fun a _ => a⟩
  | "second" => some ⟨tag, fun _ b => b⟩
  | "pair" => some ⟨tag, pair⟩
  | _ => none

end Reducer

end Traversals
