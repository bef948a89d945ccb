import Traversals.Value

/-!
# Predicates

A predicate is a test on values with a memory of its own, or the negation of
a predicate, which asks it and turns its answer around.
-/

namespace Traversals

inductive Predicate where
  /-- From the memory and an argument to the answer and the next memory. -/
  | test (tag : Option String) (memory : Value) (step : Value → Value → Bool × Value)
  | negated (tag : Option String) (inner : Predicate)

namespace Predicate

def stateless (f : Value → Bool) (tag : Option String) : Predicate :=
  test tag .null fun memory argument => (f argument, memory)

/-- A stateless test on integers; other values fail it. -/
def onIntegers (f : Int → Bool) : Option String → Predicate :=
  stateless fun
    | .int n => f n
    | _ => false

def even : Option String → Predicate :=
  onIntegers fun m => m % 2 == 0

def greaterThan (n : Int) : Option String → Predicate :=
  onIntegers fun m => m > n

def lessThan (n : Int) : Option String → Predicate :=
  onIntegers fun m => m < n

/-- The remainder that is not negative is compared; a zero divisor fails. -/
def hasRemainder (n r : Int) : Option String → Predicate :=
  onIntegers fun m => n != 0 && m % n == r

def equals (v : Value) : Option String → Predicate :=
  stateless (Value.same v)

def isNull : Option String → Predicate :=
  stateless fun
    | .null => true
    | _ => false

/-- Passes each time so many calls have been made. -/
def every (n : Int) (tag : Option String) : Predicate :=
  test tag (.int 0) fun
    | .int calls, _ => (n != 0 && (calls + 1) % n == 0, .int (calls + 1))
    | memory, _ => (false, memory)

/-- The catalogue, negations apart. -/
def ofName? (name : String) (n r : Int) (v : Value) : Option (Option String → Predicate) :=
  match name with
  | "true" => some (stateless fun _ => true)
  | "false" => some (stateless fun _ => false)
  | "even" => some even
  | "gt" => some (greaterThan n)
  | "lt" => some (lessThan n)
  | "mod" => some (hasRemainder n r)
  | "eq" => some (equals v)
  | "null" => some isNull
  | "every" => some (every n)
  | _ => none

end Predicate

end Traversals
