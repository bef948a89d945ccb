import Traversals.Value

/-!
# Mappers

A mapper is a function on values with a memory of its own. The catalogue gives
the mappers that have a name; an argument of a kind that a mapper is not made
for is left as it is.
-/

namespace Traversals

structure Mapper where
  tag : Option String
  memory : Value
  /-- From the memory and an argument to the result and the next memory. -/
  step : Value → Value → Value × Value

namespace Mapper

def stateless (f : Value → Value) (tag : Option String) : Mapper where
  tag := tag
  memory := .null
  step memory argument := (f argument, memory)

/-- A stateless mapper on integers. -/
def onIntegers (f : Int → Value) : Option String → Mapper :=
  stateless fun
    | .int n => f n
    | argument => argument

def add (n : Int) : Option String → Mapper :=
  onIntegers fun m => .int (Value.wrap (m + n))

def multiply (n : Int) : Option String → Mapper :=
  onIntegers fun m => .int (Value.wrap (m * n))

/-- The remainder that is not negative; a zero divisor changes nothing. -/
def remainder (n : Int) : Option String → Mapper :=
  onIntegers fun m => .int (if n = 0 then m else Value.wrap (m % n))

def square : Option String → Mapper :=
  onIntegers fun m => .int (Value.wrap (m * m))

def oddToNull : Option String → Mapper :=
  onIntegers fun m => if m % 2 = 0 then .int m else .null

/-- The sum of all integers so far. -/
def runningSum (tag : Option String) : Mapper where
  tag := tag
  memory := .int 0
  step
    | .int sum, .int n => (.int (Value.wrap (sum + n)), .int (Value.wrap (sum + n)))
    | memory, argument => (argument, memory)

/-- The number of earlier calls. -/
def counter (tag : Option String) : Mapper where
  tag := tag
  memory := .int 0
  step
    | .int calls, _ => (.int calls, .int (calls + 1))
    | memory, argument => (argument, memory)

def display : Option String → Mapper :=
  stateless fun argument => .text argument.display

def length : Option String → Mapper :=
  stateless fun
    | .text s => .int s.length
    | .list items => .int items.length
    | argument => argument

def const (v : Value) : Option String → Mapper :=
  stateless fun _ => v

def pair : Option String → Mapper :=
  stateless fun argument => .list [argument, argument]

/-- The element of a list at a place, null outside the list. -/
def elementAt (n : Int) : Option String → Mapper :=
  stateless fun
    | .list items => if 0 ≤ n then items[n.toNat]?.getD .null else .null
    | argument => argument

def index : Option String → Mapper :=
  stateless fun
    | .indexed index _ => .int index
    | argument => argument

def value : Option String → Mapper :=
  stateless fun
    | .indexed _ value => value
    | argument => argument

/-- The catalogue. -/
def ofName? (name : String) (n : Int) (v : Value) : Option (Option String → Mapper) :=
  match name with
  | "id" => some (stateless id)
  | "add" => some (add n)
  | "mul" => some (multiply n)
  | "mod" => some (remainder n)
  | "square" => some square
  | "odd_null" => some oddToNull
  | "running_sum" => some runningSum
  | "counter" => some counter
  | "str" => some display
  | "len" => some length
  | "const" => some (const v)
  | "pair" => some pair
  | "at" => some (elementAt n)
  | "index" => some index
  | "value" => some value
  | _ => none

end Mapper

end Traversals
