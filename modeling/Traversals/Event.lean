import Traversals.Value

/-!
# Events

What a tagged source, function, predicate, effect or reducer reports each time
it is asked. A source reports what it answers, a predicate its answer, the
others what they are given.
-/

namespace Traversals

inductive Event where
  | pulled (tag : String) (value : Value)
  | ended (tag : String)
  | applied (tag : String) (argument : Value)
  | tested (tag : String) (argument : Value) (answer : Bool)
  | visited (tag : String) (value : Value)
  | combined (tag : String) (accumulated value : Value)

end Traversals
