import Traversals.Expression.Build

/-!
# Building comprehensions call by call

A comprehension builder over the shared store. Each predicate that is added
gets a place in the store, whether it is new or was shared before, so the
comprehension that is built and its copies ask the same ones.
-/

namespace Traversals

abbrev BuilderCall : Type := ComprehensionBuilder.Call Mapper Predicate

/-- A call with the place of its predicate, if it adds one. -/
def Store.placeCall (store : Store) : BuilderCall → ComprehensionBuilder.Call Mapper Nat × Store
  | .mapper mapper => (.mapper mapper, store)
  | .predicate predicate =>
      let (place, store) := store.addPredicate predicate
      (.predicate place, store)
  | .sharedPredicate predicate =>
      let (place, store) := store.addPredicate predicate
      (.sharedPredicate place, store)

namespace ComprehensionBuilder

def perform (builder : ComprehensionBuilder Mapper Nat) (store : Store) (call : BuilderCall) :
    ComprehensionBuilder Mapper Nat × Store :=
  let (placed, store) := store.placeCall call
  (builder.call placed, store)

/-- The texts of a builder from its start on, and the builder after the last call. -/
def performAll (builder : ComprehensionBuilder Mapper Nat) :
    List BuilderCall → Store → (List String × ComprehensionBuilder Mapper Nat) × Store
  | [], store => (([builder.inspect], builder), store)
  | call :: calls, store =>
      let (next, store) := builder.perform store call
      let ((texts, last), store) := next.performAll calls store
      ((builder.inspect :: texts, last), store)

end ComprehensionBuilder

end Traversals
