import Traversals.Event
import Traversals.Memo
import Traversals.Pipeline.Basic
import Traversals.Closure.Reducer

/-!
# The shared store

What copies of a pipeline share: the memos, the batches that are handed out,
the predicates of comprehensions, and the log of events. Each is named by its
place and is never removed. Something untagged reports no events.
-/

namespace Traversals

structure Store where
  memos : Array (Memo Pipeline Value) := #[]
  batches : Array (Batches Pipeline) := #[]
  predicates : Array Predicate := #[]
  log : Array Event := #[]

namespace Store

def addMemo (store : Store) (memo : Memo Pipeline Value) : Nat × Store :=
  (store.memos.size, { store with memos := store.memos.push memo })

def addBatches (store : Store) (batches : Batches Pipeline) : Nat × Store :=
  (store.batches.size, { store with batches := store.batches.push batches })

def addPredicate (store : Store) (predicate : Predicate) : Nat × Store :=
  (store.predicates.size, { store with predicates := store.predicates.push predicate })

/-- Adds predicates, and names their places in order. -/
def addPredicates (store : Store) : List Predicate → List Nat × Store
  | [] => ([], store)
  | predicate :: rest =>
      let (place, store) := store.addPredicate predicate
      let (places, store) := store.addPredicates rest
      (place :: places, store)

def setMemo (store : Store) (place : Nat) (memo : Memo Pipeline Value) : Store :=
  { store with memos := store.memos.setIfInBounds place memo }

def setBatches (store : Store) (place : Nat) (batches : Batches Pipeline) : Store :=
  { store with batches := store.batches.setIfInBounds place batches }

def setPredicate (store : Store) (place : Nat) (predicate : Predicate) : Store :=
  { store with predicates := store.predicates.setIfInBounds place predicate }

def report (store : Store) (tag : Option String) (event : String → Event) : Store :=
  match tag with
  | none => store
  | some tag => { store with log := store.log.push (event tag) }

def withoutLog (store : Store) : Store := { store with log := #[] }

end Store

def report (tag : Option String) (event : String → Event) : Run Store Unit :=
  modify fun store => store.report tag event

/-- Reports its argument, then answers. -/
def Mapper.apply (mapper : Mapper) (argument : Value) : Run Store (Value × Mapper) := do
  report mapper.tag fun tag => .applied tag argument
  let (result, memory) := mapper.step mapper.memory argument
  return (result, { mapper with memory })

/-- Reports its answer, and so after the predicate it negates. -/
def Predicate.ask : Predicate → Value → Run Store (Bool × Predicate)
  | test tag memory step, argument => do
      let (answer, memory) := step memory argument
      report tag fun tag => .tested tag argument answer
      return (answer, test tag memory step)
  | negated tag inner, argument => do
      let (answer, inner) ← inner.ask argument
      report tag fun tag => .tested tag argument !answer
      return (!answer, negated tag inner)

/-- Asks the predicate at a place, which keeps its memory there. -/
def Store.ask (place : Nat) (argument : Value) : Run Store Bool := do
  let store ← get
  match store.predicates[place]? with
  | none => return false
  | some predicate =>
      let (answer, predicate) ← predicate.ask argument
      modify fun store => store.setPredicate place predicate
      return answer

def visit (tag : Option String) (value : Value) : Run Store (Option String) := do
  report tag fun tag => .visited tag value
  return tag

def Reducer.apply (reducer : Reducer) (accumulated value : Value) : Run Store Value := do
  report reducer.tag fun tag => .combined tag accumulated value
  return reducer.combine accumulated value

end Traversals
