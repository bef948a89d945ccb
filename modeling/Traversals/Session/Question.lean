import Traversals.Eager.Checked
import Traversals.Eager.Search
import Traversals.Pipeline.Next

/-!
# Questions

What can be asked of a pipeline at once: to be drained in one of several ways,
or searched. The answer is a value, perhaps no value, or a refusal.
-/

namespace Traversals

inductive Question where
  | materialize
  | reverse
  | subSequence (dropped : Nat) (taken : Option Nat) (stride : Nat)
  | comprehension (mapper : Mapper) (predicates : List Predicate)
  | slice (bounds : SliceBounds)
  | batch (size : Nat)
  | first
  | last
  | firstMatching (predicate : Predicate)
  | lastMatching (predicate : Predicate)
  | nth (index : Nat)
  | reduce (reducer : Reducer)
  | fold (start : Value) (reducer : Reducer)
  | count
  | any (predicate : Predicate)
  | all (predicate : Predicate)
  | partition (predicate : Predicate)
  | join (separator : String)
  /-- The integers among the elements, each once, in ascending order. -/
  | integerSet

inductive Answer where
  | value (value : Value)
  | element (element : Option Value)
  | refused (error : BuildError)

/-- Inserts an integer in its place unless it is there. -/
def insertInteger (n : Int) : List Int → List Int
  | [] => [n]
  | m :: rest =>
      if n < m then n :: m :: rest
      else if n = m then m :: rest
      else m :: insertInteger n rest

def integersAmong (elements : List Value) : List Int :=
  elements.foldl (fun found element =>
    match element with
    | .int n => insertInteger n found
    | _ => found) []

namespace Answer

def ofLists : Except BuildError (List (List Value)) → Answer
  | .error error => refused error
  | .ok lists => value (.list (lists.map .list))

def ofList : Except BuildError (List Value) → Answer
  | .error error => refused error
  | .ok elements => value (.list elements)

end Answer

/-- Answers a question by pulling the pipeline. Nothing is pulled if the
question is refused. -/
def Question.answer (budget : Nat) (pipeline : Pipeline) : Question → Run Store Answer
  | materialize => do
      let elements ← Eager.materialize (Pipeline.next budget) budget pipeline
      return .value (.list elements)
  | reverse => do
      let elements ← Eager.reverse (Pipeline.next budget) budget pipeline
      return .value (.list elements)
  | subSequence dropped taken stride => do
      let result ←
        Eager.subSequence (Pipeline.next budget) budget pipeline dropped taken stride
      return .ofList result
  | comprehension mapper predicates => do
      let places ← modifyGet fun store => store.addPredicates predicates
      let result ← Eager.comprehension (Pipeline.next budget) Store.ask Mapper.apply budget
        mapper pipeline places
      return .ofList result
  | slice bounds => do
      let result ← Eager.slice (Pipeline.next budget) bounds budget pipeline
      return .ofList result
  | batch size => do
      let result ← Eager.batch .nothing (Pipeline.next budget) budget pipeline size
      return .ofLists result
  | first => do
      let element ← Eager.first (Pipeline.next budget) pipeline
      return .element element
  | last => do
      let element ← Eager.last (Pipeline.next budget) budget pipeline
      return .element element
  | firstMatching predicate => do
      let element ← Eager.firstMatching (Pipeline.next budget) Predicate.ask budget predicate
        pipeline
      return .element element
  | lastMatching predicate => do
      let element ← Eager.lastMatching (Pipeline.next budget) Predicate.ask budget predicate
        pipeline
      return .element element
  | nth index => do
      let element ← Eager.elementAt (Pipeline.next budget) index pipeline
      return .element element
  | reduce reducer => do
      let element ← Eager.reduce (Pipeline.next budget) reducer.apply budget pipeline
      return .element element
  | fold start reducer => do
      let result ← Eager.fold (Pipeline.next budget) reducer.apply budget start pipeline
      return .value result
  | count => do
      let n ← Eager.count (Pipeline.next budget) budget pipeline
      return .value (.int n)
  | any predicate => do
      let b ← Eager.any (Pipeline.next budget) Predicate.ask budget predicate pipeline
      return .value (.bool b)
  | all predicate => do
      let b ← Eager.all (Pipeline.next budget) Predicate.ask budget predicate pipeline
      return .value (.bool b)
  | partition predicate => do
      let (passed, failed) ←
        Eager.partition (Pipeline.next budget) Predicate.ask budget predicate pipeline
      return .value (.list [.list passed, .list failed])
  | join separator => do
      let text ← Eager.join (Pipeline.next budget) Value.display separator budget pipeline
      return .value (.text text)
  | integerSet => do
      let elements ← Eager.materialize (Pipeline.next budget) budget pipeline
      return .value (.list ((integersAmong elements).map .int))

end Traversals
