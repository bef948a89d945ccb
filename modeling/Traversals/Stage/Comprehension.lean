import Traversals.Error
import Traversals.Run
import Traversals.SizeHint

/-!
# Comprehensions

A comprehension answers with the image of each element that passes all of its
predicates. They are asked in order, and the first refusal drops the element
without asking the rest. A comprehension has at least one predicate. Its
predicates are named by handles, so that copies of a comprehension ask the
same ones.

A builder collects the mapper and the predicates one at a time.
-/

namespace Traversals

variable {ω τ φ π α β : Type}

structure Comprehension (τ φ π : Type) where
  input : τ
  mapper : φ
  predicates : List π
  predicates_ne : predicates ≠ []

namespace Comprehension

def make (input : τ) (mapper : φ) (predicates : List π) :
    Except BuildError (Comprehension τ φ π) :=
  if h : predicates = [] then .error (.missingArgument "predicates")
  else .ok ⟨input, mapper, predicates, h⟩

/-- Whether an element passes all predicates, up to the first refusal. -/
def passes (ask : π → α → Run ω Bool) : List π → α → Run ω Bool
  | [], _ => return true
  | predicate :: rest, x => do
      let accepted ← ask predicate x
      if accepted then passes ask rest x else return false

/-- Pulls until an element passes, and answers with its image. -/
def next (pull : Pull ω τ α) (ask : π → α → Run ω Bool) (apply : φ → α → Run ω (β × φ)) :
    Nat → Pull ω (Comprehension τ φ π) β
  | 0, _ => Run.outOfBudget
  | budget + 1, stage => do
      let (element, input) ← pull stage.input
      match element with
      | none => return (none, { stage with input })
      | some x =>
          let accepted ← passes ask stage.predicates x
          if accepted then
            let (image, mapper) ← apply stage.mapper x
            return (some image, { stage with input, mapper })
          else next pull ask apply budget { stage with input }

def hint (inputHint : τ → SizeHint) (stage : Comprehension τ φ π) : SizeHint :=
  (inputHint stage.input).thinned

/-- Shown with the text of the input in its place. -/
def inspect (stage : Comprehension String φ π) : String :=
  Text.openRecord "Comprehension"
    [("upstream", stage.input), ("predicate_count", toString stage.predicates.length)]

def predicateCount (stage : Comprehension τ φ π) : Nat :=
  stage.predicates.length

end Comprehension

structure ComprehensionBuilder (φ π : Type) where
  mapper : Option φ := none
  predicates : List π := []

/-- A call of a builder. The predicate it adds may be new, or shared before. -/
inductive ComprehensionBuilder.Call (φ π : Type) where
  | mapper (mapper : φ)
  | predicate (predicate : π)
  | sharedPredicate (predicate : π)

namespace ComprehensionBuilder

/-- The last mapper that is set counts. -/
def setMapper (builder : ComprehensionBuilder φ π) (mapper : φ) : ComprehensionBuilder φ π :=
  { builder with mapper := some mapper }

/-- Predicates are asked in the order they are added. -/
def addPredicate (builder : ComprehensionBuilder φ π) (predicate : π) :
    ComprehensionBuilder φ π :=
  { builder with predicates := builder.predicates ++ [predicate] }

def call (builder : ComprehensionBuilder φ π) : Call φ π → ComprehensionBuilder φ π
  | .mapper mapper => builder.setMapper mapper
  | .predicate predicate => builder.addPredicate predicate
  | .sharedPredicate predicate => builder.addPredicate predicate

def build (builder : ComprehensionBuilder φ π) (input : τ) :
    Except BuildError (Comprehension τ φ π) :=
  match builder.mapper with
  | none => .error (.missingArgument "mapper")
  | some mapper => Comprehension.make input mapper builder.predicates

def inspect (builder : ComprehensionBuilder φ π) : String :=
  Text.record "ComprehensionBuilder"
    [("has_mapper", Text.bool builder.mapper.isSome),
      ("predicate_count", toString builder.predicates.length)]

end ComprehensionBuilder

end Traversals
