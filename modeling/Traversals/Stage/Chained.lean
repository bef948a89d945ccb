import Traversals.SizeHint
import Traversals.Stage.Fused

/-!
# Chained traversals

Two traversals one after the other, and the lists delivered by a traversal one
after the other. The first of two traversals is let go at its end, whatever its
type promises. The traversal that delivers lists is fused.
-/

namespace Traversals

variable {ω τ υ α β : Type}

structure Concat (τ υ : Type) where
  first : Fused τ
  second : υ

namespace Concat

def next (pullFirst : Pull ω τ α) (pullSecond : Pull ω υ α) : Pull ω (Concat τ υ) α :=
  fun stage => do
    let (element, first) ← Fused.next .nothing pullFirst stage.first
    match element with
    | some x => return (some x, { stage with first })
    | none =>
        let (element, second) ← pullSecond stage.second
        return (element, { first, second })

def hint (firstHint : τ → SizeHint) (secondHint : υ → SizeHint) (stage : Concat τ υ) :
    SizeHint :=
  match stage.first.input with
  | none => secondHint stage.second
  | some first => (firstHint first).followedBy (secondHint stage.second)

end Concat

structure Flattened (τ α : Type) where
  outer : Fused τ
  /-- What is left of the list at hand. -/
  current : List α

namespace Flattened

/-- Takes from the list at hand, or from the next one that is not empty. -/
def next (promise : Promise) (pull : Pull ω τ β) (elements : β → List α) :
    Nat → Pull ω (Flattened τ α) α
  | 0, _ => Run.outOfBudget
  | budget + 1, stage =>
      match stage.current with
      | x :: current => return (some x, { stage with current })
      | [] => do
          let (inner, outer) ← Fused.next promise pull stage.outer
          match inner with
          | none => return (none, { stage with outer })
          | some inner => next promise pull elements budget { outer, current := elements inner }

end Flattened

end Traversals
