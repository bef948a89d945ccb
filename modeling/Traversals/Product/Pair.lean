import Traversals.Product.Phase
import Traversals.Run
import Traversals.Text.Layout

/-!
# Products of two

The product of a traversal with a source that can be traversed again: for each
element of the head, one traversal of the source. The first pull asks the
source before the head, so an empty source ends the product at once, and the
traversal that was asked serves the first element of the head.
-/

namespace Traversals

variable {ω τ σ υ α β : Type}

structure PairProduct (τ σ υ α : Type) where
  head : τ
  current : Option α
  source : σ
  tail : Option υ
  phase : Phase

namespace PairProduct

def ofSources (head : τ) (source : σ) : PairProduct τ σ υ α :=
  ⟨head, none, source, none, .fresh⟩

/-- The first row: one pull of a new tail, then one of the head. -/
def first (pullHead : Pull ω τ α) (start : Start ω σ υ) (pullTail : Pull ω υ β) :
    Pull ω (PairProduct τ σ υ α) (α × β) := fun product => do
  let tail ← start product.source
  let (right, tail) ← pullTail tail
  match right with
  | none => return (none, { product with phase := .exhausted })
  | some right =>
      let (left, head) ← pullHead product.head
      match left with
      | none => return (none, { product with head, phase := .exhausted })
      | some left =>
          return (some (left, right),
            { product with head, current := some left, tail := some tail, phase := .running })

/-- One pull of the tail at hand, if there is one. -/
def pullCurrent (pullTail : Pull ω υ β) (product : PairProduct τ σ υ α) :
    Run ω (Option (α × β) × PairProduct τ σ υ α) :=
  match product.current, product.tail with
  | some left, some tail => do
      let (right, tail) ← pullTail tail
      return (right.map fun right => (left, right), { product with tail := some tail })
  | _, _ => return (none, product)

/-- A later row: the tail at hand, or a new one for the next element of the head. -/
def later (pullHead : Pull ω τ α) (start : Start ω σ υ) (pullTail : Pull ω υ β) :
    Nat → Pull ω (PairProduct τ σ υ α) (α × β)
  | 0, _ => Run.outOfBudget
  | budget + 1, product => do
      let (row, product) ← pullCurrent pullTail product
      match row with
      | some row => return (some row, product)
      | none =>
          let (left, head) ← pullHead product.head
          match left with
          | none =>
              return (none, { product with
                head, current := none, tail := none, phase := .exhausted })
          | some left =>
              let tail ← start product.source
              later pullHead start pullTail budget
                { product with head, current := some left, tail := some tail }

def next (pullHead : Pull ω τ α) (start : Start ω σ υ) (pullTail : Pull ω υ β)
    (budget : Nat) : Pull ω (PairProduct τ σ υ α) (α × β) := fun product =>
  match product.phase with
  | .exhausted => return (none, product)
  | .fresh => first pullHead start pullTail product
  | .running => later pullHead start pullTail budget product

def inspect (product : PairProduct τ σ υ α) : String :=
  Text.openRecord "Product2" [("phase", product.phase.inspect)]

end PairProduct

end Traversals
