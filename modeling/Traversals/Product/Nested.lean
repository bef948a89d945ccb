import Traversals.Product.Pair

/-!
# Nested products

A product of several sources built from products of two: the first source
against the product of the others. A row of it is the element of the first
source in front of a row of the others.
-/

namespace Traversals

variable {ω σ τ α : Type}

inductive Nested (σ τ α : Type) where
  | last (traversal : τ)
  | pair (product : PairProduct τ (σ × List σ) (Nested σ τ α) α)

namespace Nested

/-- The product of a traversal with further sources. -/
def ofSources (head : τ) : List σ → Nested σ τ α
  | [] => .last head
  | second :: rest => .pair (.ofSources head (second, rest))

/-- A new product of a first source and the others, made again and again as the
source of the level before it. Its first source is started anew each time. A copy
of a traversal that was started once and never asked would be the same: all
traversals of a source deliver alike, and none of them is disturbed by the others. -/
def start (startSource : Start ω σ τ) (sources : σ × List σ) : Run ω (Nested σ τ α) := do
  let head ← startSource sources.1
  return ofSources head sources.2

def next (startSource : Start ω σ τ) (pull : Pull ω τ α) :
    Nat → Pull ω (Nested σ τ α) (List α)
  | 0, _ => Run.outOfBudget
  | _ + 1, .last traversal => do
      let (element, traversal) ← pull traversal
      return (element.map ([·]), .last traversal)
  | budget + 1, .pair product => do
      let (row, product) ← PairProduct.next pull (start startSource)
        (next startSource pull budget) budget product
      return (row.map fun row => row.1 :: row.2, .pair product)

end Nested

end Traversals
