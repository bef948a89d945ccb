import Traversals.Product.Phase
import Traversals.Run
import Traversals.Text.Layout

/-!
# Products of any number of sources

The rows of a product are enumerated by a tree of traversals, one level for
each source, the last source at the leaf. A row is filled from the root down.
A level whose sub-product has ended takes its next element and starts a new
sub-product, so the last source varies fastest.

The first row comes from one pull of each source, the first source last. The
traversals that were pulled make up the tree.
-/

namespace Traversals

variable {ω σ τ α : Type}

/-- A sub-product. A branch remembers the sources of its sub-products: the
first and the others. Those are the sources behind its own, so no source is looked
up by its place, and a level is the last one if no others are left for it. -/
inductive Node (σ τ α : Type) where
  | leaf (traversal : τ)
  | branch (head : τ) (current : Option α) (tail : Option (Node σ τ α))
      (below : σ) (rest : List σ)

namespace Node

/-- A new sub-product of a first source and the others. -/
def start (startSource : Start ω σ τ) (source : σ) (others : List σ) :
    Run ω (Node σ τ α) := do
  let head ← startSource source
  match others with
  | [] => return .leaf head
  | below :: rest => return .branch head none none below rest

/-- Appends the next row of the sub-product to a row. Once the sub-product has
ended, the row is handed back as it was. -/
def fill (startSource : Start ω σ τ) (pull : Pull ω τ α) :
    Nat → List α → Node σ τ α → Run ω ((Bool × List α) × Node σ τ α)
  | 0, _, _ => Run.outOfBudget
  | _ + 1, row, .leaf traversal => do
      let (element, traversal) ← pull traversal
      match element with
      | none => return ((false, row), .leaf traversal)
      | some x => return ((true, row ++ [x]), .leaf traversal)
  | budget + 1, row, .branch head (some x) (some tail) below rest => do
      let ((filled, extended), tail) ← fill startSource pull budget (row ++ [x]) tail
      if filled then
        return ((true, extended), .branch head (some x) (some tail) below rest)
      else
        fill startSource pull budget (extended.take row.length) (.branch head none none below rest)
  | budget + 1, row, .branch head _ _ below rest => do
      let (element, head) ← pull head
      match element with
      | none => return ((false, row), .branch head none none below rest)
      | some x =>
          let tail ← start startSource below rest
          fill startSource pull budget row (.branch head (some x) (some tail) below rest)

/-- A new traversal of a source, pulled once, unless the source is empty. -/
def primeOne (startSource : Start ω σ τ) (pull : Pull ω τ α) (source : σ) :
    Run ω (Option (τ × α)) := do
  let traversal ← startSource source
  let (element, traversal) ← pull traversal
  return element.map (traversal, ·)

/-- The same for each source in order, up to an empty one. -/
def primeAll (startSource : Start ω σ τ) (pull : Pull ω τ α) :
    List σ → Run ω (Option (List (τ × α)))
  | [] => return some []
  | source :: rest => do
      match ← primeOne startSource pull source with
      | none => return none
      | some primed =>
          let others ← primeAll startSource pull rest
          return others.map (primed :: ·)

/-- The tree of once pulled traversals, given the sources of all but the first. -/
def assemble (head : τ × α) : List (σ × τ × α) → Node σ τ α
  | [] => .leaf head.1
  | (below, second) :: rest =>
      .branch head.1 (some head.2) (some (assemble second rest)) below (rest.map (·.1))

/-- The tree on its first row, with that row, unless a source is empty. -/
def prime (startSource : Start ω σ τ) (pull : Pull ω τ α) (source : σ) (others : List σ) :
    Run ω (Option (Node σ τ α × List α)) := do
  match ← primeAll startSource pull others with
  | none => return none
  | some primed =>
      match ← primeOne startSource pull source with
      | none => return none
      | some head =>
          return some (assemble head (others.zip primed), head.2 :: primed.map (·.2))

end Node

structure CartesianProduct (σ τ α : Type) where
  sources : List σ
  root : Option (Node σ τ α)
  phase : Phase

namespace CartesianProduct

/-- The product of no sources has no rows. -/
def ofSources (sources : List σ) : CartesianProduct σ τ α :=
  ⟨sources, none, if sources.isEmpty then .exhausted else .fresh⟩

/-- The number of elements in every row. -/
def width (product : CartesianProduct σ τ α) : Nat := product.sources.length

def first (startSource : Start ω σ τ) (pull : Pull ω τ α) :
    Pull ω (CartesianProduct σ τ α) (List α) := fun product =>
  match product.sources with
  | [] => return (none, { product with phase := .exhausted })
  | source :: others => do
      match ← Node.prime startSource pull source others with
      | none => return (none, { product with phase := .exhausted })
      | some (root, row) =>
          return (some row, { product with root := some root, phase := .running })

def later (startSource : Start ω σ τ) (pull : Pull ω τ α) (budget : Nat) :
    Pull ω (CartesianProduct σ τ α) (List α) := fun product =>
  match product.root with
  | none => return (none, product)
  | some root => do
      let ((filled, row), root) ← Node.fill startSource pull budget [] root
      if filled then return (some row, { product with root := some root })
      else return (none, { product with root := none, phase := .exhausted })

def next (startSource : Start ω σ τ) (pull : Pull ω τ α) (budget : Nat) :
    Pull ω (CartesianProduct σ τ α) (List α) := fun product =>
  match product.phase with
  | .exhausted => return (none, product)
  | .fresh => first startSource pull product
  | .running => later startSource pull budget product

def inspect (product : CartesianProduct σ τ α) : String :=
  Text.openRecord "CartesianProduct"
    [("width", toString product.width), ("phase", product.phase.inspect)]

end CartesianProduct

end Traversals
