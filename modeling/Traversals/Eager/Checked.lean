import Traversals.Eager.Drain
import Traversals.Slice.Bounds
import Traversals.Stage.Batches
import Traversals.Stage.Comprehension
import Traversals.Stage.SubSequence

/-!
# Drained stages with checked parameters

The drained forms of the stages that can be refused. A refusal comes before
the first pull.
-/

namespace Traversals.Eager

variable {ω τ φ π α β : Type}

/-- Takes the elements at the indices of a walk out of their slots, until the
walk ends. An index whose slot is empty gives nothing, and one without a slot is
out of range. -/
def takeSlots : Nat → Array (Option α) → SliceIndices → Run ω (List α)
  | 0, _, _ => Run.outOfBudget
  | budget + 1, slots, walk =>
      match walk.next with
      | (none, _) => return []
      | (some index, walk) =>
          match slots[index]? with
          | none => Run.outOfRange
          | some none => takeSlots budget slots walk
          | some (some x) => do
              let taken ← takeSlots budget (slots.setIfInBounds index none) walk
              return x :: taken

/-- A slice of a drained source. The step is checked before the source is drained. -/
def slice (pull : Pull ω τ α) (bounds : SliceBounds) (budget : Nat) (traversal : τ) :
    Run ω (Except BuildError (List α)) := do
  match Slice.resolveStep bounds.step with
  | .error refusal => return .error refusal
  | .ok _ =>
      let elements ← materialize pull budget traversal
      match bounds.resolve elements.length with
      | .error refusal => return .error refusal
      | .ok slice =>
          let taken ← takeSlots budget (elements.map some).toArray slice.indices
          return .ok taken

/-- The drained form of a stage that may be refused. -/
def drained (pull : Pull ω τ α) (budget : Nat) :
    Except BuildError τ → Run ω (Except BuildError (List α))
  | .error refusal => return .error refusal
  | .ok stage => do
      let elements ← materialize pull budget stage
      return .ok elements

def subSequence (pull : Pull ω τ α) (budget : Nat) (traversal : τ) (dropped : Nat)
    (taken : Option Nat) (stride : Nat) : Run ω (Except BuildError (List α)) :=
  drained (SubSequence.next pull) budget (SubSequence.make traversal dropped taken stride)

def batch (promise : Promise) (pull : Pull ω τ α) (budget : Nat) (traversal : τ) (size : Nat) :
    Run ω (Except BuildError (List (List α))) :=
  drained (Batches.nextDrained promise pull budget) budget (Batches.make traversal size)

def comprehension (pull : Pull ω τ α) (ask : π → α → Run ω Bool)
    (apply : φ → α → Run ω (β × φ)) (budget : Nat) (mapper : φ) (traversal : τ)
    (predicates : List π) : Run ω (Except BuildError (List β)) :=
  drained (Comprehension.next pull ask apply budget) budget
    (Comprehension.make traversal mapper predicates)

end Traversals.Eager
