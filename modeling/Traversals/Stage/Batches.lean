import Traversals.Error
import Traversals.Stage.Fused

/-!
# Batches

A traversal is cut into batches of a given size. All batches take from one
shared cursor: a new batch pulls its first element when it is made, and its
other elements when it is asked for them. A batch that is left undrained
shifts the ones after it.
-/

namespace Traversals

variable {ω τ α : Type}

structure Batches (τ : Type) where
  cursor : Fused τ
  size : Nat
  size_pos : 0 < size

structure Batch (α : Type) where
  head : Option α
  remaining : Nat

namespace Batches

def make (input : τ) (size : Nat) : Except BuildError (Batches τ) :=
  match positive "batch_size" size with
  | .error refusal => .error refusal
  | .ok ⟨size, size_pos⟩ => .ok ⟨.live input, size, size_pos⟩

/-- The next batch, with its first element already pulled. -/
def next (promise : Promise) (pull : Pull ω τ α) : Pull ω (Batches τ) (Batch α) :=
    fun batches => do
  let (element, cursor) ← Fused.next promise pull batches.cursor
  match element with
  | none => return (none, { batches with cursor })
  | some x => return (some ⟨some x, batches.size - 1⟩, { batches with cursor })

def inspect (batches : Batches τ) : String :=
  Text.openRecord "Batches" [("batch_size", toString batches.size)]

end Batches

namespace Batch

/-- The next element of a batch, by way of the batches it was cut from. -/
def next (promise : Promise) (pull : Pull ω τ α) : Pull ω (Batch α × Batches τ) α :=
    fun (batch, batches) =>
  match batch.head with
  | some x => return (some x, ({ batch with head := none }, batches))
  | none =>
      if batch.remaining = 0 then return (none, (batch, batches))
      else do
        let (element, cursor) ← Fused.next promise pull batches.cursor
        let remaining := if element.isSome then batch.remaining - 1 else 0
        return (element, ({ batch with remaining }, { batches with cursor }))

/-- The elements the batch may still deliver. -/
def room (batch : Batch α) : Nat :=
  batch.remaining + (if batch.head.isSome then 1 else 0)

def inspect (batch : Batch α) : String :=
  Text.openRecord "Batch" [("remaining", toString batch.room)]

/-- What a batch still delivers, appended to the given elements. -/
def drain (promise : Promise) (pull : Pull ω τ α) :
    Nat → Array α → Batch α × Batches τ → Run ω (List α × Batches τ)
  | 0, _, _ => Run.outOfBudget
  | budget + 1, elements, traversal => do
      let (element, traversal) ← next promise pull traversal
      match element with
      | none => return (elements.toList, traversal.2)
      | some x => drain promise pull budget (elements.push x) traversal

end Batch

/-- Batches one after the other, each drained before the next one is made. -/
def Batches.nextDrained (promise : Promise) (pull : Pull ω τ α) (budget : Nat) :
    Pull ω (Batches τ) (List α) :=
  fun batches => do
    let (batch, batches) ← batches.next promise pull
    match batch with
    | none => return (none, batches)
    | some batch =>
        let (elements, batches) ← Batch.drain promise pull budget #[] (batch, batches)
        return (some elements, batches)

end Traversals
