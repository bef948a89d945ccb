import Traversals.Indexed
import Traversals.Integers
import Traversals.Run
import Traversals.Zip.Fixed

/-!
# Numbering

A numbered traversal zips the counting numbers with its input. The counter
is asked first, so a counter that has run out leaves the input alone.
-/

namespace Traversals

variable {ω τ α : Type}

structure Enumerate (τ : Type) where
  counter : Integers
  input : τ
  exhausted : Bool

namespace Enumerate

def ofTraversal (input : τ) : Enumerate τ := ⟨.all, input, false⟩

def next (pull : Pull ω τ α) : Pull ω (Enumerate τ) (Indexed α) := fun stage => do
  if stage.exhausted then
    return (none, stage)
  else
    match stage.counter.next with
    | (none, counter) => return (none, { stage with counter, exhausted := true })
    | (some index, counter) =>
        let (element, input) ← pull stage.input
        match element with
        | none => return (none, { counter, input, exhausted := true })
        | some value => return (some { index, value }, { stage with counter, input })

def hint (inputHint : τ → SizeHint) (stage : Enumerate τ) : SizeHint :=
  if stage.exhausted then .empty
  else Zip.least [stage.counter.hint, inputHint stage.input]

/-- Shown as the zip it is, with the text of the input in its place. -/
def inspect (stage : Enumerate String) : String :=
  Text.record "Enumerate"
    [("inner",
      Zip.inspect (Zip.ofList [stage.counter.inspect, stage.input] stage.exhausted))]

end Enumerate

end Traversals
