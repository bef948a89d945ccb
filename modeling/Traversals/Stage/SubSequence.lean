import Traversals.Error
import Traversals.Run
import Traversals.SizeHint

/-!
# Sub-sequences

A sub-sequence drops some elements, then answers with every so-many-th one,
up to an optional number of them. Taking, dropping and streaming slices are
sub-sequences. The dropped elements are pulled by the first pull. Once the
number is used up, or the input has ended, nothing is pulled any more.
-/

namespace Traversals

variable {ω τ α : Type}

structure SubSequence (τ : Type) where
  input : τ
  /-- The elements to skip before the next answer. -/
  gap : Nat
  stride : Nat
  /-- The answers that may still be given; no limit if absent. -/
  remaining : Option Nat
  stride_pos : 0 < stride

/-- The quotient, rounded up. -/
def divideUp (a b : Nat) : Nat := (a + b - 1) / b

namespace SubSequence

def make (input : τ) (dropped : Nat) (taken : Option Nat) (stride : Nat) :
    Except BuildError (SubSequence τ) :=
  match positive "stride" stride with
  | .error refusal => .error refusal
  | .ok ⟨stride, stride_pos⟩ => .ok ⟨input, dropped, stride, taken, stride_pos⟩

def take (input : τ) (count : Nat) : SubSequence τ :=
  ⟨input, 0, 1, some count, Nat.one_pos⟩

def drop (input : τ) (count : Nat) : SubSequence τ :=
  ⟨input, count, 1, none, Nat.one_pos⟩

def rest (input : τ) : SubSequence τ :=
  drop input 1

/-- The elements at the positions `start`, `start + step`, … below `stop`. -/
def slice (input : τ) (start : Nat) (stop : Option Nat) (step : Nat) :
    Except BuildError (SubSequence τ) :=
  match positive "step" step with
  | .error refusal => .error refusal
  | .ok ⟨step, step_pos⟩ =>
      .ok ⟨input, start, step, stop.map fun stop => divideUp (stop - start) step, step_pos⟩

def next (pull : Pull ω τ α) : Pull ω (SubSequence τ) α := fun stage => do
  if stage.remaining = some 0 then
    return (none, stage)
  else
    let (element, input) ← nth pull stage.gap stage.input
    match element with
    | none => return (none, { stage with input, remaining := some 0 })
    | some x =>
        return (some x, { stage with
          input
          gap := stage.stride - 1
          remaining := stage.remaining.map (· - 1) })

/-- Shown with the text of the input in its place. -/
def inspect (stage : SubSequence String) : String :=
  Text.record "SubSequence"
    [("upstream", stage.input), ("gap", toString stage.gap),
      ("stride", toString stage.stride),
      ("remaining", Text.option (stage.remaining.map toString))]

/-- How many answers so many input elements allow for. -/
def selectable (stage : SubSequence τ) (available : Nat) : Nat :=
  divideUp (available - stage.gap) stage.stride

def capped (stage : SubSequence τ) (count : Nat) : Nat :=
  match stage.remaining with
  | none => count
  | some remaining => min count remaining

def hint (inputHint : τ → SizeHint) (stage : SubSequence τ) : SizeHint :=
  if stage.remaining = some 0 then .empty
  else
    let available := inputHint stage.input
    { lower := stage.capped (stage.selectable available.lower)
      upper :=
        (available.upper.map fun upper => stage.capped (stage.selectable upper)).or
          stage.remaining }

end SubSequence

end Traversals
