import Traversals.Run
import Traversals.SizeHint

/-!
# Taking and dropping while a test holds

A taking stage ends for good at the first element that fails its test. A
dropping stage skips elements up to the first one that fails its test, and
asks the test no more. An end of the input is passed on by both and not
remembered.
-/

namespace Traversals

variable {ω τ π α : Type}

structure TakeWhile (τ π : Type) where
  input : τ
  predicate : π
  finished : Bool := false

namespace TakeWhile

def next (pull : Pull ω τ α) (test : π → α → Run ω (Bool × π)) : Pull ω (TakeWhile τ π) α :=
  fun stage => do
    if stage.finished then
      return (none, stage)
    else
      let (element, input) ← pull stage.input
      match element with
      | none => return (none, { stage with input })
      | some x =>
          let (accepted, predicate) ← test stage.predicate x
          if accepted then return (some x, { stage with input, predicate })
          else return (none, { input, predicate, finished := true })

def hint (inputHint : τ → SizeHint) (stage : TakeWhile τ π) : SizeHint :=
  if stage.finished then .empty else (inputHint stage.input).thinned

end TakeWhile

structure DropWhile (τ π : Type) where
  input : τ
  predicate : π
  started : Bool := false

namespace DropWhile

def next (pull : Pull ω τ α) (test : π → α → Run ω (Bool × π)) :
    Nat → Pull ω (DropWhile τ π) α
  | 0, _ => Run.outOfBudget
  | budget + 1, stage => do
      let (element, input) ← pull stage.input
      match element with
      | none => return (none, { stage with input })
      | some x =>
          if stage.started then return (some x, { stage with input })
          else
            let (dropped, predicate) ← test stage.predicate x
            if dropped then next pull test budget { stage with input, predicate }
            else return (some x, { input, predicate, started := true })

def hint (inputHint : τ → SizeHint) (stage : DropWhile τ π) : SizeHint :=
  (inputHint stage.input).thinned

end DropWhile

end Traversals
