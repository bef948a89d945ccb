import Traversals.Run
import Traversals.SizeHint
import Traversals.Text.Layout

/-!
# Stages that work on one element at a time

A mapped stage answers with the image of each element, a filtered stage with
the elements that pass a test, and a tapped stage runs an effect on each
element before it passes it on. The functions may keep a state of their own,
which is part of the stage.

A stage is shown with the text of its input in place of the input.
-/

namespace Traversals

variable {ω τ φ π ε α β : Type}

structure Mapped (τ φ : Type) where
  input : τ
  function : φ

structure Filtered (τ π : Type) where
  input : τ
  predicate : π

structure Tapped (τ ε : Type) where
  input : τ
  effect : ε

def Mapped.next (pull : Pull ω τ α) (apply : φ → α → Run ω (β × φ)) :
    Pull ω (Mapped τ φ) β := fun stage => do
  let (element, input) ← pull stage.input
  match element with
  | none => return (none, { stage with input })
  | some x =>
      let (image, function) ← apply stage.function x
      return (some image, { input, function })

def Mapped.inspect (stage : Mapped String φ) : String :=
  Text.openRecord "Map" [("upstream", stage.input)]

def Mapped.hint (inputHint : τ → SizeHint) (stage : Mapped τ φ) : SizeHint :=
  inputHint stage.input

/-- Pulls until an element passes the test. -/
def Filtered.next (pull : Pull ω τ α) (test : π → α → Run ω (Bool × π)) :
    Nat → Pull ω (Filtered τ π) α
  | 0, _ => Run.outOfBudget
  | budget + 1, stage => do
      let (element, input) ← pull stage.input
      match element with
      | none => return (none, { stage with input })
      | some x =>
          let (accepted, predicate) ← test stage.predicate x
          if accepted then return (some x, { input, predicate })
          else Filtered.next pull test budget { input, predicate }

def Filtered.inspect (stage : Filtered String π) : String :=
  Text.openRecord "Filter" [("upstream", stage.input)]

def Filtered.hint (inputHint : τ → SizeHint) (stage : Filtered τ π) : SizeHint :=
  (inputHint stage.input).thinned

def Tapped.next (pull : Pull ω τ α) (visit : ε → α → Run ω ε) :
    Pull ω (Tapped τ ε) α := fun stage => do
  let (element, input) ← pull stage.input
  match element with
  | none => return (none, { stage with input })
  | some x =>
      let effect ← visit stage.effect x
      return (some x, { input, effect })

def Tapped.inspect (stage : Tapped String ε) : String :=
  Text.openRecord "Each" [("upstream", stage.input)]

def Tapped.hint (inputHint : τ → SizeHint) (stage : Tapped τ ε) : SizeHint :=
  inputHint stage.input

end Traversals
