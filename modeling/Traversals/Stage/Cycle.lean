import Traversals.Run
import Traversals.Text.Layout

/-!
# Cycles

A cycle traverses its source again and again, for ever or for a given number
of passes. A pass that delivers nothing ends the cycle, so one pull asks two
traversals at most and starts at most one.
-/

namespace Traversals

variable {ω σ τ α : Type}

structure Cycle (σ τ : Type) where
  source : σ
  current : Option τ
  /-- The passes that may still be started; no limit if absent. -/
  passesLeft : Option Nat
  yieldedThisPass : Bool

namespace Cycle

def unbounded (source : σ) : Cycle σ τ := ⟨source, none, none, false⟩

def bounded (source : σ) (passes : Nat) : Cycle σ τ := ⟨source, none, some passes, false⟩

/-- The first pull of a new pass, if one is left. -/
def newPass (start : Start ω σ τ) (pull : Pull ω τ α) : Pull ω (Cycle σ τ) α := fun cycle => do
  if cycle.passesLeft = some 0 then
    return (none, { cycle with current := none })
  else
    let traversal ← start cycle.source
    let (element, traversal) ← pull traversal
    return (element, { cycle with
      current := some traversal
      passesLeft := cycle.passesLeft.map (· - 1)
      yieldedThisPass := element.isSome })

def next (start : Start ω σ τ) (pull : Pull ω τ α) : Pull ω (Cycle σ τ) α := fun cycle =>
  match cycle.current with
  | none => newPass start pull cycle
  | some traversal => do
      let (element, traversal) ← pull traversal
      match element with
      | some x =>
          return (some x, { cycle with current := some traversal, yieldedThisPass := true })
      | none =>
          if cycle.yieldedThisPass then newPass start pull cycle
          else return (none, { cycle with current := some traversal })

/-- Shown with the text of the source in its place. -/
def inspect (cycle : Cycle String τ) : String :=
  Text.openRecord "Cycle"
    [("source", cycle.source), ("passes_left", Text.option (cycle.passesLeft.map toString))]

end Cycle

end Traversals
