import Traversals.Run

/-!
# Fused traversals

A fused traversal answers only ends after its first end. What its input is
asked for from then on depends on what the type of the input promises. An input
that promises to stay ended is kept and goes on answering by itself. Any other
one is let go at its first end, so it is never asked again.
-/

namespace Traversals

/-- What the type of a traversal says of the answers after an end. -/
inductive Promise where
  /-- Elements may follow an end. -/
  | nothing
  /-- Only ends follow an end. -/
  | staysEnded
  deriving DecidableEq, Repr

structure Fused (τ : Type) where
  /-- The input, unless it has been let go. -/
  input : Option τ

namespace Fused

variable {ω τ α : Type}

def live (traversal : τ) : Fused τ := ⟨some traversal⟩

def ended : Fused τ := ⟨none⟩

/-- What is left of an input that has answered an end. -/
def afterEnd : Promise → τ → Fused τ
  | .nothing, _ => ended
  | .staysEnded, traversal => live traversal

def next (promise : Promise) (pull : Pull ω τ α) : Pull ω (Fused τ) α
  | ⟨none⟩ => return (none, ended)
  | ⟨some traversal⟩ => do
      let (element, traversal) ← pull traversal
      match element with
      | none => return (none, afterEnd promise traversal)
      | some x => return (some x, live traversal)

section Next

variable {promise : Promise} {pull : Pull ω τ α} {fused fused' : Fused τ} {store store' : ω}

@[simp] theorem next_ended (store : ω) :
    next promise pull ended store = some ((none, ended), store) := rfl

/-- An input that has promised nothing is let go at its end. -/
theorem ended_of_next (h : next .nothing pull fused store = some ((none, fused'), store')) :
    fused' = ended := by
  rcases fused with ⟨_ | traversal⟩
  · cases h
    rfl
  · simp only [next] at h
    obtain ⟨⟨element, traversal'⟩, store₁, -, hrest⟩ := Run.bind_eq_some_iff.mp h
    cases element with
    | none => cases hrest; rfl
    | some x => cases hrest

end Next

end Fused

end Traversals
