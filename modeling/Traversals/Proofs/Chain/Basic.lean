import Mathlib.Data.Nat.Notation
import Mathlib.Logic.Equiv.Prod
import Traversals.Stage.Comprehension
import Traversals.Stage.Elementwise

/-!
# Chains of stages

Stages that work on one element at a time, one on top of the other. A chain is
known by the functions that its stages call. It stands on a traversal with a
memory for each of its stages, which is the state of their functions. What it
does to a single element is told stage by stage, without any loop.
-/

namespace Traversals

/-- A stage that works on one element at a time, by the functions it calls. -/
inductive ElementStage (ω : Type) : Type → Type → Type 1
  | mapped {α β : Type} (φ : Type) (apply : φ → α → Run ω (β × φ)) : ElementStage ω α β
  | filtered {α : Type} (π : Type) (test : π → α → Run ω (Bool × π)) : ElementStage ω α α
  | tapped {α : Type} (ε : Type) (visit : ε → α → Run ω ε) : ElementStage ω α α
  | comprehended {α β : Type} (φ π : Type) (ask : π → α → Run ω Bool)
      (apply : φ → α → Run ω (β × φ)) : ElementStage ω α β

/-- Stages one on top of the other, the one nearest to the traversal first. -/
inductive Chain (ω : Type) : Type → Type → Type 1
  | nil {α : Type} : Chain ω α α
  | cons {α β γ : Type} (first : ElementStage ω α β) (rest : Chain ω β γ) : Chain ω α γ

variable {ω τ α β γ : Type}

namespace ElementStage

/-- The states of the functions. A comprehension has its predicates by handles. -/
@[reducible] def Memory : ElementStage ω α β → Type
  | mapped φ _ => φ
  | filtered π _ => π
  | tapped ε _ => ε
  | comprehended φ π _ _ => φ × { predicates : List π // predicates ≠ [] }

/-- The states of the stage on a traversal. -/
@[reducible] def Mounted (τ : Type) : ElementStage ω α β → Type
  | mapped φ _ => Mapped τ φ
  | filtered π _ => Filtered τ π
  | tapped ε _ => Tapped τ ε
  | comprehended φ π _ _ => Comprehension τ φ π

/-- A stage is put on a traversal with its memory, and is nothing else than that. -/
def mount : (stage : ElementStage ω α β) → τ × stage.Memory ≃ stage.Mounted τ
  | mapped _ _ => ⟨fun s => ⟨s.1, s.2⟩, fun s => (s.input, s.function), fun _ => rfl, fun _ => rfl⟩
  | filtered _ _ =>
      ⟨fun s => ⟨s.1, s.2⟩, fun s => (s.input, s.predicate), fun _ => rfl, fun _ => rfl⟩
  | tapped _ _ => ⟨fun s => ⟨s.1, s.2⟩, fun s => (s.input, s.effect), fun _ => rfl, fun _ => rfl⟩
  | comprehended _ _ _ _ =>
      ⟨fun s => ⟨s.1, s.2.1, s.2.2.1, s.2.2.2⟩,
        fun s => (s.input, s.mapper, ⟨s.predicates, s.predicates_ne⟩), fun _ => rfl, fun _ => rfl⟩

/-- A pull of the stage. A loop has room for one round at least. -/
def next (budget : ℕ) : (stage : ElementStage ω α β) → Pull ω τ α → Pull ω (stage.Mounted τ) β
  | mapped _ apply, pull => Mapped.next pull apply
  | filtered _ test, pull => Filtered.next pull test (budget + 1)
  | tapped _ visit, pull => Tapped.next pull visit
  | comprehended _ _ ask apply, pull => Comprehension.next pull ask apply (budget + 1)

/-- What becomes of one element: it leaves the stage as an element, or it is rejected. -/
def handle : (stage : ElementStage ω α β) → stage.Memory → α → Run ω (Option β × stage.Memory)
  | mapped _ apply, function, x => do
      let (image, function) ← apply function x
      return (some image, function)
  | filtered _ test, predicate, x => do
      let (accepted, predicate) ← test predicate x
      return (if accepted then some x else none, predicate)
  | tapped _ visit, effect, x => do
      let effect ← visit effect x
      return (some x, effect)
  | comprehended _ _ ask apply, memory, x => do
      let accepted ← Comprehension.passes ask memory.2.1 x
      if accepted then
        let (image, mapper) ← apply memory.1 x
        return (some image, (mapper, memory.2))
      else return (none, memory)

end ElementStage

namespace Chain

/-- The memories of all stages, the one nearest to the traversal first. -/
@[reducible] def Memory : {α β : Type} → Chain ω α β → Type
  | _, _, nil => Unit
  | _, _, cons first rest => first.Memory × rest.Memory

/-- The states of the chain on a traversal. -/
@[reducible] def Mounted : {α β : Type} → Type → Chain ω α β → Type
  | _, _, τ, nil => τ
  | _, _, τ, cons first rest => rest.Mounted (first.Mounted τ)

/-- So is a chain. -/
def mount : {α β : Type} → (chain : Chain ω α β) → (τ : Type) →
    τ × chain.Memory ≃ chain.Mounted τ
  | _, _, nil, τ => Equiv.prodPUnit τ
  | _, _, cons first rest, τ =>
      (Equiv.prodAssoc _ _ _).symm.trans
        ((first.mount.prodCongr (Equiv.refl _)).trans (rest.mount (first.Mounted τ)))

/-- A pull of the outermost stage, which pulls the stages below it. -/
def next (budget : ℕ) : {α β τ : Type} → (chain : Chain ω α β) → Pull ω τ α →
    Pull ω (chain.Mounted τ) β
  | _, _, _, nil, pull => pull
  | _, _, _, cons first rest, pull => rest.next budget (first.next budget pull)

/-- One element goes through the stages in order, until one of them rejects it. -/
def pass : {α β : Type} → (chain : Chain ω α β) → chain.Memory → α →
    Run ω (Option β × chain.Memory)
  | _, _, nil, memory, x => return (some x, memory)
  | _, _, cons first rest, memory, x => do
      let (element, own) ← first.handle memory.1 x
      match element with
      | none => return (none, (own, memory.2))
      | some y =>
          let (answer, others) ← rest.pass memory.2 y
          return (answer, (own, others))

end Chain

/-- Pulls one element after the other, until one passes or the end comes. -/
def stream {μ : Type} (pass : μ → α → Run ω (Option β × μ)) (pull : Pull ω τ α) :
    ℕ → Pull ω (τ × μ) β
  | 0, _ => Run.outOfBudget
  | budget + 1, (input, memory) => do
      let (element, input) ← pull input
      match element with
      | none => return (none, (input, memory))
      | some x =>
          let (answer, memory) ← pass memory x
          match answer with
          | none => stream pass pull budget (input, memory)
          | some y => return (some y, (input, memory))

end Traversals
