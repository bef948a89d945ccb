import Traversals.Proofs.Chain.Basic
import Traversals.Proofs.Comparison.Basic

/-!
# Streams as relations

How a stream comes to its answer, told without budgets: some elements are
rejected, and then one passes or the end comes. The traversal below is a relation
too. A stream with budgets and this relation tell the same, and a single stage
is a stream.
-/

namespace Traversals

variable {ω τ υ μ α β : Type}

section Budgets

open Filter

/-- Whatever runs give with one budget, others give with all that are large enough. -/
def Follows (runs others : ℕ → Run ω β) : Prop :=
  ∀ ⦃budget store last⦄, runs budget store = some last →
    ∀ᶠ larger in atTop, others larger store = some last

/-- The same results for the same stores, or none with any budget. -/
def SameResults (runs others : ℕ → Run ω β) : Prop :=
  Follows runs others ∧ Follows others runs

/-- Pulls that answer with all budgets that are large enough as they do with one. -/
def Robust (pulls : ℕ → Pull ω τ α) : Prop :=
  ∀ traversal, Follows (fun budget => pulls budget traversal) fun budget => pulls budget traversal

/-- The answers of pulls, whatever the budgets that they need. -/
def Gives (pulls : ℕ → Pull ω τ α) (traversal : τ) (store : ω) (answer : Option α)
    (traversal' : τ) (store' : ω) : Prop :=
  ∀ᶠ budget in atTop, pulls budget traversal store = some ((answer, traversal'), store')

/-- How an answer is found, by the answers of the traversal below. -/
inductive Streams (pass : μ → α → Run ω (Option β × μ))
    (Below : τ → ω → Option α → τ → ω → Prop) :
    τ × μ → ω → Option β → τ × μ → ω → Prop
  | ended {input input' memory store store'} (below : Below input store none input' store') :
      Streams pass Below (input, memory) store none (input', memory) store'
  | emitted {input input' memory memory' store store₁ store' x y}
      (below : Below input store (some x) input' store₁)
      (passed : pass memory x store₁ = some ((some y, memory'), store')) :
      Streams pass Below (input, memory) store (some y) (input', memory') store'
  | rejected {input input₁ memory memory₁ store store₁ store₂ x answer last store'}
      (below : Below input store (some x) input₁ store₁)
      (dropped : pass memory x store₁ = some ((none, memory₁), store₂))
      (later : Streams pass Below (input₁, memory₁) store₂ answer last store') :
      Streams pass Below (input, memory) store answer last store'

section Pulls

variable {pass : μ → α → Run ω (Option β × μ)} {pulls : ℕ → Pull ω τ α}
  {state last : τ × μ} {store store' : ω} {answer : Option β}

lemma stream_succ (pull : Pull ω τ α) (budget : ℕ) (input : τ) (memory : μ) :
    stream pass pull (budget + 1) (input, memory) = do
      let (element, input) ← pull input
      match element with
      | none => return (none, (input, memory))
      | some x =>
          let (answer, memory) ← pass memory x
          match answer with
          | none => stream pass pull budget (input, memory)
          | some y => return (some y, (input, memory)) := rfl

/-- What the relation tells is found with any loop budget that grows. -/
lemma Streams.found {loops : ℕ → ℕ}
    (streams : Streams pass (Gives pulls) state store answer last store')
    (large : Tendsto loops atTop atTop) :
    ∀ᶠ budget in atTop,
      stream pass (pulls budget) (loops budget) state store = some ((answer, last), store') := by
  induction streams generalizing loops with
  | ended below =>
    filter_upwards [below, eventually_succ large] with budget hpull hloops
    rw [hloops, stream_succ]
    simp [Run.bind_apply, hpull]
  | emitted below passed =>
    filter_upwards [below, eventually_succ large] with budget hpull hloops
    rw [hloops, stream_succ]
    simp [Run.bind_apply, hpull, passed]
  | rejected below dropped later ih =>
    filter_upwards [below, ih (tendsto_pred large), eventually_succ large] with budget hpull hlater
      hloops
    rw [hloops, stream_succ]
    simp [Run.bind_apply, hpull, dropped, hlater]

/-- What is found with one budget is told by the relation. -/
lemma Robust.streams (robust : Robust pulls) (budget : ℕ) {loops : ℕ}
    (found : stream pass (pulls budget) loops state store = some ((answer, last), store')) :
    Streams pass (Gives pulls) state store answer last store' := by
  induction loops generalizing state store with
  | zero => cases found
  | succ loops ih =>
    obtain ⟨input, memory⟩ := state
    rw [stream_succ] at found
    obtain ⟨⟨element, input₁⟩, store₁, hpull, found⟩ := Run.bind_eq_some_iff.mp found
    have below : Gives pulls input store element input₁ store₁ := robust input hpull
    cases element with
    | none =>
      cases found
      exact .ended below
    | some x =>
      obtain ⟨⟨reply, memory₁⟩, store₂, hpass, found⟩ := Run.bind_eq_some_iff.mp found
      cases reply with
      | none => exact .rejected below hpass (ih found)
      | some y =>
        cases found
        exact .emitted below hpass

end Pulls

end Budgets

namespace ElementStage

variable {φ π ε : Type} (pull : Pull ω τ α)

/-- A loop of a filter is a stream, round by round. -/
lemma filtered_next_eq (test : π → α → Run ω (Bool × π)) (loops : ℕ) (state : τ × π) :
    Filtered.next pull test loops ⟨state.1, state.2⟩ =
      Prod.map id (filtered π test).mount <$>
        stream (filtered π test).handle pull loops state := by
  induction loops generalizing state with
  | zero => rfl
  | succ loops ih =>
    obtain ⟨input, own⟩ := state
    simp only [Filtered.next, stream_succ, map_bind]
    refine bind_congr ?_
    rintro ⟨_ | x, input⟩
    · rfl
    · simp only [handle, map_bind, bind_assoc]
      refine bind_congr ?_
      rintro ⟨_ | _, predicate⟩
      · simpa using ih (input, predicate)
      · rfl

lemma comprehended_next_eq (ask : π → α → Run ω Bool) (apply : φ → α → Run ω (β × φ))
    (loops : ℕ) (state : τ × (comprehended φ π ask apply).Memory) :
    Comprehension.next pull ask apply loops ((comprehended φ π ask apply).mount state) =
      Prod.map id (comprehended φ π ask apply).mount <$>
        stream (comprehended φ π ask apply).handle pull loops state := by
  induction loops generalizing state with
  | zero => rfl
  | succ loops ih =>
    obtain ⟨input, own⟩ := state
    simp only [Comprehension.next, stream_succ, map_bind]
    refine bind_congr ?_
    rintro ⟨_ | x, input⟩
    · rfl
    · simp only [handle, map_bind, bind_assoc]
      refine bind_congr ?_
      rintro (_ | _)
      · simp only [Bool.false_eq_true, if_false, pure_bind]
        exact ih (input, own)
      · simp only [if_true, bind_assoc]
        rfl

/-- A stage looks at one element after the other, as a stream does. -/
lemma next_eq (stage : ElementStage ω α β) (budget : ℕ) (state : τ × stage.Memory) :
    stage.next budget pull (stage.mount state) =
      Prod.map id stage.mount <$> stream stage.handle pull (budget + 1) state := by
  obtain ⟨input, own⟩ := state
  cases stage with
  | mapped φ apply =>
    simp only [next, Mapped.next, stream_succ, map_bind]
    refine bind_congr ?_
    rintro ⟨_ | x, input⟩
    · rfl
    · simp only [handle, map_bind, bind_assoc]
      rfl
  | filtered π test => exact filtered_next_eq pull test (budget + 1) (input, own)
  | tapped ε visit =>
    simp only [next, Tapped.next, stream_succ, map_bind]
    refine bind_congr ?_
    rintro ⟨_ | x, input⟩
    · rfl
    · simp only [handle, map_bind, bind_assoc]
      rfl
  | comprehended φ π ask apply =>
    exact comprehended_next_eq pull ask apply (budget + 1) (input, own)

end ElementStage

section Stage

variable {pulls : ℕ → Pull ω τ α}

lemma ElementStage.next_eq_some_iff {stage : ElementStage ω α β} {pull : Pull ω τ α} {budget : ℕ}
    {state last : τ × stage.Memory} {store store' : ω} {answer : Option β} :
    stage.next budget pull (stage.mount state) store = some ((answer, stage.mount last), store') ↔
      stream stage.handle pull (budget + 1) state store = some ((answer, last), store') := by
  rw [next_eq, Run.map_apply, Option.map_eq_some_iff]
  constructor
  · rintro ⟨⟨⟨answer', last'⟩, store₁⟩, hstream, hresult⟩
    simp only [Prod.map, id, Prod.mk.injEq, stage.mount.apply_eq_iff_eq] at hresult
    obtain ⟨⟨rfl, rfl⟩, rfl⟩ := hresult
    exact hstream
  · intro hstream
    exact ⟨_, hstream, rfl⟩

/-- What a stage gives on a traversal is what a stream finds in it. -/
lemma Robust.gives_stage_iff (robust : Robust pulls) {stage : ElementStage ω α β}
    {state last : τ × stage.Memory} {store store' : ω} {answer : Option β} :
    Gives (fun budget => stage.next budget (pulls budget)) (stage.mount state) store answer
        (stage.mount last) store' ↔
      Streams stage.handle (Gives pulls) state store answer last store' := by
  simp only [Gives, ElementStage.next_eq_some_iff]
  constructor
  · intro gives
    obtain ⟨budget, hfound⟩ := gives.exists
    exact robust.streams budget hfound
  · intro streams
    exact streams.found (Filter.tendsto_add_atTop_nat 1)

lemma Robust.stage (robust : Robust pulls) (stage : ElementStage ω α β) :
    Robust fun budget => stage.next budget (pulls budget) := by
  intro traversal budget store last hnext
  obtain ⟨⟨answer, traversal'⟩, store'⟩ := last
  obtain ⟨state, rfl⟩ := stage.mount.surjective traversal
  obtain ⟨state', rfl⟩ := stage.mount.surjective traversal'
  exact robust.gives_stage_iff.mpr (robust.streams budget (ElementStage.next_eq_some_iff.mp hnext))

end Stage

end Traversals
