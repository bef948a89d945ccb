import Traversals.Proofs.Chain.Streams

/-!
# Stages fuse

A stream over a stream is one stream: what the inner one rejects never reaches
the outer one, and what the outer one rejects sets the inner one going again.
So the loops of a chain, one inside the other, become a single loop over the
elements of the traversal.
-/

namespace Traversals

variable {ω τ υ μ α β γ : Type}

section Below

variable {pass : μ → α → Run ω (Option β × μ)} {Below : τ → ω → Option α → τ → ω → Prop}
  {Other : υ → ω → Option α → υ → ω → Prop} {store store' : ω} {answer : Option β}

/-- A stream sees of the states below only the answers. -/
lemma Streams.map (f : τ → υ)
    (same : ∀ input store answer input' store', Below input store answer input' store' →
      Other (f input) store answer (f input') store')
    {state last : τ × μ} (streams : Streams pass Below state store answer last store') :
    Streams pass Other (f state.1, state.2) store answer (f last.1, last.2) store' := by
  induction streams with
  | ended below => exact .ended (same _ _ _ _ _ below)
  | emitted below passed => exact .emitted (same _ _ _ _ _ below) passed
  | rejected below dropped later ih => exact .rejected (same _ _ _ _ _ below) dropped ih

lemma streams_equiv_iff (e : τ ≃ υ)
    (same : ∀ input store answer input' store',
      Other (e input) store answer (e input') store' ↔ Below input store answer input' store')
    {input input' : τ} {memory memory' : μ} :
    Streams pass Other (e input, memory) store answer (e input', memory') store' ↔
      Streams pass Below (input, memory) store answer (input', memory') store' := by
  constructor
  · intro streams
    have back : ∀ u store answer u' store', Other u store answer u' store' →
        Below (e.symm u) store answer (e.symm u') store' := by
      intro u store answer u' store' other
      rw [← same, e.apply_symm_apply, e.apply_symm_apply]
      exact other
    simpa only [e.symm_apply_apply] using streams.map e.symm back
  · intro streams
    exact streams.map e fun _ _ _ _ _ => (same _ _ _ _ _).mpr

end Below

namespace Chain

variable {first : ElementStage ω α β} {rest : Chain ω β γ}

section Pass

variable {own own' : first.Memory} {others others' : rest.Memory} {x : α} {y : β}
  {store store₁ store' : ω} {answer : Option γ}

lemma pass_dropped (dropped : first.handle own x store = some ((none, own'), store')) :
    (cons first rest).pass (own, others) x store = some ((none, (own', others)), store') := by
  simp [pass, Run.bind_apply, dropped]

lemma pass_handed (handed : first.handle own x store = some ((some y, own'), store₁))
    (passed : rest.pass others y store₁ = some ((answer, others'), store')) :
    (cons first rest).pass (own, others) x store = some ((answer, (own', others')), store') := by
  simp [pass, Run.bind_apply, Run.map_apply, handed, passed]

/-- The first stage rejects an element, or hands one on to the others. -/
lemma pass_cons_cases
    (hpass : (cons first rest).pass (own, others) x store =
      some ((answer, (own', others')), store')) :
    (first.handle own x store = some ((none, own'), store') ∧ answer = none ∧ others' = others) ∨
      ∃ y store₁, first.handle own x store = some ((some y, own'), store₁) ∧
        rest.pass others y store₁ = some ((answer, others'), store') := by
  obtain ⟨⟨element, own₁⟩, store₁, hfirst, hpass⟩ := Run.bind_eq_some_iff.mp hpass
  cases element with
  | none =>
    cases hpass
    exact .inl ⟨hfirst, rfl, rfl⟩
  | some y =>
    obtain ⟨⟨reply, others₁⟩, store₂, hrest, hpass⟩ := Run.bind_eq_some_iff.mp hpass
    cases hpass
    exact .inr ⟨y, store₁, hfirst, hrest⟩

end Pass

section Fusion

variable {Below : τ → ω → Option α → τ → ω → Prop}

/-- Nothing is left of the traversal, so nothing leaves the chain. -/
lemma fused_ended {state last : τ × first.Memory} {store store' : ω} {answer : Option β}
    (inner : Streams first.handle Below state store answer last store') (hend : answer = none)
    (others : rest.Memory) :
    Streams (cons first rest).pass Below (state.1, (state.2, others)) store none
      (last.1, (last.2, others)) store' := by
  induction inner with
  | ended below => exact .ended below
  | emitted below passed => cases hend
  | rejected below dropped later ih =>
    exact .rejected below (pass_dropped dropped) (ih hend)

/-- The first stage hands an element on, and the story goes on from there. -/
lemma fused_handed {state state₁ : τ × first.Memory} {store store₁ store₂ store' : ω}
    {element : Option β} {y : β} {reply answer : Option γ} {others others₁ : rest.Memory}
    {last : τ × (cons first rest).Memory}
    (inner : Streams first.handle Below state store element state₁ store₁)
    (handed : element = some y)
    (passed : rest.pass others y store₁ = some ((reply, others₁), store₂))
    (goes_on : ∀ {input own x store₀ store₁'}, Below input store₀ (some x) state₁.1 store₁' →
      (cons first rest).pass (own, others) x store₁' =
        some ((reply, (state₁.2, others₁)), store₂) →
      Streams (cons first rest).pass Below (input, (own, others)) store₀ answer last store') :
    Streams (cons first rest).pass Below (state.1, (state.2, others)) store answer last store' := by
  induction inner with
  | ended below => cases handed
  | emitted below hfirst =>
    cases handed
    exact goes_on below (pass_handed hfirst passed)
  | rejected below dropped later ih =>
    exact .rejected below (pass_dropped dropped) (ih handed passed goes_on)

/-- An element that the inner stream rejects first changes nothing in what the outer one finds. -/
lemma nested_rejected {input input₁ : τ} {own own₁ : first.Memory} {store store₁ store₂ store' : ω}
    {x : α} {answer : Option γ} {others : rest.Memory}
    {last : (τ × first.Memory) × rest.Memory} (below : Below input store (some x) input₁ store₁)
    (dropped : first.handle own x store₁ = some ((none, own₁), store₂))
    (outer : Streams rest.pass (Streams first.handle Below) ((input₁, own₁), others) store₂ answer
      last store') :
    Streams rest.pass (Streams first.handle Below) ((input, own), others) store answer last
      store' := by
  cases outer with
  | ended inner => exact .ended (.rejected below dropped inner)
  | emitted inner passed => exact .emitted (.rejected below dropped inner) passed
  | rejected inner passed later => exact .rejected (.rejected below dropped inner) passed later

/-- A stream over a stream is one stream. -/
theorem streams_fused_iff {state last : (τ × first.Memory) × rest.Memory} {store store' : ω}
    {answer : Option γ} :
    Streams rest.pass (Streams first.handle Below) state store answer last store' ↔
      Streams (cons first rest).pass Below (Equiv.prodAssoc _ _ _ state) store answer
        (Equiv.prodAssoc _ _ _ last) store' := by
  constructor
  · intro outer
    induction outer with
    | ended inner => exact fused_ended inner rfl _
    | emitted inner passed => exact fused_handed inner rfl passed .emitted
    | rejected inner passed later ih =>
      exact fused_handed inner rfl passed fun below hpass => .rejected below hpass ih
  · intro fused
    -- The inner stream ends with the last element that its stage hands on, so what
    -- is rejected before belongs to the pull that the rest of the story begins with.
    generalize hstate : Equiv.prodAssoc _ _ _ state = state' at fused
    generalize hlast : Equiv.prodAssoc _ _ _ last = last' at fused
    rw [← Equiv.eq_symm_apply] at hstate hlast
    subst hstate hlast
    induction fused with
    | ended below => exact .ended (.ended below)
    | @emitted _ _ memory memory' _ _ _ _ _ below passed =>
      obtain ⟨own, others⟩ := memory
      obtain ⟨own', others'⟩ := memory'
      rcases pass_cons_cases passed with ⟨-, habsurd, -⟩ | ⟨y, store₁, handed, hrest⟩
      · cases habsurd
      · exact .emitted (.emitted below handed) hrest
    | @rejected _ _ memory memory₁ _ _ _ _ _ _ _ below dropped later ih =>
      obtain ⟨own, others⟩ := memory
      obtain ⟨own₁, others₁⟩ := memory₁
      rcases pass_cons_cases dropped with ⟨hfirst, -, rfl⟩ | ⟨y, store₁, handed, hrest⟩
      · exact nested_rejected below hfirst ih
      · exact .rejected (.emitted below handed) hrest ih

end Fusion

/-- A chain without stages lets every element pass. -/
lemma streams_nil_iff {Below : τ → ω → Option α → τ → ω → Prop}
    {state last : τ × (nil : Chain ω α α).Memory} {store store' : ω} {answer : Option α} :
    Streams (nil : Chain ω α α).pass Below state store answer last store' ↔
      Below state.1 store answer last.1 store' := by
  constructor
  · intro streams
    cases streams with
    | ended below => exact below
    | emitted below passed =>
      cases passed
      exact below
    | rejected below dropped later => cases dropped
  · intro below
    obtain ⟨input, ⟨⟩⟩ := state
    obtain ⟨input', ⟨⟩⟩ := last
    cases answer with
    | none => exact .ended below
    | some x => exact .emitted below rfl

section Pulls

variable {pulls : ℕ → Pull ω τ α}

lemma robust_next (chain : Chain ω α β) (robust : Robust pulls) :
    Robust fun budget => chain.next budget (pulls budget) := by
  induction chain generalizing τ with
  | nil => exact robust
  | cons first rest ih => exact ih (robust.stage first)

/-- What a chain gives on a traversal is what one stream finds in it. -/
theorem gives_next_iff {chain : Chain ω α β} (robust : Robust pulls)
    {state last : τ × chain.Memory} {store store' : ω} {answer : Option β} :
    Gives (fun budget => chain.next budget (pulls budget)) (chain.mount τ state) store answer
        (chain.mount τ last) store' ↔
      Streams chain.pass (Gives pulls) state store answer last store' := by
  induction chain generalizing τ with
  | nil => exact streams_nil_iff.symm
  | cons first rest ih =>
    obtain ⟨input, own, others⟩ := state
    obtain ⟨input', own', others'⟩ := last
    calc Gives (fun budget => (cons first rest).next budget (pulls budget))
          ((cons first rest).mount τ (input, own, others)) store answer
          ((cons first rest).mount τ (input', own', others')) store'
      _ ↔ Streams rest.pass (Gives fun budget => first.next budget (pulls budget))
          (first.mount (input, own), others) store answer (first.mount (input', own'), others')
          store' := ih (robust.stage first)
      _ ↔ Streams rest.pass (Streams first.handle (Gives pulls)) ((input, own), others) store
          answer ((input', own'), others') store' :=
        streams_equiv_iff first.mount fun _ _ _ _ _ => robust.gives_stage_iff
      _ ↔ Streams (cons first rest).pass (Gives pulls) (input, own, others) store answer
          (input', own', others') store' := streams_fused_iff

end Pulls

end Chain

end Traversals
