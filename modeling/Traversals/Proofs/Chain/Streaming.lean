import Traversals.Proofs.Chain.Fusion

/-!
# One element at a time

A chain does to its traversal what a single loop does that takes one element
after the other through all of its stages. A comprehension is the map over the
filters by its predicates, asked in their order.
-/

namespace Traversals

variable {ω τ μ ν φ π α β γ : Type}

/-- What is read off the results does not make them differ. -/
lemma SameResults.map {runs others : ℕ → Run ω β} (same : SameResults runs others) (f : β → γ) :
    SameResults (fun budget => f <$> runs budget) fun budget => f <$> others budget := by
  have maps : ∀ {runs others : ℕ → Run ω β}, Follows runs others →
      Follows (fun budget => f <$> runs budget) fun budget => f <$> others budget := by
    intro runs others follows budget store last hrun
    obtain ⟨result, hresult, rfl⟩ :=
      Option.map_eq_some_iff.mp ((Run.map_apply f (runs budget) store).symm.trans hrun)
    filter_upwards [follows hresult] with larger hlarger
    rw [Run.map_apply, hlarger]
    rfl
  exact ⟨maps same.1, maps same.2⟩

/-- A stream does not look at the memory, its pass does. -/
lemma stream_map {pass : μ → α → Run ω (Option β × μ)} {other : ν → α → Run ω (Option β × ν)}
    (f : μ → ν) (same : ∀ memory x, other (f memory) x = Prod.map id f <$> pass memory x)
    (pull : Pull ω τ α) (budget : ℕ) (input : τ) (memory : μ) :
    stream other pull budget (input, f memory) =
      Prod.map id (Prod.map id f) <$> stream pass pull budget (input, memory) := by
  induction budget generalizing input memory with
  | zero => rfl
  | succ budget ih =>
    simp only [stream_succ, map_bind]
    refine bind_congr ?_
    rintro ⟨_ | x, input⟩
    · rfl
    · simp only [same, map_bind, bind_map_left]
      refine bind_congr ?_
      rintro ⟨_ | y, memory⟩
      · exact ih input memory
      · rfl

namespace Chain

/-- The single loop over the elements of a traversal, as a loop of the chain. -/
theorem next_streams (chain : Chain ω α β) (pull : Pull ω τ α) (state : τ × chain.Memory) :
    SameResults (fun budget => chain.next budget pull (chain.mount τ state))
      fun budget => Prod.map id (chain.mount τ) <$> stream chain.pass pull budget state := by
  have robust : Robust fun _ => pull :=
    fun _ _ _ _ hpull => Filter.Eventually.of_forall fun _ => hpull
  constructor
  · rintro budget store ⟨⟨answer, mounted⟩, store'⟩ hnext
    obtain ⟨last, rfl⟩ := (chain.mount τ).surjective mounted
    have gives := chain.robust_next robust _ hnext
    have streams := (gives_next_iff robust).mp gives
    filter_upwards [streams.found Filter.tendsto_id] with larger hstream
    rw [Run.map_apply]
    exact Option.map_eq_some_iff.mpr ⟨_, hstream, rfl⟩
  · rintro budget store last hlast
    simp only [Run.map_apply] at hlast
    obtain ⟨⟨⟨answer, last⟩, store'⟩, hstream, rfl⟩ := Option.map_eq_some_iff.mp hlast
    have streams := robust.streams budget hstream
    exact (gives_next_iff robust).mpr streams

section Filters

variable (ask : π → α → Run ω Bool) (apply : φ → α → Run ω (β × φ))

/-- A map over filters, one for each predicate, the first next to the traversal. -/
def filters : List π → Chain ω α β
  | [] => cons (.mapped φ apply) nil
  | _ :: rest =>
      cons (.filtered π fun predicate x => do
        let accepted ← ask predicate x
        return (accepted, predicate)) (filters rest)

/-- The predicates and the function, where the filters and the map have them. -/
def placed : (predicates : List π) → φ → (filters ask apply predicates).Memory
  | [], function => (function, ())
  | predicate :: rest, function => (predicate, placed rest function)

/-- The predicates that the filters have, and the function of the map. -/
def held : (predicates : List π) → (filters ask apply predicates).Memory → List π × φ
  | [], memory => ([], memory.1)
  | _ :: rest, memory => (memory.1 :: (held rest memory.2).1, (held rest memory.2).2)

/-- What becomes of one element that is tested by predicates and then mapped. -/
def select (predicates : List π) (function : φ) (x : α) : Run ω (Option β × φ) := do
  let accepted ← Comprehension.passes ask predicates x
  if accepted then
    let (image, function) ← apply function x
    return (some image, function)
  else return (none, function)

lemma handle_comprehended (predicates : { predicates : List π // predicates ≠ [] })
    (function : φ) (x : α) :
    (ElementStage.comprehended φ π ask apply).handle (function, predicates) x =
      Prod.map id (fun function => (function, predicates)) <$>
        select ask apply predicates.1 function x := by
  simp only [ElementStage.handle, select, map_bind]
  refine bind_congr ?_
  rintro (_ | _)
  · rfl
  · simp only [if_true, map_bind]
    rfl

variable {ask apply}

lemma held_placed (predicates : List π) (function : φ) :
    held ask apply predicates (placed ask apply predicates function) = (predicates, function) := by
  induction predicates with
  | nil => rfl
  | cons predicate rest ih =>
    simp only [placed, held, ih]

lemma select_cons (predicate : π) (rest : List π) (function : φ) (x : α) :
    select ask apply (predicate :: rest) function x = do
      let accepted ← ask predicate x
      if accepted then select ask apply rest function x else return (none, function) := by
  simp only [select, Comprehension.passes, bind_assoc]
  refine bind_congr ?_
  rintro (_ | _)
  · rfl
  · rfl

/-- The filters ask one predicate after the other, as long as they accept. -/
lemma pass_filters (predicates : List π) (function : φ) (x : α) :
    (filters ask apply predicates).pass (placed ask apply predicates function) x =
      Prod.map id (placed ask apply predicates) <$> select ask apply predicates function x := by
  induction predicates with
  | nil =>
    simp only [filters, pass, ElementStage.handle, placed, select, Comprehension.passes,
      map_bind, bind_assoc, pure_bind, if_true]
    rfl
  | cons predicate rest ih =>
    simp only [filters, pass, ElementStage.handle, placed, select_cons, map_bind, bind_assoc,
      pure_bind]
    refine bind_congr ?_
    rintro (_ | _)
    · rfl
    · simp only [if_true, ih, map_eq_pure_bind, bind_assoc, pure_bind]
      rfl

/-- A comprehension is a stream whose memory is the function of its mapper. -/
lemma comprehension_streams (pull : Pull ω τ α) (stage : Comprehension τ φ π) (budget : ℕ) :
    Prod.map id (fun stage => (stage.input, stage.predicates, stage.mapper)) <$>
        Comprehension.next pull ask apply budget stage =
      Prod.map id (fun s => (s.1, stage.predicates, s.2)) <$>
        stream (select ask apply stage.predicates) pull budget (stage.input, stage.mapper) := by
  let predicates : { predicates : List π // predicates ≠ [] } :=
    ⟨stage.predicates, stage.predicates_ne⟩
  have hnext : Comprehension.next pull ask apply budget stage = _ :=
    ElementStage.comprehended_next_eq pull ask apply budget
      (stage.input, stage.mapper, predicates)
  have hstream := stream_map (fun function => (function, predicates))
    (handle_comprehended ask apply predicates) pull budget stage.input stage.mapper
  rw [hnext, hstream, Functor.map_map, Functor.map_map]
  rfl

/-- So is the map over the filters. -/
lemma filters_stream (pull : Pull ω τ α) (predicates : List π) (input : τ) (function : φ)
    (budget : ℕ) :
    let chain := filters ask apply predicates
    Prod.map id (fun s => Prod.map id (held ask apply predicates) ((chain.mount τ).symm s)) <$>
        Prod.map id (chain.mount τ) <$>
          stream chain.pass pull budget (input, placed ask apply predicates function) =
      Prod.map id (fun s => (s.1, predicates, s.2)) <$>
        stream (select ask apply predicates) pull budget (input, function) := by
  intro chain
  rw [stream_map _ (pass_filters predicates), Functor.map_map, Functor.map_map]
  congr 1
  funext ⟨answer, input, function⟩
  simp only [Prod.map, id, Equiv.symm_apply_apply, held_placed]

end Filters

end Chain

open Chain in
/-- Stages that work on one element at a time stream. However long a chain of
them is, whatever their functions do to the store, and whatever it stands on, a
pull of the chain has the results of a loop that pulls one element, takes it
through the stages in order until one of them rejects it, and goes on with the
next element then. A store may keep all calls and pulls in their order, so these
are the same too; in a pull that never returns, up to wherever its traversal could
have ended. A comprehension has the results of the map over the filters by its
predicates. -/
theorem chains_stream :
    (∀ (chain : Chain ω α β) (pull : Pull ω τ α) (state : τ × chain.Memory),
      SameResults (fun budget => chain.next budget pull (chain.mount τ state))
        fun budget => Prod.map id (chain.mount τ) <$> stream chain.pass pull budget state) ∧
    ∀ (ask : π → α → Run ω Bool) (apply : φ → α → Run ω (β × φ)) (pull : Pull ω τ α)
      (stage : Comprehension τ φ π),
      let chain := filters ask apply stage.predicates
      SameResults
        (fun budget =>
          Prod.map id (fun stage => (stage.input, stage.predicates, stage.mapper)) <$>
            Comprehension.next pull ask apply budget stage)
        fun budget =>
          Prod.map id (fun s => Prod.map id (held ask apply stage.predicates)
              ((chain.mount τ).symm s)) <$>
            chain.next budget pull
              (chain.mount τ (stage.input, placed ask apply stage.predicates stage.mapper)) := by
  constructor
  · exact fun chain pull state => chain.next_streams pull state
  · intro ask apply pull stage chain
    have same := (chain.next_streams pull
      (stage.input, placed ask apply stage.predicates stage.mapper)).map
        (Prod.map id fun s =>
          Prod.map id (held ask apply stage.predicates) ((chain.mount τ).symm s))
    simp only [comprehension_streams]
    simp only [chain, filters_stream] at same
    exact ⟨same.2, same.1⟩

end Traversals
