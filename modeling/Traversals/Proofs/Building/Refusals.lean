import Traversals.Proofs.Slice.Resolution
import Traversals.Eager.Checked
import Traversals.Proofs.Upstream

/-!
# Refusals

A stage is refused for one reason only, and the error names the parameter that
is to blame. The drained forms are refused for the same reason, before anything
is pulled and before any predicate or function is called, so that also an input
that never ends, or never answers, is refused.
-/

namespace Traversals

variable {ω τ φ π α β σ ρ : Type}

/-- A construction is refused on a condition and only then, with one error. -/
def RefusedIff (condition : Prop) (error : BuildError) (building : Except BuildError σ) : Prop :=
  ∀ refusal, building = .error refusal ↔ condition ∧ refusal = error

/-- A run is refused on a condition and only then, with one error, and leaves
the store as it found it. -/
def RefusedAtOnceIff (condition : Prop) (error : BuildError) (run : Run ω (Except BuildError ρ)) :
    Prop :=
  ∀ store refusal store', run store = some (.error refusal, store') ↔
    condition ∧ refusal = error ∧ store' = store

/-- A run that is counted beside the store, as pulls are. -/
def Run.counted (run : Run ω ρ) : Run (ω × ℕ) ρ := fun (store, calls) =>
  (run store).map fun (result, store) => (result, (store, calls + 1))

section Constructions

lemma positive_refused (parameter : String) (value : ℕ) :
    RefusedIff (value = 0) (.invalidArgument parameter "must be greater than zero")
      (positive parameter value) := by
  intro refusal
  by_cases pos : 0 < value
  · simp [positive, pos, pos.ne']
  · simp [positive, Nat.eq_zero_of_not_pos pos, eq_comm]

lemma RefusedIff.map {condition : Prop} {error : BuildError} {building : Except BuildError σ}
    (refused : RefusedIff condition error building) (f : σ → ρ) :
    RefusedIff condition error (building.map f) := by
  intro refusal
  rw [← refused refusal]
  cases building with
  | error _ => simp [Except.map]
  | ok _ => simp [Except.map]

lemma SubSequence.make_refused (input : τ) (dropped : ℕ) (taken : Option ℕ) (stride : ℕ) :
    RefusedIff (stride = 0) (.invalidArgument "stride" "must be greater than zero")
      (SubSequence.make input dropped taken stride) := by
  have hmake : SubSequence.make input dropped taken stride = (positive "stride" stride).map
      fun stride => ⟨input, dropped, stride, taken, stride.property⟩ := by
    rw [SubSequence.make]
    cases positive "stride" stride <;> rfl
  rw [hmake]
  exact (positive_refused "stride" stride).map _

lemma SubSequence.slice_refused (input : τ) (start : ℕ) (stop : Option ℕ) (step : ℕ) :
    RefusedIff (step = 0) (.invalidArgument "step" "must be greater than zero")
      (SubSequence.slice input start stop step) := by
  have hslice : SubSequence.slice input start stop step = (positive "step" step).map fun step =>
      ⟨input, start, step, stop.map fun stop => divideUp (stop - start) step, step.property⟩ := by
    rw [SubSequence.slice]
    cases positive "step" step <;> rfl
  rw [hslice]
  exact (positive_refused "step" step).map _

lemma Batches.make_refused (input : τ) (size : ℕ) :
    RefusedIff (size = 0) (.invalidArgument "batch_size" "must be greater than zero")
      (Batches.make input size) := by
  have hmake : Batches.make input size = (positive "batch_size" size).map
      fun size => ⟨.live input, size, size.property⟩ := by
    rw [Batches.make]
    cases positive "batch_size" size <;> rfl
  rw [hmake]
  exact (positive_refused "batch_size" size).map _

lemma Comprehension.make_refused (input : τ) (mapper : φ) (predicates : List π) :
    RefusedIff (predicates = []) (.missingArgument "predicates")
      (Comprehension.make input mapper predicates) := by
  intro refusal
  by_cases none_given : predicates = []
  · simp [Comprehension.make, none_given, eq_comm]
  · simp [Comprehension.make, none_given]

end Constructions

namespace Eager

variable (pull : Pull ω τ α) (budget : ℕ)

/-- A drained form is refused with its stage. -/
lemma drained_refused {condition : Prop} {error : BuildError} {building : Except BuildError τ}
    (refused : RefusedIff condition error building) :
    RefusedAtOnceIff condition error (drained pull budget building) := by
  intro store refusal store'
  cases building with
  | error raised =>
    rw [← and_assoc, ← refused refusal]
    simp [drained, eq_comm]
  | ok stage =>
    have accepted : ¬ condition := fun h => by
      cases (refused error).mpr ⟨h, rfl⟩
    simp only [accepted, false_and, iff_false]
    intro h
    obtain ⟨elements, store₁, -, hrest⟩ := Run.bind_eq_some_iff.mp h
    cases hrest

/-- A drained slice looks at its step before it drains, and its step is all
that can be wrong with it. -/
lemma slice_refused (bounds : SliceBounds) (input : τ) :
    RefusedAtOnceIff (bounds.step = some 0) (.invalidArgument "step" "must not be zero")
      (slice pull bounds budget input) := by
  intro store refusal store'
  by_cases zero : bounds.step = some 0
  · simp [slice, Slice.resolveStep, zero, eq_comm]
  -- The step is looked at once more behind the drain, and found good again.
  · simp only [zero, false_and, iff_false]
    intro h
    rw [slice, Slice.resolveStep_eq_ok zero] at h
    obtain ⟨elements, store₁, -, hrest⟩ := Run.bind_eq_some_iff.mp h
    obtain ⟨resolved, hresolve, -⟩ := Slice.resolve_counted bounds elements.length zero
    simp only [hresolve] at hrest
    obtain ⟨taken, store₂, -, hreturn⟩ := Run.bind_eq_some_iff.mp hrest
    cases hreturn

end Eager

/-- Each of the four stages is refused for the one parameter that the error
names, and so is its drained form. When a drained form is refused, its input has
not been pulled, and no predicate and no function has been called. -/
theorem validation_fails_fast (promise : Promise) (pull : Pull ω τ α) (ask : π → α → Run ω Bool)
    (apply : φ → α → Run ω (β × φ)) (budget : ℕ) (input : τ) :
    (∀ dropped taken stride,
      RefusedIff (stride = 0) (.invalidArgument "stride" "must be greater than zero")
          (SubSequence.make input dropped taken stride) ∧
        RefusedAtOnceIff (stride = 0) (.invalidArgument "stride" "must be greater than zero")
          (Eager.subSequence (counted pull) budget input dropped taken stride)) ∧
    (∀ start stop step,
      RefusedIff (step = 0) (.invalidArgument "step" "must be greater than zero")
        (SubSequence.slice input start stop step)) ∧
    (∀ bounds : SliceBounds,
      RefusedAtOnceIff (bounds.step = some 0) (.invalidArgument "step" "must not be zero")
        (Eager.slice (counted pull) bounds budget input)) ∧
    (∀ size,
      RefusedIff (size = 0) (.invalidArgument "batch_size" "must be greater than zero")
          (Batches.make input size) ∧
        RefusedAtOnceIff (size = 0) (.invalidArgument "batch_size" "must be greater than zero")
          (Eager.batch promise (counted pull) budget input size)) ∧
    ∀ (mapper : φ) (predicates : List π),
      RefusedIff (predicates = []) (.missingArgument "predicates")
          (Comprehension.make input mapper predicates) ∧
        RefusedAtOnceIff (predicates = []) (.missingArgument "predicates")
          (Eager.comprehension (counted pull) (fun p x => (ask p x).counted)
            (fun f x => (apply f x).counted) budget mapper input predicates) := by
  refine ⟨fun dropped taken stride => ?_, fun start stop step => ?_, fun bounds => ?_,
    fun size => ?_, fun mapper predicates => ?_⟩
  · have refused := SubSequence.make_refused input dropped taken stride
    exact ⟨refused, Eager.drained_refused _ budget refused⟩
  · exact SubSequence.slice_refused input start stop step
  · exact Eager.slice_refused (counted pull) budget bounds input
  · have refused := Batches.make_refused input size
    exact ⟨refused, Eager.drained_refused _ budget refused⟩
  · have refused := Comprehension.make_refused input mapper predicates
    exact ⟨refused, Eager.drained_refused _ budget refused⟩

end Traversals
