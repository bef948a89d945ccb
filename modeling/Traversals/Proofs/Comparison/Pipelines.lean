import Traversals.Pipeline.Next
import Traversals.Proofs.Comparison.Products
import Traversals.Proofs.Zip.Rows

/-!
# Pipelines of comparable runs

A pipeline is pulled by pulling the pipelines inside it and calling functions
that live in its stages, in the store or in both. If nothing of that tells two
stores apart, no pull of the pipeline does. Only the traversals of memos depend
on more of the store, so what they need is left open here.
-/

namespace Traversals

open Filter

namespace Pipeline

/-- The pipelines directly inside one, those that it starts again included. -/
def parts : Pipeline → List Pipeline
  | source _ _ => []
  | integers _ => []
  | mapped stage => [stage.input]
  | filtered stage => [stage.input]
  | tapped stage => [stage.input]
  | comprehension stage => [stage.input]
  | subSequence stage => [stage.input]
  | takeWhile stage => [stage.input]
  | dropWhile stage => [stage.input]
  | concat stage => stage.second :: stage.first.input.toList
  | flattened stage => stage.outer.input.toList
  | cycle stage => stage.source :: stage.current.toList
  | enumerate stage => [stage.input]
  | zipAll stage => stage.traversals
  | zip traversals _ => traversals
  | product stage =>
      stage.sources ++ stage.root.elim [] fun root => root.sources ++ root.traversals
  | nested _ stage => stage.sources ++ stage.traversals
  | memoized _ => []
  | chunked batches => batches.cursor.input.toList

/-- A zip of fixed width is pulled like one of a list. -/
lemma next_zip (budget : ℕ) (traversals : List Pipeline) (exhausted : Bool) :
    next (budget + 1) (zip traversals exhausted) = do
      let (row, stage) ← ZipAll.next (next budget) ⟨traversals, exhausted⟩
      return (row.map Value.list, zip stage.traversals stage.exhausted) := by
  have h := Zip.next_eq (next budget) (Zip.ofList traversals exhausted)
  rw [Zip.toZipAll_ofList] at h
  simp [next, ← h, Zip.toZipAll, Function.comp_def]

/-- All traversals of memos in a pipeline, however deep, are of some kind. -/
inductive Throughout (known : MemoTraversal → Prop) : Pipeline → Prop
  | intro {pipeline : Pipeline} (parts : ∀ part, part ∈ pipeline.parts → Throughout known part)
      (memo : ∀ traversal, pipeline = memoized traversal → known traversal) :
      Throughout known pipeline

variable {known known' : MemoTraversal → Prop}

lemma throughout_iff {pipeline : Pipeline} :
    pipeline.Throughout known ↔ (∀ part, part ∈ pipeline.parts → part.Throughout known) ∧
      ∀ traversal, pipeline = memoized traversal → known traversal := by
  constructor
  · rintro ⟨parts, memo⟩
    exact ⟨parts, memo⟩
  · rintro ⟨parts, memo⟩
    exact ⟨parts, memo⟩

/-- A stage is no traversal of a memo itself. -/
lemma throughout_stage {pipeline : Pipeline} (stage : ∀ traversal, pipeline ≠ memoized traversal) :
    pipeline.Throughout known ↔ ∀ part, part ∈ pipeline.parts → part.Throughout known := by
  constructor
  · exact fun throughout => (throughout_iff.mp throughout).1
  · exact fun parts => ⟨parts, fun traversal h => absurd h (stage traversal)⟩

lemma throughout_leaf {pipeline : Pipeline} (parts_eq : pipeline.parts = [])
    (stage : ∀ traversal, pipeline ≠ memoized traversal) : pipeline.Throughout known := by
  rw [throughout_stage stage, parts_eq]
  exact List.forall_mem_nil _

/-- A stage over one pipeline. -/
lemma throughout_over {pipeline inner : Pipeline} (parts_eq : pipeline.parts = [inner])
    (stage : ∀ traversal, pipeline ≠ memoized traversal) :
    pipeline.Throughout known ↔ inner.Throughout known := by
  rw [throughout_stage stage, parts_eq]
  exact List.forall_mem_singleton

lemma throughout_memoized {traversal : MemoTraversal} :
    (memoized traversal).Throughout known ↔ known traversal := by
  constructor
  · exact fun throughout => (throughout_iff.mp throughout).2 traversal rfl
  · intro h
    refine ⟨(fun part hpart => by cases hpart), fun other heq => ?_⟩
    obtain rfl := memoized.inj heq
    exact h

lemma Throughout.mono {pipeline : Pipeline} (throughout : pipeline.Throughout known)
    (h : ∀ traversal, known traversal → known' traversal) : pipeline.Throughout known' := by
  induction throughout with
  | intro parts memo ih => exact ⟨ih, fun traversal heq => h _ (memo traversal heq)⟩

end Pipeline

namespace Comparison

variable {comparison : Comparison Store} {MemoFits : MemoTraversal → Store → Prop}

section Functions

variable {ι : Type} {budgets : Filter ι}

/-- Reports do not tell the stores apart. -/
abbrev Unobserved (comparison : Comparison Store) (budgets : Filter ι) : Prop :=
  ∀ (tag : Option String) (event : String → Event),
    comparison.Neutral budgets (report tag event)

lemma Unobserved.apply (unobserved : Unobserved comparison budgets) (mapper : Mapper)
    (argument : Value) : comparison.Neutral budgets (mapper.apply argument) := by
  refine Agrees.bind (unobserved mapper.tag _) fun _ => ?_
  exact .pure fun _ h => h

lemma Unobserved.ask (unobserved : Unobserved comparison budgets) (predicate : Predicate)
    (argument : Value) : comparison.Neutral budgets (predicate.ask argument) := by
  induction predicate with
  | test tag memory step =>
    refine Agrees.bind (unobserved tag _) fun _ => ?_
    exact .pure fun _ h => h
  | negated tag inner ih =>
    refine Agrees.bind ih fun result => Agrees.bind (unobserved tag _) fun _ => ?_
    exact .pure fun _ h => h

lemma Unobserved.visit (unobserved : Unobserved comparison budgets) (tag : Option String)
    (value : Value) : comparison.Neutral budgets (visit tag value) := by
  refine Agrees.bind (unobserved tag _) fun _ => ?_
  exact .pure fun _ h => h

lemma Unobserved.pullSource (unobserved : Unobserved comparison budgets) (tag : Option String)
    (script : Script Value) : comparison.Neutral budgets (pullSource tag script) := by
  rcases h : script.next with ⟨_ | value, script'⟩
  · simp only [Traversals.pullSource, h]
    refine Agrees.bind (unobserved tag _) fun _ => ?_
    exact .pure fun _ h => h
  · simp only [Traversals.pullSource, h]
    refine Agrees.bind (unobserved tag _) fun _ => ?_
    exact .pure fun _ h => h

end Functions

/-- The traversals of memos inside fit. -/
abbrev PipelineFits (MemoFits : MemoTraversal → Store → Prop) (pipeline : Pipeline)
    (store : Store) : Prop :=
  pipeline.Throughout fun traversal => MemoFits traversal store

lemma Lasting.pipeline (lasting : ∀ traversal, comparison.Lasting (MemoFits traversal))
    (pipeline : Pipeline) : comparison.Lasting (PipelineFits MemoFits pipeline) :=
  fun store store' later fits => fits.mono fun traversal h => lasting traversal store store' later h

section Shapes

variable {store : Store}

lemma fits_concat {stage : Concat Pipeline Pipeline} :
    PipelineFits MemoFits (.concat stage) store ↔
      FusedFits (PipelineFits MemoFits) stage.first store ∧
        PipelineFits MemoFits stage.second store := by
  refine (Pipeline.throughout_stage fun _ h => by cases h).trans ?_
  simp [Pipeline.parts, and_comm]

lemma fits_flattened {stage : Flattened Pipeline Value} :
    PipelineFits MemoFits (.flattened stage) store ↔
      FusedFits (PipelineFits MemoFits) stage.outer store := by
  refine (Pipeline.throughout_stage fun _ h => by cases h).trans ?_
  simp [Pipeline.parts]

lemma fits_cycle {stage : Cycle Pipeline Pipeline} :
    PipelineFits MemoFits (.cycle stage) store ↔
      CycleFits (PipelineFits MemoFits) (PipelineFits MemoFits) stage store := by
  refine (Pipeline.throughout_stage fun _ h => by cases h).trans ?_
  simp [Pipeline.parts]

lemma fits_zipAll {stage : ZipAll Pipeline} :
    PipelineFits MemoFits (.zipAll stage) store ↔
      AllFit (PipelineFits MemoFits) stage.traversals store :=
  Pipeline.throughout_stage fun _ h => by cases h

lemma fits_zip {traversals : List Pipeline} {exhausted : Bool} :
    PipelineFits MemoFits (.zip traversals exhausted) store ↔
      AllFit (PipelineFits MemoFits) traversals store :=
  Pipeline.throughout_stage fun _ h => by cases h

lemma fits_product {stage : CartesianProduct Pipeline Pipeline Value} :
    PipelineFits MemoFits (.product stage) store ↔
      ProductFits (PipelineFits MemoFits) (PipelineFits MemoFits) stage store := by
  refine (Pipeline.throughout_stage fun _ h => by cases h).trans ?_
  obtain ⟨sources, _ | root, phase⟩ := stage
  · simp [Pipeline.parts]
  · simp [Pipeline.parts, or_imp, forall_and]

lemma fits_nested {width : ℕ} {stage : Nested Pipeline Pipeline Value} :
    PipelineFits MemoFits (.nested width stage) store ↔
      NestedFits (PipelineFits MemoFits) (PipelineFits MemoFits) stage store := by
  refine (Pipeline.throughout_stage fun _ h => by cases h).trans ?_
  simp [Pipeline.parts, or_imp, forall_and]

lemma fits_memoized {traversal : MemoTraversal} :
    PipelineFits MemoFits (.memoized traversal) store ↔ MemoFits traversal store :=
  Pipeline.throughout_memoized

lemma fits_chunked {stage : Batches Pipeline} :
    PipelineFits MemoFits (.chunked stage) store ↔
      FusedFits (PipelineFits MemoFits) stage.cursor store := by
  refine (Pipeline.throughout_stage fun _ h => by cases h).trans ?_
  simp [Pipeline.parts]

end Shapes

/-- A stage wraps what it stands on and the answers of it. -/
lemma Alike.wrapped {σ α β : Type} {Fits : σ → Store → Prop} {pull : Pull Store σ α}
    {pulled : ℕ → Pull Store σ α} (alike : comparison.Alike atTop Fits pull pulled) (stage : σ)
    {pipeline : Pipeline} (answer : Option α → β) (wrap : σ → Pipeline)
    (before : ∀ store, PipelineFits MemoFits pipeline store → Fits stage store)
    (after : ∀ stage store, Fits stage store → PipelineFits MemoFits (wrap stage) store) :
    comparison.Agrees atTop (PipelineFits MemoFits pipeline)
      (do let (element, stage) ← pull stage; return (answer element, wrap stage))
      (fun budget => do
        let (element, stage) ← pulled budget stage
        return (answer element, wrap stage))
      fun result => PipelineFits MemoFits result.2 :=
  ((alike stage).mono before fun _ _ h => h).bind fun result =>
    .pure fun store => after result.2 store

theorem Alike.pipeline (lasting : ∀ traversal, comparison.Lasting (MemoFits traversal))
    (unobserved : Unobserved comparison (atTop : Filter ℕ))
    (ask : ∀ place argument, comparison.Neutral (atTop : Filter ℕ) (Store.ask place argument))
    (memo : ∀ limit, comparison.Alike atTop MemoFits (pullMemo (Pipeline.next limit))
      fun budget => pullMemo (Pipeline.next budget))
    (limit : ℕ) :
    comparison.Alike atTop (PipelineFits MemoFits) (Pipeline.next limit) Pipeline.next := by
  induction limit with
  | zero => exact fun pipeline => .outOfBudget
  | succ limit ih =>
    have hpred : Tendsto (fun budget : ℕ => budget - 1) atTop atTop := tendsto_pred tendsto_id
    have alike : comparison.Alike atTop (PipelineFits MemoFits) (Pipeline.next limit)
        fun budget => Pipeline.next (budget - 1) := ih.along hpred
    have lasts := Lasting.pipeline lasting
    have copies : Starts comparison (atTop : Filter ℕ) (PipelineFits MemoFits)
        (PipelineFits MemoFits) Pipeline.restart := fun source => .pure fun _ fits => fits
    intro pipeline
    refine Agrees.eventually (fun budget => Pipeline.next (budget - 1 + 1) pipeline) ?_ ?_
    · cases pipeline with
      | source tag script =>
        refine ((unobserved.pullSource tag script).mono (fun _ _ => trivial) fun _ _ h => h).bind
          fun result => .pure fun store _ => ?_
        exact Pipeline.throughout_leaf rfl fun _ h => by cases h
      | integers counter =>
        exact .pure fun store _ => Pipeline.throughout_leaf rfl fun _ h => by cases h
      | mapped stage =>
        exact (alike.mapped lasts unobserved.apply).wrapped stage id .mapped
          (fun _ => (Pipeline.throughout_over rfl fun _ h => by cases h).mp)
          fun _ _ => (Pipeline.throughout_over rfl fun _ h => by cases h).mpr
      | filtered stage =>
        exact (alike.filtered lasts unobserved.ask hpred limit).wrapped stage id .filtered
          (fun _ => (Pipeline.throughout_over rfl fun _ h => by cases h).mp)
          fun _ _ => (Pipeline.throughout_over rfl fun _ h => by cases h).mpr
      | tapped stage =>
        exact (alike.tapped lasts unobserved.visit).wrapped stage id .tapped
          (fun _ => (Pipeline.throughout_over rfl fun _ h => by cases h).mp)
          fun _ _ => (Pipeline.throughout_over rfl fun _ h => by cases h).mpr
      | comprehension stage =>
        exact (alike.comprehension lasts ask unobserved.apply hpred limit).wrapped stage id
          .comprehension
          (fun _ => (Pipeline.throughout_over rfl fun _ h => by cases h).mp)
          fun _ _ => (Pipeline.throughout_over rfl fun _ h => by cases h).mpr
      | subSequence stage =>
        exact (alike.subSequence).wrapped stage id .subSequence
          (fun _ => (Pipeline.throughout_over rfl fun _ h => by cases h).mp)
          fun _ _ => (Pipeline.throughout_over rfl fun _ h => by cases h).mpr
      | takeWhile stage =>
        exact (alike.takeWhile lasts unobserved.ask).wrapped stage id .takeWhile
          (fun _ => (Pipeline.throughout_over rfl fun _ h => by cases h).mp)
          fun _ _ => (Pipeline.throughout_over rfl fun _ h => by cases h).mpr
      | dropWhile stage =>
        exact (alike.dropWhile lasts unobserved.ask hpred limit).wrapped stage id .dropWhile
          (fun _ => (Pipeline.throughout_over rfl fun _ h => by cases h).mp)
          fun _ _ => (Pipeline.throughout_over rfl fun _ h => by cases h).mpr
      | concat stage =>
        exact (alike.concat lasts alike lasts).wrapped stage id .concat
          (fun _ => fits_concat.mp) fun _ _ => fits_concat.mpr
      | flattened stage =>
        exact (alike.flattened .nothing Value.elements hpred limit).wrapped stage id .flattened
          (fun _ => fits_flattened.mp) fun _ _ => fits_flattened.mpr
      | cycle stage =>
        exact (alike.cycle copies lasts).wrapped stage id .cycle
          (fun _ => fits_cycle.mp) fun _ _ => fits_cycle.mpr
      | enumerate stage =>
        exact (alike.enumerate).wrapped stage
          (Option.map fun element => Value.indexed element.index element.value) .enumerate
          (fun _ => (Pipeline.throughout_over rfl fun _ h => by cases h).mp)
          fun _ _ => (Pipeline.throughout_over rfl fun _ h => by cases h).mpr
      | zipAll stage =>
        exact (alike.zipAll lasts).wrapped stage (Option.map Value.list) .zipAll
          (fun _ => fits_zipAll.mp) fun _ _ => fits_zipAll.mpr
      | zip traversals exhausted =>
        simp only [Pipeline.next_zip]
        exact (alike.zipAll lasts).wrapped ⟨traversals, exhausted⟩ (Option.map Value.list)
          (fun zip => .zip zip.traversals zip.exhausted) (fun _ => fits_zip.mp)
          fun _ _ => fits_zip.mpr
      | product stage =>
        exact (alike.product copies lasts lasts hpred limit).wrapped stage (Option.map Value.list)
          .product
          (fun _ => fits_product.mp) fun _ _ => fits_product.mpr
      | nested width stage =>
        exact (alike.nested copies lasts lasts hpred limit).wrapped stage (Option.map Value.list)
          (.nested width)
          (fun _ => fits_nested.mp) fun _ _ => fits_nested.mpr
      | memoized traversal =>
        exact ((memo limit).along hpred).wrapped traversal id .memoized
          (fun _ => fits_memoized.mp) fun _ _ => fits_memoized.mpr
      | chunked stage =>
        exact (alike.nextDrained .nothing hpred limit).wrapped stage (Option.map Value.list)
          .chunked (fun _ => fits_chunked.mp) fun _ _ => fits_chunked.mpr
    · filter_upwards [eventually_ge_atTop 1] with budget h
      rw [Nat.sub_add_cancel h]

end Comparison

end Traversals
