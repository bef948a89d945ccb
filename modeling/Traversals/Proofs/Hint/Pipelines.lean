import Traversals.Proofs.Comparison.Pipelines
import Traversals.Proofs.Hint.Bounds
import Traversals.Proofs.Hint.Stages

/-!
# Pipelines with hints

A pipeline has a hint to be trusted if its sources have one in all of their
states and its stages are among those that pass hints on. A pull leaves such a
pipeline: it is put together in the same way, over sources in later states.
-/

namespace Traversals

open Filter

/-- What is asked of hints. -/
inductive Grade where
  | bounds
  | exact

def Grade.Meets : Grade → SizeHint → ℕ∞ → Prop
  | bounds => SizeHint.Bounds
  | exact => SizeHint.Exact

lemma Grade.Meets.bounds {grade : Grade} {hint : SizeHint} {count : ℕ∞}
    (meets : grade.Meets hint count) : hint.Bounds count := by
  cases grade with
  | bounds => exact meets
  | exact => exact SizeHint.Exact.bounds meets

/-- A script after so many pulls. -/
def Script.after {α : Type} (script : Script α) (pulled : ℕ) : Script α :=
  (fun script => script.next.2)^[pulled] script

/-- Pipelines that tell nothing of their length in any state, such as the
traversals of a memo. -/
def Pipeline.Reticent : Pipeline → Prop
  | .memoized _ | .product _ | .nested _ _ | .cycle _ | .flattened _ | .chunked _ => True
  | _ => False

/-- Pipelines over sources whose hints are of a grade in all of their states.
Tests keep bounds but not exact hints. -/
inductive Hinted : Grade → Pipeline → Prop
  | source {grade : Grade} {tag : Option String} {script : Script Value}
      (honest : ∀ pulled, grade.Meets (script.after pulled).currentHint
        (stepCount Script.next (script.after pulled))) : Hinted grade (.source tag script)
  | reticent {pipeline : Pipeline} (reticent : pipeline.Reticent) : Hinted .bounds pipeline
  | integers {counter : Integers} : Hinted .bounds (.integers counter)
  | mapped {grade : Grade} {stage : Mapped Pipeline Mapper} (input : Hinted grade stage.input) :
      Hinted grade (.mapped stage)
  | filtered {stage : Filtered Pipeline Predicate} (input : Hinted .bounds stage.input) :
      Hinted .bounds (.filtered stage)
  | tapped {grade : Grade} {stage : Tapped Pipeline (Option String)}
      (input : Hinted grade stage.input) : Hinted grade (.tapped stage)
  | comprehension {stage : Comprehension Pipeline Mapper ℕ} (input : Hinted .bounds stage.input) :
      Hinted .bounds (.comprehension stage)
  | subSequence {grade : Grade} {stage : SubSequence Pipeline}
      (input : Hinted grade stage.input) : Hinted grade (.subSequence stage)
  | enumerate {grade : Grade} {stage : Enumerate Pipeline} (input : Hinted grade stage.input) :
      Hinted grade (.enumerate stage)
  | zipAll {grade : Grade} {zip : ZipAll Pipeline}
      (inputs : ∀ traversal, traversal ∈ zip.traversals → Hinted grade traversal)
      (width : zip.traversals = [] → zip.exhausted = true) : Hinted grade (.zipAll zip)
  | zip {grade : Grade} {traversals : List Pipeline} {exhausted : Bool}
      (inputs : ∀ traversal, traversal ∈ traversals → Hinted grade traversal)
      (width : traversals ≠ []) : Hinted grade (.zip traversals exhausted)

section Keeping

variable {grade : Grade}

lemma ZipAll.length_pullRow {ω τ α : Type} {pull : Pull ω τ α} {traversals : List τ}
    {result : Option (List α) × List τ} {store last : ω}
    (h : ZipAll.pullRow pull traversals store = some (result, last)) :
    result.2.length = traversals.length := by
  induction traversals generalizing result store last with
  | nil =>
    cases h
    rfl
  | cons traversal rest ih =>
    obtain ⟨⟨element, traversal'⟩, store₁, -, hrest⟩ := Run.bind_eq_some_iff.mp h
    cases element with
    | none =>
      cases hrest
      rfl
    | some x =>
      obtain ⟨⟨row, rest'⟩, store₂, hrow, hresult⟩ := Run.bind_eq_some_iff.mp hrest
      cases hresult
      exact congrArg (· + 1) (ih hrow)

lemma ZipAll.length_next {ω τ α : Type} {pull : Pull ω τ α} {zip : ZipAll τ}
    {result : Option (List α) × ZipAll τ} {store last : ω}
    (h : ZipAll.next pull zip store = some (result, last)) :
    result.2.traversals.length = zip.traversals.length := by
  cases running : zip.exhausted with
  | true =>
    simp only [ZipAll.next, running, if_true] at h
    cases h
    rfl
  | false =>
    simp only [ZipAll.next, running] at h
    obtain ⟨⟨row, traversals⟩, store', hrow, hresult⟩ := Run.bind_eq_some_iff.mp h
    cases hresult
    exact ZipAll.length_pullRow hrow

/-- A source is pulled by stepping its script. -/
lemma pullSource_eq (tag : Option String) (script : Script Value) (store : Store) :
    ∃ store', pullSource tag script store = some (script.next, store') := by
  rcases h : script.next with ⟨_ | value, script'⟩
  · exact ⟨_, by simp only [pullSource, h]; rfl⟩
  · exact ⟨_, by simp only [pullSource, h]; rfl⟩

lemma Pipeline.Reticent.hint_eq {pipeline : Pipeline} (reticent : pipeline.Reticent) :
    pipeline.hint = .unknown := by
  cases pipeline <;> first | rfl | cases reticent

lemma Pipeline.Reticent.next {budget : ℕ} {pipeline : Pipeline} (reticent : pipeline.Reticent)
    {result : Option Value × Pipeline} {store store' : Store}
    (pulled : Pipeline.next (budget + 1) pipeline store = some (result, store')) :
    result.2.Reticent := by
  cases pipeline with
  | memoized | product | nested | cycle | flattened | chunked =>
    obtain ⟨_, _, -, hresult⟩ := Run.bind_eq_some_iff.mp pulled
    cases hresult
    trivial
  | _ => cases reticent

/-- A pull leaves a pipeline that is put together in the same way. -/
theorem Hinted.next {budget : ℕ} {pipeline : Pipeline} (hinted : Hinted grade pipeline)
    {result : Option Value × Pipeline} {store store' : Store}
    (pulled : Pipeline.next budget pipeline store = some (result, store')) :
    Hinted grade result.2 := by
  induction budget generalizing grade pipeline result store store' with
  | zero => cases pulled
  | succ budget ih =>
    have alike : ∀ grade, (Comparison.plain Store).Alike (atTop : Filter ℕ)
        (fun pipeline _ => Hinted grade pipeline) (Pipeline.next budget)
        fun _ => Pipeline.next budget := fun grade =>
      Comparison.alike_of_keeps fun hinted hpull => ih hinted hpull
    have lasts : ∀ grade pipeline,
        (Comparison.plain Store).Lasting fun _ => Hinted grade pipeline :=
      fun _ _ _ _ _ hinted => hinted
    cases hinted with
    | @source _ tag script honest =>
      obtain ⟨⟨answer, script'⟩, store₁, hnext, hresult⟩ := Run.bind_eq_some_iff.mp pulled
      cases hresult
      obtain ⟨store₂, hscript⟩ := pullSource_eq tag script store
      have hpair := (Prod.mk.inj (Option.some.inj (hscript.symm.trans hnext))).1
      obtain rfl : script.next.2 = script' := by rw [hpair]
      exact .source fun pulled => honest (pulled + 1)
    | reticent reticent => exact .reticent (reticent.next pulled)
    | integers =>
      cases pulled
      exact .integers
    | mapped input =>
      obtain ⟨⟨answer, stage⟩, store₁, hnext, hresult⟩ := Run.bind_eq_some_iff.mp pulled
      cases hresult
      exact .mapped (((alike grade).mapped (lasts grade) fun _ _ => Comparison.neutral_plain).keeps
        input hnext)
    | filtered input =>
      obtain ⟨⟨answer, stage⟩, store₁, hnext, hresult⟩ := Run.bind_eq_some_iff.mp pulled
      cases hresult
      exact .filtered (((alike .bounds).filtered (lasts .bounds)
        (fun _ _ => Comparison.neutral_plain) tendsto_id budget).keeps input hnext)
    | tapped input =>
      obtain ⟨⟨answer, stage⟩, store₁, hnext, hresult⟩ := Run.bind_eq_some_iff.mp pulled
      cases hresult
      exact .tapped (((alike grade).tapped (lasts grade) fun _ _ => Comparison.neutral_plain).keeps
        input hnext)
    | comprehension input =>
      obtain ⟨⟨answer, stage⟩, store₁, hnext, hresult⟩ := Run.bind_eq_some_iff.mp pulled
      cases hresult
      exact .comprehension (((alike .bounds).comprehension (lasts .bounds)
        (fun _ _ => Comparison.neutral_plain) (fun _ _ => Comparison.neutral_plain) tendsto_id
        budget).keeps input hnext)
    | subSequence input =>
      obtain ⟨⟨answer, stage⟩, store₁, hnext, hresult⟩ := Run.bind_eq_some_iff.mp pulled
      cases hresult
      exact .subSequence ((alike grade).subSequence.keeps input hnext)
    | enumerate input =>
      obtain ⟨⟨answer, stage⟩, store₁, hnext, hresult⟩ := Run.bind_eq_some_iff.mp pulled
      cases hresult
      exact .enumerate ((alike grade).enumerate.keeps input hnext)
    | zipAll inputs width =>
      obtain ⟨⟨row, zip⟩, store₁, hnext, hresult⟩ := Run.bind_eq_some_iff.mp pulled
      cases hresult
      refine .zipAll (((alike grade).zipAll (lasts grade)).keeps inputs hnext) fun hnil => ?_
      have hlength := ZipAll.length_next hnext
      simp only [hnil] at hlength
      have ended := width (List.length_eq_zero_iff.mp hlength.symm)
      simp only [ZipAll.next, ended, if_true] at hnext
      cases hnext
      exact ended
    | zip inputs width =>
      rw [Pipeline.next_zip] at pulled
      obtain ⟨⟨row, zip⟩, store₁, hnext, hresult⟩ := Run.bind_eq_some_iff.mp pulled
      cases hresult
      refine .zip (((alike grade).zipAll (lasts grade)).keeps inputs hnext) fun hnil => width ?_
      have hlength := ZipAll.length_next hnext
      simp only [hnil] at hlength
      exact List.length_eq_zero_iff.mp hlength.symm

end Keeping

section Scripts

variable {α : Type} (element : ℕ → α) (length : ℕ)

/-- A finite script without gaps, after some pulls. -/
lemma Script.after_ofFunction (pulled : ℕ) :
    (ofFunction element (some length) none).after pulled =
      { ofFunction element (some length) none with position := min pulled length } := by
  induction pulled with
  | zero => simp [after, ofFunction]
  | succ pulled ih =>
    rw [after, Function.iterate_succ_apply', ← after, ih]
    by_cases inside : pulled < length
    · have hmin : min pulled length = pulled := by omega
      have hmin' : min (pulled + 1) length = pulled + 1 := by omega
      rw [hmin, hmin']
      simp [next, isOver, ofFunction, Nat.not_le.mpr inside]
    · have hmin : min pulled length = length := by omega
      have hmin' : min (pulled + 1) length = length := by omega
      rw [hmin, hmin']
      simp [next, isOver, ofFunction]

/-- It has as many elements left as its own hint says. -/
lemma Script.stepCount_ofFunction {left position : ℕ} (h : position + left = length) :
    stepCount Script.next { ofFunction element (some length) none with position } = left := by
  induction left generalizing position with
  | zero =>
    have hnext : ({ ofFunction element (some length) none with position } : Script α).next =
        (none, { ofFunction element (some length) none with position }) := by
      have passed : length ≤ position := by omega
      simp [next, isOver, ofFunction, passed]
    exact stepCount_none hnext
  | succ left ih =>
    have hnext : ({ ofFunction element (some length) none with position } : Script α).next =
        (some (element position),
          { ofFunction element (some length) none with position := position + 1 }) := by
      have inside : ¬ length ≤ position := by omega
      simp [next, isOver, ofFunction, inside]
    rw [stepCount_some hnext, ih (by omega), Nat.cast_succ]

lemma Hinted.ofFunction (element : ℕ → Value) {length : ℕ} (given : length ≤ countCeiling)
    (tag : Option String) :
    Hinted .exact (.source tag (.ofFunction element (some length) none)) := by
  refine .source fun pulled => ⟨length - min pulled length, by omega, ?_, ?_⟩
  · rw [Script.after_ofFunction]
    rfl
  · rw [Script.after_ofFunction]
    exact Script.stepCount_ofFunction element length (by omega)

end Scripts

end Traversals
