import Mathlib.Data.ENat.Lattice
import Mathlib.Data.Set.Finite.List
import Mathlib.Order.Filter.Finite
import Mathlib.Order.CompletePartialOrder
import Traversals.Proofs.Hint.Pipelines
import Traversals.Proofs.Hint.Stages

/-!
# Hints of pipelines

The hint of a pipeline bounds what it still delivers before its next end, if
the hints of its sources do so in all of their states. Bounds pass through
every stage here. Exact hints pass through the stages that drop nothing by a
test. Both hold after any pulls.
-/

namespace Traversals

open Filter

/-- The number of elements a pipeline delivers before its next end, with any
budget. -/
noncomputable def Pipeline.upcoming (pipeline : Pipeline) (store : Store) : ℕ∞ :=
  ⨆ (n : ℕ) (_ : ∃ budget, Delivers (Pipeline.next budget) n pipeline store), (n : ℕ∞)

/-- A hint for which there are pulls: as many as the lower bound, and no more
than the upper one. -/
structure Pipeline.Honest (pipeline : Pipeline) : Prop where
  lower : ∀ᶠ budget in atTop, AtLeast (Pipeline.next budget) pipeline.hint.lower pipeline
  upper : ∀ upper, pipeline.hint.upper = some upper →
    ∀ budget, AtMost (Pipeline.next budget) upper pipeline

lemma Pipeline.Honest.bounds {pipeline : Pipeline} (honest : pipeline.Honest) (store : Store) :
    pipeline.hint.Bounds (pipeline.upcoming store) := by
  constructor
  · obtain ⟨budget, atLeast⟩ := honest.lower.exists
    exact le_iSup₂_of_le _ ⟨budget, atLeast.delivers store⟩ le_rfl
  · intro upper h
    refine iSup₂_le fun n ⟨budget, delivers⟩ => ?_
    exact_mod_cast delivers.le (honest.upper upper h budget)

section Hints

namespace Pipeline

lemma hintAll_eq (pipelines : List Pipeline) : hintAll pipelines = pipelines.map hint := by
  induction pipelines with
  | nil => rfl
  | cons pipeline rest ih => rw [hintAll, ih, List.map_cons]

lemma hint_zipAll (zip : ZipAll Pipeline) : (zipAll zip).hint = ZipAll.hint hint zip := by
  obtain ⟨traversals, exhausted⟩ := zip
  rw [hint, hintAll_eq]
  simp [ZipAll.hint]

lemma hint_zip (traversals : List Pipeline) (exhausted : Bool) :
    (zip traversals exhausted).hint = Zip.hint hint (Zip.ofList traversals exhausted) := by
  rw [hint, hintAll_eq]
  simp only [Zip.hint, Zip.ofList, Zip.toList, List.map_id_fun, id]
  rfl

lemma next_integers (budget : ℕ) (counter : Integers) :
    next (budget + 1) (integers counter) = do
      let (n, counter) ← (return counter.next : Run Store (Option ℕ × Integers))
      return (n.map fun n : ℕ => Value.int n, integers counter) := by
  rcases h : counter.next with ⟨_ | n, counter'⟩
  · simp [next, h]
  · simp [next, h]

/-- A pipeline without a budget is not pulled, so only other budgets matter. -/
lemma Honest.of_succ {pipeline : Pipeline}
    (lower : ∀ᶠ budget in atTop, AtLeast (next (budget + 1)) pipeline.hint.lower pipeline)
    (upper : ∀ upper, pipeline.hint.upper = some upper →
      ∀ budget, AtMost (next (budget + 1)) upper pipeline) : pipeline.Honest := by
  constructor
  · obtain ⟨least, h⟩ := eventually_atTop.mp lower
    refine eventually_atTop.mpr ⟨least + 1, fun budget hbudget => ?_⟩
    obtain ⟨budget, rfl⟩ : ∃ b, budget = b + 1 := ⟨budget - 1, by omega⟩
    exact h budget (by omega)
  · intro count h budget
    cases budget with
    | zero =>
      cases count with
      | zero => exact fun store x pipeline' store' hpull => by cases hpull
      | succ count => exact fun store x pipeline' store' hpull => by cases hpull
    | succ budget => exact upper count h budget

end Pipeline

lemma Mapper.apply_total (mapper : Mapper) (argument : Value) (store : Store) :
    ∃ result store', mapper.apply argument store = some (result, store') := ⟨_, _, rfl⟩

lemma visit_total (tag : Option String) (value : Value) (store : Store) :
    ∃ result store', visit tag value store = some (result, store') := ⟨_, _, rfl⟩

namespace Integers

lemma hint_bounds (counter : Integers) : counter.hint.Bounds counter.left := by
  obtain ⟨_ | n⟩ := counter
  · refine ⟨le_rfl, fun upper h => ?_⟩
    obtain rfl := Option.some.inj h
    exact le_rfl
  · by_cases counted : countCeiling - n < countCeiling
    · simp only [hint, left, counted, if_true]
      refine ⟨le_rfl, fun upper h => ?_⟩
      obtain rfl := Option.some.inj h
      exact le_rfl
    · simp only [hint, left, counted, if_false]
      refine ⟨?_, fun upper h => by cases h⟩
      norm_cast
      simp only [SizeHint.uncountable]
      omega

end Integers

lemma honest_subSequence {stage : SubSequence Pipeline} (honest : stage.input.Honest) :
    (∀ᶠ budget in atTop, AtLeast (SubSequence.next (Pipeline.next budget))
        (stage.hint Pipeline.hint).lower stage) ∧
      ∀ upper, (stage.hint Pipeline.hint).upper = some upper →
        ∀ budget, AtMost (SubSequence.next (Pipeline.next budget)) upper stage := by
  by_cases ended : stage.remaining = some 0
  · rw [SubSequence.hint, if_pos ended]
    refine ⟨Eventually.of_forall fun _ => trivial, fun upper h budget => ?_⟩
    obtain rfl := Option.some.inj h
    exact .remaining ended
  · rw [SubSequence.hint, if_neg ended]
    constructor
    · filter_upwards [honest.lower] with budget atLeast
      exact atLeast.subSequence
    · intro upper h budget
      cases hinput : stage.input.hint.upper with
      | none =>
        simp only [hinput] at h
        exact .remaining h
      | some available =>
        simp only [hinput] at h
        exact (honest.upper available hinput budget).subSequence (Option.some.inj h).le

/-- The counter is another traversal of the zip. -/
lemma honest_enumerate {stage : Enumerate Pipeline} (honest : stage.input.Honest) :
    (∀ᶠ budget in atTop, AtLeast (Enumerate.next (Pipeline.next budget))
        (stage.hint Pipeline.hint).lower stage) ∧
      ∀ upper, (stage.hint Pipeline.hint).upper = some upper →
        ∀ budget, AtMost (Enumerate.next (Pipeline.next budget)) upper stage := by
  cases running : stage.exhausted with
  | true =>
    rw [Enumerate.hint, if_pos running]
    refine ⟨Eventually.of_forall fun _ => trivial, fun upper h budget => ?_⟩
    obtain rfl := Option.some.inj h
    intro store y stage' last hnext
    rw [(Enumerate.next_eq_some hnext).1] at running
    cases running
  | false =>
    rw [Enumerate.hint, if_neg (by simp [running])]
    obtain ⟨lower, upper, -⟩ := SizeHint.leastOf_least [stage.counter.hint, stage.input.hint]
    have lowerCounter := lower stage.counter.hint (by simp)
    have lowerInput := lower stage.input.hint (by simp)
    obtain ⟨counterLower, counterUpper⟩ := stage.counter.hint_bounds
    constructor
    · filter_upwards [honest.lower] with budget atLeast
      refine .enumerate running ?_ (atLeast.mono lowerInput)
      exact lowerCounter.trans (by exact_mod_cast counterLower)
    · intro count h budget
      obtain ⟨hint, hmem, hcount⟩ := upper count h
      rcases (by simpa using hmem : hint = _ ∨ hint = _) with rfl | rfl
      · exact .counter (by exact_mod_cast counterUpper count hcount)
      · exact (honest.upper count hcount budget).enumerate

/-- A zip is as long as the shortest of its traversals. -/
lemma honest_rows (zip : ZipAll Pipeline) (hint : SizeHint)
    (honest : ∀ traversal, traversal ∈ zip.traversals → traversal.Honest)
    (ended : zip.exhausted = true → hint = .empty)
    (least : zip.exhausted = false → hint.LeastOf (zip.traversals.map Pipeline.hint)) :
    (∀ᶠ budget in atTop, AtLeast (ZipAll.next (Pipeline.next budget)) hint.lower zip) ∧
      ∀ upper, hint.upper = some upper →
        ∀ budget, AtMost (ZipAll.next (Pipeline.next budget)) upper zip := by
  cases running : zip.exhausted with
  | true =>
    rw [ended running]
    refine ⟨Eventually.of_forall fun _ => trivial, fun upper h budget => ?_⟩
    obtain rfl := Option.some.inj h
    intro store row zip' last hnext
    rw [(ZipAll.next_eq_some hnext).1] at running
    cases running
  | false =>
    obtain ⟨lower, upper, -⟩ := least running
    constructor
    · have all : ∀ᶠ budget in atTop, ∀ traversal, traversal ∈ zip.traversals →
          AtLeast (Pipeline.next budget) traversal.hint.lower traversal :=
        (eventually_all_finite (List.finite_toSet zip.traversals)).mpr
          fun traversal h => (honest traversal h).lower
      filter_upwards [all] with budget atLeast
      refine .zipAll running fun traversal h => (atLeast traversal h).mono ?_
      exact lower _ (List.mem_map_of_mem h)
    · intro count h budget
      obtain ⟨_, hhint, hcount⟩ := upper count h
      obtain ⟨traversal, hmem, rfl⟩ := List.mem_map.mp hhint
      exact .zipAll ⟨traversal, hmem, (honest traversal hmem).upper count hcount budget⟩

/-- Hints stay within bounds through every stage. -/
theorem Hinted.honest {grade : Grade} {pipeline : Pipeline} (hinted : Hinted grade pipeline) :
    pipeline.Honest := by
  induction hinted with
  | @source grade tag script honest =>
    have follows := fun script store => pullSource_eq tag script store
    have bounds := (honest 0).bounds
    refine .of_succ (Eventually.of_forall fun budget => ?_) fun upper h budget => ?_
    · exact (atLeast_of_stepCount follows bounds.1).wrapped (Pipeline.source tag) id
        (fun _ => rfl) fun _ => rfl
    · exact (atMost_of_stepCount follows (bounds.2 upper h)).wrapped (Pipeline.source tag) id
        (fun _ => rfl) rfl
  | reticent reticent =>
    refine .of_succ (Eventually.of_forall fun budget => ?_) fun upper h budget => ?_
    · rw [reticent.hint_eq]
      trivial
    · rw [reticent.hint_eq] at h
      cases h
  | @integers counter =>
    have follows : ∀ (counter : Integers) (store : Store), ∃ store',
        (fun counter => return counter.next : Pull Store Integers ℕ) counter store =
          some (counter.next, store') := fun counter store => ⟨store, rfl⟩
    have bounds := counter.hint_bounds
    rw [← counter.stepCount_eq] at bounds
    refine .of_succ (Eventually.of_forall fun budget => ?_) fun upper h budget => ?_
    · exact (atLeast_of_stepCount follows bounds.1).wrapped Pipeline.integers
        (Option.map fun n : ℕ => Value.int n) (fun _ => Pipeline.next_integers _ _) fun _ => rfl
    · exact (atMost_of_stepCount follows (bounds.2 upper h)).wrapped Pipeline.integers
        (Option.map fun n : ℕ => Value.int n) (fun _ => Pipeline.next_integers _ _) rfl
  | @mapped grade stage input ih =>
    refine .of_succ ?_ fun upper h budget => ?_
    · filter_upwards [ih.lower] with budget atLeast
      exact (atLeast.mapped Mapper.apply_total).wrapped Pipeline.mapped id (fun _ => rfl)
        fun _ => rfl
    · exact (ih.upper upper h budget).mapped.wrapped Pipeline.mapped id (fun _ => rfl) rfl
  | @filtered stage input ih =>
    refine .of_succ (Eventually.of_forall fun _ => trivial) fun upper h budget => ?_
    exact (ih.upper upper h budget).filtered.wrapped Pipeline.filtered id (fun _ => rfl) rfl
  | @tapped grade stage input ih =>
    refine .of_succ ?_ fun upper h budget => ?_
    · filter_upwards [ih.lower] with budget atLeast
      exact (atLeast.tapped visit_total).wrapped Pipeline.tapped id (fun _ => rfl) fun _ => rfl
    · exact (ih.upper upper h budget).tapped.wrapped Pipeline.tapped id (fun _ => rfl) rfl
  | @comprehension stage input ih =>
    refine .of_succ (Eventually.of_forall fun _ => trivial) fun upper h budget => ?_
    exact (ih.upper upper h budget).comprehension.wrapped Pipeline.comprehension id
      (fun _ => rfl) rfl
  | @subSequence grade stage input ih =>
    obtain ⟨lower, upper⟩ := honest_subSequence ih
    refine .of_succ ?_ fun count h budget => ?_
    · filter_upwards [lower] with budget atLeast
      exact atLeast.wrapped Pipeline.subSequence id (fun _ => rfl) fun _ => rfl
    · exact (upper count h budget).wrapped Pipeline.subSequence id (fun _ => rfl) rfl
  | @enumerate grade stage input ih =>
    obtain ⟨lower, upper⟩ := honest_enumerate ih
    refine .of_succ ?_ fun count h budget => ?_
    · filter_upwards [lower] with budget atLeast
      exact atLeast.wrapped Pipeline.enumerate
        (Option.map fun element => Value.indexed element.index element.value) (fun _ => rfl)
        fun _ => rfl
    · exact (upper count h budget).wrapped Pipeline.enumerate
        (Option.map fun element => Value.indexed element.index element.value) (fun _ => rfl) rfl
  | @zipAll grade zip inputs width ih =>
    obtain ⟨lower, upper⟩ := honest_rows zip (Pipeline.zipAll zip).hint ih
      (fun ended => by rw [Pipeline.hint_zipAll, ZipAll.hint, ended, if_pos rfl])
      fun running => by
        rw [Pipeline.hint_zipAll, ZipAll.hint, running]
        exact SizeHint.leastOf_foldl _
    refine .of_succ ?_ fun count h budget => ?_
    · filter_upwards [lower] with budget atLeast
      exact atLeast.wrapped Pipeline.zipAll (Option.map Value.list) (fun _ => rfl) fun _ => rfl
    · exact (upper count h budget).wrapped Pipeline.zipAll (Option.map Value.list) (fun _ => rfl)
        rfl
  | @zip grade traversals exhausted inputs width ih =>
    obtain ⟨lower, upper⟩ := honest_rows ⟨traversals, exhausted⟩
      (Pipeline.zip traversals exhausted).hint ih
      (fun ended => by
        rw [Pipeline.hint_zip]
        exact if_pos ended)
      fun running => by
        rw [Pipeline.hint_zip, Zip.hint, if_neg (by simpa [Zip.ofList] using running)]
        exact SizeHint.leastOf_least _
    refine .of_succ ?_ fun count h budget => ?_
    · filter_upwards [lower] with budget atLeast
      exact atLeast.wrapped (fun zip => Pipeline.zip zip.traversals zip.exhausted)
        (Option.map Value.list) (fun zip => Pipeline.next_zip budget zip.traversals zip.exhausted)
        fun _ => rfl
    · exact (upper count h budget).wrapped (fun zip => Pipeline.zip zip.traversals zip.exhausted)
        (Option.map Value.list) (fun zip => Pipeline.next_zip budget zip.traversals zip.exhausted)
        rfl

lemma SizeHint.certain_empty : SizeHint.empty.Certain := ⟨0, Nat.zero_le _, rfl⟩

/-- No more is selected than there is. -/
lemma SubSequence.capped_selectable_le {τ : Type} (stage : SubSequence τ) (available : ℕ) :
    stage.capped (stage.selectable available) ≤ available := by
  have hselect : stage.selectable available ≤ available := by
    have hpos := stage.stride_pos
    have hmul : available ≤ stage.stride * available := Nat.le_mul_of_pos_left _ hpos
    refine Nat.le_of_lt_succ (Nat.div_lt_of_lt_mul ?_)
    rw [Nat.mul_succ]
    omega
  unfold capped
  split <;> omega

lemma certain_subSequence {stage : SubSequence Pipeline} (certain : stage.input.hint.Certain) :
    (stage.hint Pipeline.hint).Certain := by
  by_cases ended : stage.remaining = some 0
  · rw [SubSequence.hint, if_pos ended]
    exact SizeHint.certain_empty
  · obtain ⟨n, hn, hinput⟩ := certain
    refine ⟨stage.capped (stage.selectable n), (stage.capped_selectable_le n).trans hn, ?_⟩
    rw [SubSequence.hint, if_neg ended, hinput]
    rfl

/-- A counter that has more numbers left than can be given has more than the
input has elements. -/
lemma certain_enumerate {stage : Enumerate Pipeline} (certain : stage.input.hint.Certain) :
    (stage.hint Pipeline.hint).Certain := by
  cases running : stage.exhausted with
  | true =>
    rw [Enumerate.hint, if_pos running]
    exact SizeHint.certain_empty
  | false =>
    rw [Enumerate.hint, if_neg (by simp [running])]
    have counter : stage.counter.hint.Certain ∨ stage.counter.hint = .uncountable := by
      obtain ⟨_ | n⟩ := stage.counter
      · exact Or.inl SizeHint.certain_empty
      · by_cases counted : countCeiling - n < countCeiling
        · exact Or.inl ⟨countCeiling - n + 1, counted, by simp [Integers.hint, counted]⟩
        · exact Or.inr (by simp [Integers.hint, counted])
    rcases counter with counter | uncountable
    · refine (SizeHint.leastOf_least _).certain (List.cons_ne_nil _ _) ?_
      simp only [List.forall_mem_cons]
      exact ⟨counter, certain, List.forall_mem_nil _⟩
    · obtain ⟨n, hn, hinput⟩ := certain
      refine ⟨n, hn, ?_⟩
      rw [uncountable, hinput]
      simp [Zip.least, SizeHint.uncountable, SizeHint.exactly, List.min?, hn]

/-- Without tests, exact hints stay exact. -/
theorem Hinted.certain {pipeline : Pipeline} (hinted : Hinted .exact pipeline) :
    pipeline.hint.Certain := by
  generalize hgrade : Grade.exact = grade at hinted
  induction hinted with
  | source honest =>
    subst hgrade
    exact (honest 0).certain
  | reticent => cases hgrade
  | integers => cases hgrade
  | mapped input ih => exact ih hgrade
  | filtered input ih => cases hgrade
  | tapped input ih => exact ih hgrade
  | comprehension input ih => cases hgrade
  | subSequence input ih => exact certain_subSequence (ih hgrade)
  | enumerate input ih => exact certain_enumerate (ih hgrade)
  | @zipAll _ zip inputs width ih =>
    rw [Pipeline.hint_zipAll, ZipAll.hint]
    cases running : zip.exhausted with
    | true => exact SizeHint.certain_empty
    | false =>
      have nonempty : zip.traversals ≠ [] := fun h => by simp [width h] at running
      refine (SizeHint.leastOf_foldl _).certain (mt List.map_eq_nil_iff.mp nonempty) ?_
      exact List.forall_mem_map.mpr fun traversal h => ih traversal h hgrade
  | @zip _ traversals exhausted inputs width ih =>
    rw [Pipeline.hint_zip, Zip.hint]
    cases exhausted with
    | true => exact SizeHint.certain_empty
    | false =>
      refine (SizeHint.leastOf_least _).certain (mt List.map_eq_nil_iff.mp width) ?_
      exact List.forall_mem_map.mpr fun traversal h => ih traversal h hgrade

/-- Hints are sound for what they are said of. -/
theorem Hinted.meets {grade : Grade} {pipeline : Pipeline} (hinted : Hinted grade pipeline)
    (store : Store) : grade.Meets pipeline.hint (pipeline.upcoming store) := by
  have bounds := hinted.honest.bounds store
  cases grade with
  | bounds => exact bounds
  | exact => exact bounds.exact hinted.certain

lemma Hinted.pulls {grade : Grade} {budget count : ℕ} {pipeline : Pipeline}
    (hinted : Hinted grade pipeline) {result : List (Option Value) × Pipeline}
    {store store' : Store}
    (pulled : Traversals.pulls (Pipeline.next budget) count pipeline store =
      some (result, store')) :
    Hinted grade result.2 := by
  induction count generalizing pipeline store result store' with
  | zero =>
    cases pulled
    exact hinted
  | succ count ih =>
    obtain ⟨⟨answer, pipeline₁⟩, store₁, hnext, hrest⟩ := Run.bind_eq_some_iff.mp pulled
    obtain ⟨⟨answers, pipeline₂⟩, store₂, hpulls, hresult⟩ := Run.bind_eq_some_iff.mp hrest
    cases hresult
    have hinted' := ih (hinted.next hnext) hpulls
    exact hinted'

end Hints

/-- After any pulls, the hint of a pipeline bounds the number of elements that
it delivers before its next end; without tests, and over sources with exact
hints, it is that number. -/
theorem hints_stay_sound {grade : Grade} {pipeline : Pipeline} (hinted : Hinted grade pipeline)
    {budget count : ℕ} {answers : List (Option Value)} {pipeline' : Pipeline}
    {store store' : Store}
    (pulled : pulls (Pipeline.next budget) count pipeline store =
      some ((answers, pipeline'), store')) :
    grade.Meets pipeline'.hint (pipeline'.upcoming store') :=
  (hinted.pulls pulled).meets store'

/-- Every second one of five elements, after the first answer: one is left, and
the hint says so. -/
theorem hints_stay_sound_strided :
    let script : Script Value := .ofFunction (fun n => .int n) (some 5) none
    let pipeline : Pipeline := .subSequence ⟨.source none script, 1, 2, none, Nat.two_pos⟩
    Hinted .exact pipeline ∧ ∃ answers pipeline' store',
      pulls (Pipeline.next 2) 1 pipeline {} = some ((answers, pipeline'), store') ∧
        pipeline'.hint = .exactly 1 ∧
        Grade.exact.Meets pipeline'.hint (pipeline'.upcoming store') := by
  intro script pipeline
  have hinted : Hinted .exact pipeline := .subSequence (.ofFunction _ (by decide) none)
  have pulled : pulls (Pipeline.next 2) 1 pipeline {} = some ((_, _), _) := rfl
  exact ⟨hinted, _, _, _, pulled, by decide, hints_stay_sound hinted pulled⟩

end Traversals
