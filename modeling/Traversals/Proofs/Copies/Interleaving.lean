import Traversals.Proofs.Copies.Memos
import Traversals.Proofs.Upstream

/-!
# Copies do not interfere

A pipeline is copied in any state that it can get into, and the original and
the copy are pulled in any order. The two share the memos and predicates of the
store, and still each is answered as if it had the store for itself.

The proof keeps a store for each of them in which nothing but its own pulls has
happened. None of these can be told from the store that they share.
-/

namespace Traversals

open Filter
open Comparison (PipelineFits)

/-- A pipeline made of others at hand, or a new traversal of a memo. -/
def Pipeline.MadeFrom (store : Store) (live : List Pipeline) (pipeline : Pipeline) : Prop :=
  (∀ part, part ∈ pipeline.parts → part ∈ live) ∧
    ∀ traversal, pipeline = .memoized traversal →
      traversal.position = 0 ∧ traversal.memo < store.memos.size

/-- The stores that can be got into, with pipelines at hand in each. A pipeline
stays at hand when it is used, pulled or memoized, as a copy of it may. -/
inductive Reachable : Store → List Pipeline → Prop
  | empty : Reachable {} []
  | predicate {store : Store} {live : List Pipeline} {predicate : Predicate}
      {verdict : Value → Bool} (reachable : Reachable store live)
      (answers : predicate.AnswersBy verdict) : Reachable (store.addPredicate predicate).2 live
  | memo {store : Store} {live : List Pipeline} {pipeline : Pipeline}
      (reachable : Reachable store live) (at_hand : pipeline ∈ live) :
      Reachable (store.addMemo (.make pipeline)).2 live
  | make {store : Store} {live : List Pipeline} {pipeline : Pipeline}
      (reachable : Reachable store live) (made : pipeline.MadeFrom store live) :
      Reachable store (pipeline :: live)
  | next {store store' : Store} {live : List Pipeline} {pipeline pipeline' : Pipeline}
      {budget : ℕ} {answer : Option Value} (reachable : Reachable store live)
      (at_hand : pipeline ∈ live)
      (pulled : Pipeline.next budget pipeline store = some ((answer, pipeline'), store')) :
      Reachable store' (pipeline' :: live)

namespace Store

variable {level : ℕ} {store other : Store}

lemma Fits.inside {traversal : MemoTraversal} (fits : Fits level traversal store) :
    Fits store.memos.size traversal store := by
  obtain ⟨-, memo, held, position_le⟩ := fits
  obtain ⟨inside, -⟩ := Array.getElem?_eq_some_iff.mp held
  exact ⟨inside, memo, held, position_le⟩

lemma grows_addMemo (store : Store) (memo : Memo Pipeline Value) :
    store.Grows (store.addMemo memo).2 := by
  intro place memo' held
  obtain ⟨inside, -⟩ := Array.getElem?_eq_some_iff.mp held
  refine ⟨memo', ?_, le_rfl⟩
  rw [addMemo, Array.getElem?_push, if_neg (Nat.ne_of_lt inside), held]

/-- A new memo stands above all that its source has traversals of. -/
lemma Sound.addMemo (sound : store.Sound) {pipeline : Pipeline}
    (fits : PipelineFits (Fits store.memos.size) pipeline store) :
    (store.addMemo (.make pipeline)).2.Sound := by
  have grows := store.grows_addMemo (.make pipeline)
  refine ⟨fun place memo held traversal h => ?_, sound.predicates⟩
  rw [Store.addMemo, Array.getElem?_push] at held
  by_cases hplace : place = store.memos.size
  · rw [if_pos hplace] at held
    obtain rfl := Option.some.inj held
    obtain rfl := Option.some.inj h
    subst hplace
    exact fits.mono fun t ht => ht.grows grows
  · rw [if_neg hplace] at held
    exact (sound.sources place memo held traversal h).mono fun t ht => ht.grows grows

lemma Sound.addPredicate (sound : store.Sound) {predicate : Predicate} {verdict : Value → Bool}
    (answers : predicate.AnswersBy verdict) : (store.addPredicate predicate).2.Sound := by
  refine ⟨sound.sources, fun place predicate' held => ?_⟩
  rw [Store.addPredicate, Array.getElem?_push] at held
  by_cases hplace : place = store.predicates.size
  · rw [if_pos hplace] at held
    obtain rfl := Option.some.inj held
    exact ⟨verdict, answers⟩
  · rw [if_neg hplace] at held
    exact sound.predicates place predicate' held

/-- A pull leaves the store sound, tells nothing new and lets everything fit on. -/
lemma Sound.next (sound : store.Sound) {pipeline pipeline' : Pipeline}
    (fits : PipelineFits (Fits level) pipeline store) {budget : ℕ} {answer : Option Value}
    {store' : Store}
    (pulled : Pipeline.next budget pipeline store = some ((answer, pipeline'), store')) :
    store'.Sound ∧ Continues level store store' ∧ PipelineFits (Fits level) pipeline' store' := by
  obtain ⟨_, _, same, ⟨continues, fits'⟩, -⟩ := hides level budget pipeline store store
    ⟨⟨sound, sound⟩, .refl level store⟩ fits fits _ store' pulled
  exact ⟨same.1.1, continues, fits'⟩

end Store

/-- In a reachable store all pipelines at hand fit. -/
theorem Reachable.sound {store : Store} {live : List Pipeline} (reachable : Reachable store live) :
    store.Sound ∧ ∀ pipeline, pipeline ∈ live →
      PipelineFits (Store.Fits store.memos.size) pipeline store := by
  induction reachable with
  | empty => exact ⟨⟨by simp, by simp⟩, by simp⟩
  | predicate _ answers ih => exact ⟨ih.1.addPredicate answers, ih.2⟩
  | @memo store live pipeline _ at_hand ih =>
    refine ⟨ih.1.addMemo (ih.2 _ at_hand), fun other h => (ih.2 other h).mono fun t fits => ?_⟩
    exact (fits.grows (store.grows_addMemo _)).inside
  | @make store live pipeline _ made ih =>
    refine ⟨ih.1, List.forall_mem_cons.mpr ⟨?_, ih.2⟩⟩
    refine Pipeline.throughout_iff.mpr ⟨fun part h => ih.2 part (made.1 part h), fun t h => ?_⟩
    obtain ⟨hposition, hmemo⟩ := made.2 t h
    exact ⟨hmemo, store.memos[t.memo], Array.getElem?_eq_getElem hmemo, by omega⟩
  | next _ at_hand pulled ih =>
    obtain ⟨sound, continues, fits⟩ := ih.1.next (ih.2 _ at_hand) pulled
    refine ⟨sound, List.forall_mem_cons.mpr ⟨fits.mono fun t h => h.inside, fun other h => ?_⟩⟩
    exact (ih.2 other h).mono fun t h => (h.grows continues.grows).inside

section Schedules

variable {κ : Type} [DecidableEq κ]

/-- One pull of one of several pipelines. -/
def pullOne (budget : ℕ) (which : κ) (pipelines : κ → Pipeline) :
    Run Store (Option Value × (κ → Pipeline)) := do
  let (answer, pipeline) ← Pipeline.next budget (pipelines which)
  return (answer, Function.update pipelines which pipeline)

/-- What one of them was answered in the course of a schedule. -/
def answersOf (which : κ) (log : List (κ × Option Value)) : List (Option Value) :=
  (log.filter (·.1 = which)).map (·.2)

/-- Pipelines in a store that they share, and for each a store of its own which
it cannot tell from that one. -/
structure Apart (level : ℕ) (pipelines : κ → Pipeline) (shared : Store) (own : κ → Store) :
    Prop where
  same : ∀ which, (Store.comparison level).Same shared (own which)
  fits : ∀ which, PipelineFits (Store.Fits level) (pipelines which) shared
  fits_own : ∀ which, PipelineFits (Store.Fits level) (pipelines which) (own which)

variable {level : ℕ} {pipelines : κ → Pipeline} {shared shared' : Store} {own : κ → Store}

/-- After the same pull in both stores, the others still cannot tell. -/
lemma Apart.update (apart : Apart level pipelines shared own) {which : κ} {pipeline : Pipeline}
    {own' : Store} (same : (Store.comparison level).Same shared' own')
    (continues : Store.Continues level shared shared')
    (fits : PipelineFits (Store.Fits level) pipeline shared')
    (fits_own : PipelineFits (Store.Fits level) pipeline own') :
    Apart level (Function.update pipelines which pipeline) shared'
      (Function.update own which own') := by
  refine ⟨fun other => ?_, fun other => ?_, fun other => ?_⟩
  · by_cases h : other = which
    · subst h
      rwa [Function.update_self]
    · rw [Function.update_of_ne h]
      exact ⟨⟨same.1.1, (apart.same other).1.2⟩,
        continues.similar.symm.trans (apart.same other).2⟩
  · by_cases h : other = which
    · subst h
      rwa [Function.update_self]
    · rw [Function.update_of_ne h]
      exact (apart.fits other).mono fun t h => h.grows continues.grows
  · by_cases h : other = which
    · subst h
      rwa [Function.update_self, Function.update_self]
    · rw [Function.update_of_ne h, Function.update_of_ne h]
      exact apart.fits_own other

lemma answersOf_cons (which other : κ) (answer : Option Value) (log : List (κ × Option Value)) :
    answersOf which ((other, answer) :: log) =
      if other = which then answer :: answersOf which log else answersOf which log := by
  by_cases h : other = which <;> simp [answersOf, h]

/-- A pull in the shared store can be made in the own store. -/
lemma Apart.pull_own (apart : Apart level pipelines shared own) {which : κ} {budget : ℕ}
    {answer : Option Value} {pipeline : Pipeline}
    (pulled : Pipeline.next budget (pipelines which) shared = some ((answer, pipeline), shared')) :
    ∃ own', (∀ᶠ budget in atTop, Pipeline.next budget (pipelines which) (own which) =
        some ((answer, pipeline), own')) ∧
      Apart level (Function.update pipelines which pipeline) shared'
        (Function.update own which own') := by
  obtain ⟨own', hruns, same, ⟨continues, fits⟩, -, fits_own⟩ :=
    Store.hides level budget (pipelines which) shared (own which) (apart.same which)
      (apart.fits which) (apart.fits_own which) _ shared' pulled
  exact ⟨own', hruns, apart.update same continues fits fits_own⟩

/-- And the other way round. -/
lemma Apart.pull_shared (apart : Apart level pipelines shared own) {which : κ} {budget : ℕ}
    {answer : Option Value} {pipeline : Pipeline} {own' : Store}
    (pulled : Pipeline.next budget (pipelines which) (own which) =
      some ((answer, pipeline), own')) :
    ∃ shared', (∀ᶠ budget in atTop, Pipeline.next budget (pipelines which) shared =
        some ((answer, pipeline), shared')) ∧
      Apart level (Function.update pipelines which pipeline) shared'
        (Function.update own which own') := by
  obtain ⟨⟨sound, sound'⟩, similar⟩ := apart.same which
  obtain ⟨shared', hruns, ⟨⟨sound₁, sound₁'⟩, similar₁⟩, ⟨-, fits_own⟩, continues, fits⟩ :=
    Store.hides level budget (pipelines which) (own which) shared ⟨⟨sound', sound⟩, similar.symm⟩
      (apart.fits_own which) (apart.fits which) _ own' pulled
  exact ⟨shared', hruns,
    apart.update ⟨⟨sound₁', sound₁⟩, similar₁.symm⟩ continues fits fits_own⟩

/-- What a schedule has each pipeline answered, it is answered by itself. -/
theorem Apart.answers_own (apart : Apart level pipelines shared own) {schedule : List κ}
    {budget : ℕ} {log : List (κ × Option Value)} {pipelines' : κ → Pipeline}
    (performed : performAll (pullOne budget) schedule pipelines shared =
      some ((log, pipelines'), shared')) (which : κ) :
    ∃ pipeline own', ∀ᶠ budget in atTop,
      pulls (Pipeline.next budget) (schedule.count which) (pipelines which) (own which) =
        some ((answersOf which log, pipeline), own') := by
  induction schedule generalizing pipelines shared own log with
  | nil =>
    obtain ⟨rfl, rfl⟩ := Prod.mk.inj (Prod.mk.inj (Option.some.inj performed)).1
    exact ⟨pipelines which, own which, Eventually.of_forall fun _ => rfl⟩
  | cons first rest ih =>
    obtain ⟨⟨answer, pipelines₁⟩, shared₁, hfirst, hrest⟩ := Run.bind_eq_some_iff.mp performed
    obtain ⟨⟨_, pipeline₁⟩, _, hpull, hupdate⟩ := Run.bind_eq_some_iff.mp hfirst
    obtain ⟨⟨log₁, pipelines₂⟩, shared₂, hlog, hresult⟩ := Run.bind_eq_some_iff.mp hrest
    cases hupdate
    cases hresult
    obtain ⟨own₁, hown, apart₁⟩ := apart.pull_own hpull
    obtain ⟨pipeline', own', hlater⟩ := ih apart₁ hlog
    refine ⟨pipeline', own', ?_⟩
    rw [answersOf_cons, List.count_cons]
    by_cases h : first = which
    · subst h
      simp only [Function.update_self] at hlater
      filter_upwards [hown, hlater] with budget h₁ h₂
      simp [pulls, Run.bind_apply, Run.map_apply, h₁, h₂]
    · simp only [Function.update_of_ne (Ne.symm h)] at hlater
      simpa [h] using hlater

/-- If each pipeline is answered by itself, the schedule is performed. -/
theorem Apart.performs (apart : Apart level pipelines shared own) {schedule : List κ}
    (answered : ∀ which, ∃ budget result own',
      pulls (Pipeline.next budget) (schedule.count which) (pipelines which) (own which) =
        some (result, own')) :
    ∃ result shared', ∀ᶠ budget in atTop,
      performAll (pullOne budget) schedule pipelines shared = some (result, shared') := by
  induction schedule generalizing pipelines shared own with
  | nil => exact ⟨_, shared, Eventually.of_forall fun _ => rfl⟩
  | cons first rest ih =>
    obtain ⟨budget, result, own', hpulls⟩ := answered first
    rw [List.count_cons_self] at hpulls
    obtain ⟨⟨answer, pipeline₁⟩, own₁, hpull, hrest⟩ := Run.bind_eq_some_iff.mp hpulls
    obtain ⟨⟨answers, pipeline₂⟩, own₂, hrest, -⟩ := Run.bind_eq_some_iff.mp hrest
    obtain ⟨shared₁, hshared, apart₁⟩ := apart.pull_shared hpull
    obtain ⟨⟨log, pipelines₂⟩, shared₂, hlater⟩ := ih apart₁ fun which => by
      by_cases h : which = first
      · subst h
        simp only [Function.update_self]
        exact ⟨budget, _, _, hrest⟩
      · obtain ⟨budget', result', own'', h'⟩ := answered which
        rw [List.count_cons_of_ne (Ne.symm h)] at h'
        simp only [Function.update_of_ne h]
        exact ⟨budget', result', own'', h'⟩
    refine ⟨((first, answer) :: log, pipelines₂), shared₂, ?_⟩
    filter_upwards [hshared, hlater] with budget h₁ h₂
    simp only [performAll, pullOne, Run.bind_apply, h₁, h₂, Option.bind_some, Run.pure_apply]

end Schedules

/-- Which of the two is pulled. -/
inductive Side where
  | original
  | copy
  deriving DecidableEq

/-- An original and its copy, pulled in any order, are each answered as they
would be if the other one were never pulled. A schedule can be performed as
soon as each of them has its answers by itself. -/
theorem copies_do_not_interfere {store : Store} {live : List Pipeline}
    (reachable : Reachable store live) {pipeline : Pipeline} (at_hand : pipeline ∈ live)
    (schedule : List Side) :
    (∀ budget log pipelines store',
      performAll (pullOne budget) schedule (fun _ => pipeline) store =
          some ((log, pipelines), store') →
        ∀ side, ∃ pipeline' alone, ∀ᶠ budget in atTop,
          pulls (Pipeline.next budget) (schedule.count side) pipeline store =
            some ((answersOf side log, pipeline'), alone)) ∧
      ((∀ side, ∃ budget answers pipeline' alone,
          pulls (Pipeline.next budget) (schedule.count side) pipeline store =
            some ((answers, pipeline'), alone)) →
        ∃ log pipelines store', ∀ᶠ budget in atTop,
          performAll (pullOne budget) schedule (fun _ => pipeline) store =
            some ((log, pipelines), store')) := by
  obtain ⟨sound, fits⟩ := reachable.sound
  have apart : Apart store.memos.size (fun _ : Side => pipeline) store fun _ => store :=
    ⟨fun _ => ⟨⟨sound, sound⟩, .refl _ store⟩, fun _ => fits pipeline at_hand,
      fun _ => fits pipeline at_hand⟩
  constructor
  · intro budget log pipelines store' performed side
    exact apart.answers_own performed side
  · intro answered
    obtain ⟨⟨log, pipelines⟩, store', h⟩ := apart.performs fun side => by
      obtain ⟨budget, answers, pipeline', alone, hpulls⟩ := answered side
      exact ⟨budget, (answers, pipeline'), alone, hpulls⟩
    exact ⟨log, pipelines, store', h⟩

/-- Two traversals of one memo in a zip: the copy is given the same first row,
though the memo has been pulled by then. -/
theorem copies_do_not_interfere_shared_memo :
    let source : Pipeline := .source none (.ofAnswers #[some (.int 1), some (.int 2)] none)
    let traversal : Pipeline := .memoized ⟨0, 0, "traversal"⟩
    let zip : Pipeline := .zipAll ⟨[traversal, traversal], false⟩
    let store := (Store.addMemo {} (.make source)).2
    Reachable store [zip, traversal, source] ∧
      ∃ log pipelines store', performAll (pullOne 3) [.original, .original, .copy]
          (fun _ => zip) store = some ((log, pipelines), store') ∧
        answersOf Side.copy log = [some (.list [.int 1, .int 1])] ∧
        ∃ pipeline alone, ∀ᶠ budget in atTop, pulls (Pipeline.next budget) 1 zip store =
          some ((answersOf Side.copy log, pipeline), alone) := by
  intro source traversal zip store
  have reachable : Reachable store [zip, traversal, source] := by
    refine .make (.make (.memo (.make .empty ?_) List.mem_cons_self) ?_) ?_
    · constructor
      · exact fun part h => by cases h
      · exact fun t h => by simp [source] at h
    · refine ⟨(fun part h => by cases h), fun t h => ?_⟩
      obtain rfl := Pipeline.memoized.inj h
      exact ⟨rfl, Nat.one_pos⟩
    · refine ⟨fun part h => ?_, fun t h => by simp [zip] at h⟩
      obtain rfl : part = traversal := by simpa [Pipeline.parts, zip] using h
      exact List.mem_cons_self
  refine ⟨reachable, _, _, _, rfl, rfl, ?_⟩
  exact (copies_do_not_interfere reachable List.mem_cons_self
    [.original, .original, .copy]).1 3 _ _ _ rfl .copy

end Traversals
