import Traversals.Proofs.Comparison.Basic
import Traversals.Stage.Batches
import Traversals.Stage.Chained
import Traversals.Stage.Comprehension
import Traversals.Stage.Cycle
import Traversals.Stage.Elementwise
import Traversals.Stage.SubSequence
import Traversals.Stage.While
import Traversals.Zip.All
import Traversals.Zip.Enumerate

/-!
# Stages of comparable runs

A stage pulls its inputs and calls its functions, and looks at nothing else. So
its pulls are alike if those of its inputs are, and its inputs go on to fit.
Each loop is an induction on the budget of the first run; the budget of the
second only has to be large enough.
-/

namespace Traversals

open Filter

variable {ω ι τ υ σ φ π ε α β : Type} {comparison : Comparison ω} {budgets : Filter ι}
  {Fits : τ → ω → Prop} {pull : Pull ω τ α} {pulled : ι → Pull ω τ α} {loops : ι → ℕ}

namespace Comparison

section Elementwise

theorem Alike.mapped (alike : comparison.Alike budgets Fits pull pulled)
    (lasting : ∀ traversal, comparison.Lasting (Fits traversal))
    {apply : φ → α → Run ω (β × φ)} (neutral : ∀ f x, comparison.Neutral budgets (apply f x)) :
    comparison.Alike budgets (fun stage => Fits stage.input) (Mapped.next pull apply)
      fun budget => Mapped.next (pulled budget) apply := by
  intro stage
  refine (alike stage.input).bind ?_
  rintro ⟨_ | x, input⟩
  · exact .pure fun _ fits => fits
  · refine ((neutral stage.function x).keeping (lasting input)).bind ?_
    rintro ⟨image, function⟩
    exact .pure fun _ fits => fits

theorem Alike.tapped (alike : comparison.Alike budgets Fits pull pulled)
    (lasting : ∀ traversal, comparison.Lasting (Fits traversal))
    {visit : ε → α → Run ω ε} (neutral : ∀ e x, comparison.Neutral budgets (visit e x)) :
    comparison.Alike budgets (fun stage => Fits stage.input) (Tapped.next pull visit)
      fun budget => Tapped.next (pulled budget) visit := by
  intro stage
  refine (alike stage.input).bind ?_
  rintro ⟨_ | x, input⟩
  · exact .pure fun _ fits => fits
  · refine ((neutral stage.effect x).keeping (lasting input)).bind ?_
    intro effect
    exact .pure fun _ fits => fits

theorem Alike.filtered (alike : comparison.Alike budgets Fits pull pulled)
    (lasting : ∀ traversal, comparison.Lasting (Fits traversal))
    {test : π → α → Run ω (Bool × π)} (neutral : ∀ p x, comparison.Neutral budgets (test p x))
    (large : Tendsto loops budgets atTop) (limit : ℕ) :
    comparison.Alike budgets (fun stage => Fits stage.input) (Filtered.next pull test limit)
      fun budget => Filtered.next (pulled budget) test (loops budget) := by
  induction limit generalizing loops with
  | zero => exact fun stage => .outOfBudget
  | succ limit ih =>
    intro stage
    refine Agrees.eventually (fun budget => Filtered.next (pulled budget) test
      (loops budget - 1 + 1) stage) ?_ ?_
    · refine (alike stage.input).bind ?_
      rintro ⟨_ | x, input⟩
      · exact .pure fun _ fits => fits
      · refine ((neutral stage.predicate x).keeping (lasting input)).bind ?_
        rintro ⟨_ | _, predicate⟩
        · exact ih (tendsto_pred large) ⟨input, predicate⟩
        · exact .pure fun _ fits => fits
    · filter_upwards [eventually_succ large] with budget h
      rw [← h]

end Elementwise

section Comprehension

lemma Neutral.passes {ask : π → α → Run ω Bool}
    (neutral : ∀ p x, comparison.Neutral budgets (ask p x)) (predicates : List π) (x : α) :
    comparison.Neutral budgets (Comprehension.passes ask predicates x) := by
  induction predicates with
  | nil => exact .pure fun _ _ => trivial
  | cons predicate rest ih =>
    refine Agrees.bind (neutral predicate x) ?_
    rintro (_ | _)
    · exact .pure fun _ _ => trivial
    · exact ih

theorem Alike.comprehension (alike : comparison.Alike budgets Fits pull pulled)
    (lasting : ∀ traversal, comparison.Lasting (Fits traversal))
    {ask : π → α → Run ω Bool} (neutral : ∀ p x, comparison.Neutral budgets (ask p x))
    {apply : φ → α → Run ω (β × φ)} (neutral' : ∀ f x, comparison.Neutral budgets (apply f x))
    (large : Tendsto loops budgets atTop) (limit : ℕ) :
    comparison.Alike budgets (fun stage => Fits stage.input)
      (Comprehension.next pull ask apply limit)
      fun budget => Comprehension.next (pulled budget) ask apply (loops budget) := by
  induction limit generalizing loops with
  | zero => exact fun stage => .outOfBudget
  | succ limit ih =>
    intro stage
    refine Agrees.eventually (fun budget => Comprehension.next (pulled budget) ask apply
      (loops budget - 1 + 1) stage) ?_ ?_
    · refine (alike stage.input).bind ?_
      rintro ⟨_ | x, input⟩
      · exact .pure fun _ fits => fits
      · refine ((Neutral.passes neutral stage.predicates x).keeping (lasting input)).bind ?_
        rintro (_ | _)
        · exact ih (tendsto_pred large) { stage with input }
        · refine ((neutral' stage.mapper x).keeping (lasting input)).bind ?_
          rintro ⟨image, mapper⟩
          exact .pure fun _ fits => fits
    · filter_upwards [eventually_succ large] with budget h
      rw [← h]

end Comprehension

section Position

lemma Alike.nth (alike : comparison.Alike budgets Fits pull pulled) (n : ℕ) :
    comparison.Alike budgets Fits (nth pull n) fun budget => nth (pulled budget) n := by
  induction n with
  | zero => exact alike
  | succ n ih =>
    intro traversal
    refine (alike traversal).bind ?_
    rintro ⟨_ | x, traversal'⟩
    · exact .pure fun _ fits => fits
    · exact ih traversal'

theorem Alike.subSequence (alike : comparison.Alike budgets Fits pull pulled) :
    comparison.Alike budgets (fun stage => Fits stage.input) (SubSequence.next pull)
      fun budget => SubSequence.next (pulled budget) := by
  intro stage
  by_cases h : stage.remaining = some 0
  · simp only [SubSequence.next, h, if_true]
    exact .pure fun _ fits => fits
  · simp only [SubSequence.next, h, if_false]
    refine (alike.nth stage.gap stage.input).bind ?_
    rintro ⟨_ | x, input⟩
    · exact .pure fun _ fits => fits
    · exact .pure fun _ fits => fits

end Position

section While

theorem Alike.takeWhile (alike : comparison.Alike budgets Fits pull pulled)
    (lasting : ∀ traversal, comparison.Lasting (Fits traversal))
    {test : π → α → Run ω (Bool × π)} (neutral : ∀ p x, comparison.Neutral budgets (test p x)) :
    comparison.Alike budgets (fun stage => Fits stage.input) (TakeWhile.next pull test)
      fun budget => TakeWhile.next (pulled budget) test := by
  intro stage
  by_cases h : stage.finished
  · simp only [TakeWhile.next, h, if_true]
    exact .pure fun _ fits => fits
  · simp only [TakeWhile.next, h]
    refine (alike stage.input).bind ?_
    rintro ⟨_ | x, input⟩
    · exact .pure fun _ fits => fits
    · refine ((neutral stage.predicate x).keeping (lasting input)).bind ?_
      rintro ⟨_ | _, predicate⟩
      · exact .pure fun _ fits => fits
      · exact .pure fun _ fits => fits

theorem Alike.dropWhile (alike : comparison.Alike budgets Fits pull pulled)
    (lasting : ∀ traversal, comparison.Lasting (Fits traversal))
    {test : π → α → Run ω (Bool × π)} (neutral : ∀ p x, comparison.Neutral budgets (test p x))
    (large : Tendsto loops budgets atTop) (limit : ℕ) :
    comparison.Alike budgets (fun stage => Fits stage.input) (DropWhile.next pull test limit)
      fun budget => DropWhile.next (pulled budget) test (loops budget) := by
  induction limit generalizing loops with
  | zero => exact fun stage => .outOfBudget
  | succ limit ih =>
    rintro ⟨input, predicate, started⟩
    refine Agrees.eventually (fun budget => DropWhile.next (pulled budget) test
      (loops budget - 1 + 1) ⟨input, predicate, started⟩) ?_ ?_
    · refine (alike input).bind ?_
      rintro ⟨_ | x, input'⟩
      · exact .pure fun _ fits => fits
      · cases started with
        | true => exact .pure fun _ fits => fits
        | false =>
          refine ((neutral predicate x).keeping (lasting input')).bind ?_
          rintro ⟨_ | _, predicate'⟩
          · exact .pure fun _ fits => fits
          · exact ih (tendsto_pred large) ⟨input', predicate', false⟩
    · filter_upwards [eventually_succ large] with budget h
      rw [← h]

end While

section Fused

variable (promise : Promise)

/-- What a fused traversal still holds fits. -/
abbrev FusedFits (Fits : τ → ω → Prop) (fused : Fused τ) (store : ω) : Prop :=
  ∀ traversal, fused.input = some traversal → Fits traversal store

lemma Lasting.fused (lasting : ∀ traversal, comparison.Lasting (Fits traversal))
    (fused : Fused τ) : comparison.Lasting (FusedFits Fits fused) :=
  Lasting.forall lasting

lemma Alike.fused (alike : comparison.Alike budgets Fits pull pulled) :
    comparison.Alike budgets (FusedFits Fits) (Fused.next promise pull)
      fun budget => Fused.next promise (pulled budget) := by
  rintro ⟨_ | traversal⟩
  · exact .pure fun _ fits => fits
  · refine ((alike traversal).mono (fun _ fits => fits traversal rfl) fun _ _ h => h).bind ?_
    rintro ⟨_ | x, traversal'⟩
    · refine .pure fun _ fits t h => ?_
      cases promise with
      | nothing => cases h
      | staysEnded =>
        obtain rfl := Option.some.inj h
        exact fits
    · refine .pure fun _ fits t h => ?_
      obtain rfl := Option.some.inj h
      exact fits

theorem Alike.concat (alike : comparison.Alike budgets Fits pull pulled)
    (lasting : ∀ traversal, comparison.Lasting (Fits traversal))
    {Fits' : υ → ω → Prop} {pull' : Pull ω υ α} {pulled' : ι → Pull ω υ α}
    (alike' : comparison.Alike budgets Fits' pull' pulled')
    (lasting' : ∀ traversal, comparison.Lasting (Fits' traversal)) :
    comparison.Alike budgets
      (fun stage store => FusedFits Fits stage.first store ∧ Fits' stage.second store)
      (Concat.next pull pull') fun budget => Concat.next (pulled budget) (pulled' budget) := by
  intro stage
  refine ((alike.fused .nothing stage.first).keeping (lasting' stage.second)).bind ?_
  rintro ⟨_ | x, first⟩
  · refine (((alike' stage.second).keeping (Lasting.fused lasting first)).mono
      (fun _ h => ⟨h.2, h.1⟩) fun _ _ h => h).bind ?_
    rintro ⟨element, second⟩
    exact .pure fun _ h => ⟨h.2, h.1⟩
  · exact .pure fun _ h => h

theorem Alike.flattened {pull : Pull ω τ β} {pulled : ι → Pull ω τ β}
    (alike : comparison.Alike budgets Fits pull pulled) (elements : β → List α)
    (large : Tendsto loops budgets atTop) (limit : ℕ) :
    comparison.Alike budgets (fun stage => FusedFits Fits stage.outer)
      (Flattened.next promise pull elements limit)
      fun budget => Flattened.next promise (pulled budget) elements (loops budget) := by
  induction limit generalizing loops with
  | zero => exact fun stage => .outOfBudget
  | succ limit ih =>
    rintro ⟨outer, current⟩
    refine Agrees.eventually (fun budget => Flattened.next promise (pulled budget) elements
      (loops budget - 1 + 1) ⟨outer, current⟩) ?_ ?_
    · cases current with
      | cons x current => exact .pure fun _ fits => fits
      | nil =>
        refine (alike.fused promise outer).bind ?_
        rintro ⟨_ | inner, outer'⟩
        · exact .pure fun _ fits => fits
        · exact ih (tendsto_pred large) ⟨outer', elements inner⟩
    · filter_upwards [eventually_succ large] with budget h
      rw [← h]

lemma Alike.batches (alike : comparison.Alike budgets Fits pull pulled) :
    comparison.Alike budgets (fun batches => FusedFits Fits batches.cursor)
      (Batches.next promise pull) fun budget => Batches.next promise (pulled budget) := by
  intro batches
  refine (alike.fused promise batches.cursor).bind ?_
  rintro ⟨_ | x, cursor⟩
  · exact .pure fun _ fits => fits
  · exact .pure fun _ fits => fits

lemma Alike.batch (alike : comparison.Alike budgets Fits pull pulled) :
    comparison.Alike budgets (fun traversal => FusedFits Fits traversal.2.cursor)
      (Batch.next promise pull) fun budget => Batch.next promise (pulled budget) := by
  rintro ⟨⟨_ | x, remaining⟩, batches⟩
  · by_cases h : remaining = 0
    · simp only [Batch.next, h, if_true]
      exact .pure fun _ fits => fits
    · simp only [Batch.next, h, if_false]
      refine (alike.fused promise batches.cursor).bind ?_
      rintro ⟨element, cursor⟩
      exact .pure fun _ fits => fits
  · exact .pure fun _ fits => fits

lemma Alike.drain (alike : comparison.Alike budgets Fits pull pulled)
    (large : Tendsto loops budgets atTop) (limit : ℕ) (elements : Array α)
    (traversal : Batch α × Batches τ) :
    comparison.Agrees budgets (FusedFits Fits traversal.2.cursor)
      (Batch.drain promise pull limit elements traversal)
      (fun budget => Batch.drain promise (pulled budget) (loops budget) elements traversal)
      fun result => FusedFits Fits result.2.cursor := by
  induction limit generalizing loops elements traversal with
  | zero => exact .outOfBudget
  | succ limit ih =>
    refine Agrees.eventually (fun budget => Batch.drain promise (pulled budget)
      (loops budget - 1 + 1) elements traversal) ?_ ?_
    · refine (alike.batch promise traversal).bind ?_
      rintro ⟨_ | x, traversal'⟩
      · exact .pure fun _ fits => fits
      · exact ih (tendsto_pred large) (elements.push x) traversal'
    · filter_upwards [eventually_succ large] with budget h
      rw [← h]

theorem Alike.nextDrained (alike : comparison.Alike budgets Fits pull pulled)
    (large : Tendsto loops budgets atTop) (limit : ℕ) :
    comparison.Alike budgets (fun batches => FusedFits Fits batches.cursor)
      (Batches.nextDrained promise pull limit)
      fun budget => Batches.nextDrained promise (pulled budget) (loops budget) := by
  intro batches
  refine (alike.batches promise batches).bind ?_
  rintro ⟨_ | batch, batches'⟩
  · exact .pure fun _ fits => fits
  · refine (alike.drain promise large limit #[] (batch, batches')).bind ?_
    rintro ⟨elements, batches''⟩
    exact .pure fun _ fits => fits

end Fused

section Cycle

variable {start : Start ω σ τ} {SourceFits : σ → ω → Prop}

/-- Traversals of sources that fit, fit. -/
def Starts (comparison : Comparison ω) (budgets : Filter ι) (SourceFits : σ → ω → Prop)
    (Fits : τ → ω → Prop) (start : Start ω σ τ) : Prop :=
  ∀ source, comparison.Agrees budgets (SourceFits source) (start source)
    (fun _ => start source) Fits

abbrev CycleFits (SourceFits : σ → ω → Prop) (Fits : τ → ω → Prop) (cycle : Cycle σ τ)
    (store : ω) : Prop :=
  SourceFits cycle.source store ∧
    ∀ traversal, cycle.current = some traversal → Fits traversal store

lemma Alike.newPass (alike : comparison.Alike budgets Fits pull pulled)
    (starts : Starts comparison budgets SourceFits Fits start)
    (lasting : ∀ source, comparison.Lasting (SourceFits source)) (cycle : Cycle σ τ) :
    comparison.Agrees budgets (SourceFits cycle.source) (Cycle.newPass start pull cycle)
      (fun budget => Cycle.newPass start (pulled budget) cycle)
      fun result => CycleFits SourceFits Fits result.2 := by
  by_cases h : cycle.passesLeft = some 0
  · simp only [Cycle.newPass, h, if_true]
    exact .pure fun _ fits => ⟨fits, fun _ hnone => by cases hnone⟩
  · simp only [Cycle.newPass, h, if_false]
    refine (((starts cycle.source).keeping (lasting cycle.source)).mono
      (fun _ fits => ⟨fits, fits⟩) fun _ _ h => h).bind fun traversal => ?_
    refine ((alike traversal).keeping (lasting cycle.source)).bind ?_
    rintro ⟨element, traversal'⟩
    refine .pure fun _ fits => ⟨fits.2, fun t ht => ?_⟩
    obtain rfl := Option.some.inj ht
    exact fits.1

theorem Alike.cycle (alike : comparison.Alike budgets Fits pull pulled)
    (starts : Starts comparison budgets SourceFits Fits start)
    (lasting : ∀ source, comparison.Lasting (SourceFits source)) :
    comparison.Alike budgets (CycleFits SourceFits Fits) (Cycle.next start pull)
      fun budget => Cycle.next start (pulled budget) := by
  rintro ⟨source, _ | traversal, passesLeft, yieldedThisPass⟩
  · exact (alike.newPass starts lasting ⟨source, none, passesLeft, yieldedThisPass⟩).mono
      (fun _ fits => fits.1) fun _ _ h => h
  · have current : ∀ traversal' store, Fits traversal' store ∧ SourceFits source store →
        ∀ left yielded, CycleFits SourceFits Fits ⟨source, some traversal', left, yielded⟩
          store := by
      rintro traversal' store ⟨fits, source_fits⟩ left yielded
      refine ⟨source_fits, fun t ht => ?_⟩
      obtain rfl := Option.some.inj ht
      exact fits
    refine (((alike traversal).keeping (lasting source)).mono
      (fun _ fits => ⟨fits.2 traversal rfl, fits.1⟩) fun _ _ h => h).bind ?_
    rintro ⟨_ | x, traversal'⟩
    · cases yieldedThisPass with
      | true =>
        exact (alike.newPass starts lasting ⟨source, some traversal, passesLeft, true⟩).mono
          (fun _ fits => fits.2) fun _ _ h => h
      | false => exact .pure fun store fits => current traversal' store fits _ _
    · exact .pure fun store fits => current traversal' store fits _ _

end Cycle

section Zip

/-- All of some traversals fit. -/
abbrev AllFit (Fits : τ → ω → Prop) (traversals : List τ) (store : ω) : Prop :=
  ∀ traversal, traversal ∈ traversals → Fits traversal store

lemma Alike.pullRow (alike : comparison.Alike budgets Fits pull pulled)
    (lasting : ∀ traversal, comparison.Lasting (Fits traversal)) :
    comparison.Alike budgets (AllFit Fits) (ZipAll.pullRow pull)
      fun budget => ZipAll.pullRow (pulled budget) := by
  intro traversals
  induction traversals with
  | nil => exact .pure fun _ fits => fits
  | cons traversal rest ih =>
    have hrest : comparison.Lasting (AllFit Fits rest) := Lasting.forall lasting
    refine (((alike traversal).keeping hrest).mono
      (fun _ fits => List.forall_mem_cons.mp fits) fun _ _ h => h).bind ?_
    rintro ⟨_ | x, traversal'⟩
    · exact .pure fun _ fits => List.forall_mem_cons.mpr fits
    · refine ((ih.keeping (lasting traversal')).mono (fun _ fits => fits.symm)
        fun _ _ h => h).bind ?_
      rintro ⟨row, rest'⟩
      exact .pure fun _ fits => List.forall_mem_cons.mpr fits.symm

theorem Alike.zipAll (alike : comparison.Alike budgets Fits pull pulled)
    (lasting : ∀ traversal, comparison.Lasting (Fits traversal)) :
    comparison.Alike budgets (fun zip => AllFit Fits zip.traversals) (ZipAll.next pull)
      fun budget => ZipAll.next (pulled budget) := by
  rintro ⟨traversals, _ | _⟩
  · refine (alike.pullRow lasting traversals).bind ?_
    rintro ⟨row, traversals'⟩
    exact .pure fun _ fits => fits
  · exact .pure fun _ fits => fits

theorem Alike.enumerate (alike : comparison.Alike budgets Fits pull pulled) :
    comparison.Alike budgets (fun stage => Fits stage.input) (Enumerate.next pull)
      fun budget => Enumerate.next (pulled budget) := by
  rintro ⟨counter, input, _ | _⟩
  · rcases h : counter.next with ⟨_ | index, counter'⟩
    · simp only [Enumerate.next, h]
      exact .pure fun _ fits => fits
    · simp only [Enumerate.next, h]
      refine (alike input).bind ?_
      rintro ⟨_ | value, input'⟩
      · exact .pure fun _ fits => fits
      · exact .pure fun _ fits => fits
  · exact .pure fun _ fits => fits

end Zip

end Comparison

end Traversals
