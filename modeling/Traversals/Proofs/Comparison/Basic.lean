import Mathlib.Order.Filter.AtTopBot.Basic
import Traversals.Run

/-!
# Comparing runs

One computation is run in two stores that it cannot tell apart. If the first
run has a result, the second one has the same result, perhaps only with a
greater budget. So the second run is a family of runs, one for each budget, and
what is said of it holds of all budgets that are large enough.

Both runs leave their stores comparable, and neither takes back what was known
of its own store.
-/

namespace Traversals

open Filter

variable {ω ι β γ : Type}

/-- Which stores are compared. -/
structure Comparison (ω : Type) where
  /-- The stores of the two runs at the same moment. -/
  Same : ω → ω → Prop
  /-- A store and a later one of the same run. -/
  Later : ω → ω → Prop
  later_refl : ∀ store, Later store store
  later_trans : ∀ {first second third}, Later first second → Later second third →
    Later first third

namespace Comparison

variable (comparison : Comparison ω) (budgets : Filter ι)

/-- Runs with the same result, if what is asked of both stores before holds. -/
def Agrees (before : ω → Prop) (run : Run ω β) (runs : ι → Run ω β)
    (after : β → ω → Prop) : Prop :=
  ∀ store other, comparison.Same store other → before store → before other →
    ∀ result store', run store = some (result, store') →
      ∃ other', (∀ᶠ budget in budgets, runs budget other = some (result, other')) ∧
        comparison.Same store' other' ∧
        (comparison.Later store store' ∧ after result store') ∧
        comparison.Later other other' ∧ after result other'

/-- What stays true in all later stores. -/
def Lasting (known : ω → Prop) : Prop :=
  ∀ store store', comparison.Later store store' → known store → known store'

variable {comparison budgets}

lemma Lasting.and {known known' : ω → Prop} (lasting : comparison.Lasting known)
    (lasting' : comparison.Lasting known') :
    comparison.Lasting fun store => known store ∧ known' store :=
  fun store store' later holds =>
    ⟨lasting store store' later holds.1, lasting' store store' later holds.2⟩

lemma Lasting.forall {κ : Type} {among : κ → Prop} {known : κ → ω → Prop}
    (lasting : ∀ k, comparison.Lasting (known k)) :
    comparison.Lasting fun store => ∀ k, among k → known k store :=
  fun store store' later holds k hk => lasting k store store' later (holds k hk)

namespace Agrees

variable {before before' : ω → Prop} {run : Run ω β} {runs runs' : ι → Run ω β}
  {after after' : β → ω → Prop}

lemma pure {result : β} (h : ∀ store, before store → after result store) :
    comparison.Agrees budgets before (pure result) (fun _ => pure result) after := by
  intro store other same known known' result' store' hrun
  obtain ⟨rfl, rfl⟩ := Prod.mk.inj (Option.some.inj hrun)
  exact ⟨other, Eventually.of_forall fun _ => rfl, same,
    ⟨comparison.later_refl _, h _ known⟩, comparison.later_refl _, h _ known'⟩

/-- A run without a result is like any other. -/
lemma outOfBudget : comparison.Agrees budgets before Run.outOfBudget runs after := by
  intro store other same known known' result store' hrun
  cases hrun

lemma bind {middle : β → ω → Prop} {after : γ → ω → Prop} {next : β → Run ω γ}
    {nexts : β → ι → Run ω γ} (first : comparison.Agrees budgets before run runs middle)
    (rest : ∀ result, comparison.Agrees budgets (middle result) (next result) (nexts result)
      after) :
    comparison.Agrees budgets before (run >>= next)
      (fun budget => runs budget >>= fun result => nexts result budget) after := by
  intro store other same known known' result store' hrun
  rw [Run.bind_apply] at hrun
  obtain ⟨⟨between, store₁⟩, hfirst, hrest⟩ := Option.bind_eq_some_iff.mp hrun
  obtain ⟨other₁, hfirst', same₁, ⟨later₁, known₁⟩, later₁', known₁'⟩ :=
    first store other same known known' between store₁ hfirst
  obtain ⟨other₂, hrest', same₂, ⟨later₂, known₂⟩, later₂', known₂'⟩ :=
    rest between store₁ other₁ same₁ known₁ known₁' result store' hrest
  refine ⟨other₂, ?_, same₂, ⟨comparison.later_trans later₁ later₂, known₂⟩,
    comparison.later_trans later₁' later₂', known₂'⟩
  filter_upwards [hfirst', hrest'] with budget h₁ h₂
  simp [Run.bind_apply, h₁, h₂]

lemma mono (agrees : comparison.Agrees budgets before run runs after)
    (hbefore : ∀ store, before' store → before store)
    (hafter : ∀ result store, after result store → after' result store) :
    comparison.Agrees budgets before' run runs after' := by
  intro store other same known known' result store' hrun
  obtain ⟨other', hruns, same', ⟨later, hknown⟩, later', hknown'⟩ :=
    agrees store other same (hbefore _ known) (hbefore _ known') result store' hrun
  exact ⟨other', hruns, same', ⟨later, hafter _ _ hknown⟩, later', hafter _ _ hknown'⟩

/-- Only the large budgets matter. -/
lemma eventually (runs : ι → Run ω β) (agrees : comparison.Agrees budgets before run runs after)
    (h : ∀ᶠ budget in budgets, runs' budget = runs budget) :
    comparison.Agrees budgets before run runs' after := by
  intro store other same known known' result store' hrun
  obtain ⟨other', hruns, rest⟩ := agrees store other same known known' result store' hrun
  refine ⟨other', ?_, rest⟩
  filter_upwards [hruns, h] with budget hrun' heq
  rw [heq, hrun']

/-- Budgets may be taken from other ones that grow with them. -/
lemma along {κ : Type} {outer : Filter κ} {of : κ → ι}
    (agrees : comparison.Agrees budgets before run runs after) (grows : Tendsto of outer budgets) :
    comparison.Agrees outer before run (fun budget => runs (of budget)) after := by
  intro store other same known known' result store' hrun
  obtain ⟨other', hruns, rest⟩ := agrees store other same known known' result store' hrun
  exact ⟨other', grows.eventually hruns, rest⟩

/-- What stays true anyway is still known afterwards. -/
lemma keeping (agrees : comparison.Agrees budgets before run runs after) {known : ω → Prop}
    (lasting : comparison.Lasting known) :
    comparison.Agrees budgets (fun store => before store ∧ known store) run runs
      (fun result store => after result store ∧ known store) := by
  rintro store other same ⟨hbefore, hknown⟩ ⟨hbefore', hknown'⟩ result store' hrun
  obtain ⟨other', hruns, same', ⟨later, hafter⟩, later', hafter'⟩ :=
    agrees store other same hbefore hbefore' result store' hrun
  exact ⟨other', hruns, same', ⟨later, hafter, lasting _ _ later hknown⟩, later', hafter',
    lasting _ _ later' hknown'⟩

end Agrees

variable (comparison budgets)

/-- A run that asks nothing and only ever goes on. -/
def Neutral (run : Run ω β) : Prop :=
  comparison.Agrees budgets (fun _ => True) run (fun _ => run) fun _ _ => True

/-- Pulls of traversals that fit their stores, and still do afterwards. -/
def Alike {τ α : Type} (Fits : τ → ω → Prop) (pull : Pull ω τ α) (pulls : ι → Pull ω τ α) :
    Prop :=
  ∀ traversal, comparison.Agrees budgets (Fits traversal) (pull traversal)
    (fun budget => pulls budget traversal) fun result store => Fits result.2 store

variable {comparison budgets}

lemma Alike.along {τ α κ : Type} {Fits : τ → ω → Prop} {pull : Pull ω τ α}
    {pulls : ι → Pull ω τ α} {outer : Filter κ} {of : κ → ι}
    (alike : comparison.Alike budgets Fits pull pulls) (grows : Tendsto of outer budgets) :
    comparison.Alike outer Fits pull fun budget => pulls (of budget) :=
  fun traversal => (alike traversal).along grows

/-- Any number of pulls in a row are alike if single ones are. -/
lemma Alike.pulls {τ α : Type} {Fits : τ → ω → Prop} {pull : Pull ω τ α}
    {pulled : ι → Pull ω τ α} (alike : comparison.Alike budgets Fits pull pulled) (count : ℕ)
    (traversal : τ) :
    comparison.Agrees budgets (Fits traversal) (pulls pull count traversal)
      (fun budget => Traversals.pulls (pulled budget) count traversal)
      fun result => Fits result.2 := by
  induction count generalizing traversal with
  | zero => exact .pure fun _ fits => fits
  | succ count ih =>
    refine (alike traversal).bind fun result => ?_
    exact (ih result.2).bind fun rest => .pure fun _ fits => fits

lemma Neutral.keeping {run : Run ω β} (neutral : comparison.Neutral budgets run)
    {known : ω → Prop} (lasting : comparison.Lasting known) :
    comparison.Agrees budgets known run (fun _ => run) fun _ => known :=
  (Agrees.keeping neutral lasting).mono (fun _ h => ⟨trivial, h⟩) fun _ _ h => h.2

/-- Every store with itself. -/
def plain (ω : Type) : Comparison ω where
  Same store other := store = other
  Later _ _ := True
  later_refl _ := trivial
  later_trans _ _ := trivial

section Plain

variable {τ α : Type} {Kept : τ → Prop} {pull : Pull ω τ α}

/-- What a pull keeps may be taken for what fits. -/
lemma alike_of_keeps
    (keeps : ∀ {traversal store result store'}, Kept traversal →
      pull traversal store = some (result, store') → Kept result.2) :
    (plain ω).Alike budgets (fun traversal _ => Kept traversal) pull fun _ => pull := by
  rintro traversal store _ rfl kept - result store' hpull
  have kept' := keeps kept hpull
  exact ⟨store', Eventually.of_forall fun _ => hpull, rfl, ⟨trivial, kept'⟩, trivial, kept'⟩

lemma Alike.keeps {pulls : ι → Pull ω τ α}
    (alike : (plain ω).Alike budgets (fun traversal _ => Kept traversal) pull pulls)
    {traversal : τ} {result : Option α × τ} {store store' : ω} (kept : Kept traversal)
    (hpull : pull traversal store = some (result, store')) : Kept result.2 := by
  obtain ⟨_, -, -, ⟨-, kept'⟩, -⟩ := alike traversal store store rfl kept kept result store' hpull
  exact kept'

lemma neutral_plain {run : Run ω β} : (plain ω).Neutral budgets run := by
  rintro store _ rfl - - result store' hrun
  exact ⟨store', Eventually.of_forall fun _ => hrun, rfl, ⟨trivial, trivial⟩, trivial, trivial⟩

end Plain

end Comparison

/-- Budgets that grow without end stay large when one is taken off. -/
lemma tendsto_pred {budgets : Filter ι} {loops : ι → ℕ} (large : Tendsto loops budgets atTop) :
    Tendsto (fun budget => loops budget - 1) budgets atTop :=
  (tendsto_sub_atTop_nat 1).comp large

lemma eventually_succ {budgets : Filter ι} {loops : ι → ℕ} (large : Tendsto loops budgets atTop) :
    ∀ᶠ budget in budgets, loops budget = loops budget - 1 + 1 := by
  filter_upwards [large.eventually_ge_atTop 1] with budget h
  omega

end Traversals
