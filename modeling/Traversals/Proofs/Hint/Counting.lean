import Mathlib.Data.ENat.Lattice
import Traversals.Integers
import Traversals.Proofs.Replay
import Traversals.SizeHint

/-!
# Counting what is still to come

The elements that a traversal delivers before its next end are counted from
below and from above. A lower bound promises pulls that are answered by
elements, an upper bound allows for no more of them, and both hold whatever
else happens to the store in between. So the bounds of a stage follow from
those of its inputs.
-/

namespace Traversals

open Stream' (Seq)

variable {ω τ υ α β : Type}

/-- The next `n` pulls are answered by elements. -/
def AtLeast (pull : Pull ω τ α) : ℕ → τ → Prop
  | 0, _ => True
  | n + 1, traversal => ∀ store, ∃ x traversal' store',
      pull traversal store = some ((some x, traversal'), store') ∧ AtLeast pull n traversal'

/-- No more than `n` pulls are answered by elements before an end is. -/
def AtMost (pull : Pull ω τ α) : ℕ → τ → Prop
  | 0, traversal => ∀ store x traversal' store',
      pull traversal store ≠ some ((some x, traversal'), store')
  | n + 1, traversal => ∀ store x traversal' store',
      pull traversal store = some ((some x, traversal'), store') → AtMost pull n traversal'

/-- The next `n` pulls from this very store are answered by elements. -/
def Delivers (pull : Pull ω τ α) (n : ℕ) (traversal : τ) (store : ω) : Prop :=
  ∃ answers traversal' store', pulls pull n traversal store = some ((answers, traversal'), store') ∧
    ∀ answer, answer ∈ answers → answer.isSome

section Bounds

variable {pull : Pull ω τ α} {n m : ℕ} {traversal : τ}

lemma AtMost.step (atMost : AtMost pull n traversal) {x : α} {traversal' : τ} {store store' : ω}
    (pulled : pull traversal store = some ((some x, traversal'), store')) :
    ∃ left, left + 1 = n ∧ AtMost pull left traversal' := by
  cases n with
  | zero => exact absurd pulled (atMost store x traversal' store')
  | succ n => exact ⟨n, rfl, atMost store x traversal' store' pulled⟩

lemma AtLeast.mono (atLeast : AtLeast pull n traversal) (h : m ≤ n) :
    AtLeast pull m traversal := by
  induction m generalizing n traversal with
  | zero => trivial
  | succ m ih =>
    obtain ⟨n, rfl⟩ : ∃ k, n = k + 1 := ⟨n - 1, by omega⟩
    intro store
    obtain ⟨x, traversal', store', hpull, atLeast'⟩ := atLeast store
    exact ⟨x, traversal', store', hpull, ih atLeast' (by omega)⟩

lemma AtMost.mono (atMost : AtMost pull n traversal) (h : n ≤ m) : AtMost pull m traversal := by
  induction m generalizing n traversal with
  | zero =>
    obtain rfl : n = 0 := by omega
    exact atMost
  | succ m ih =>
    intro store x traversal' store' hpull
    obtain ⟨left, rfl, atMost'⟩ := atMost.step hpull
    exact ih atMost' (by omega)

lemma AtLeast.delivers (atLeast : AtLeast pull n traversal) (store : ω) :
    Delivers pull n traversal store := by
  induction n generalizing traversal store with
  | zero => exact ⟨[], traversal, store, rfl, by simp⟩
  | succ n ih =>
    obtain ⟨x, traversal', store', hpull, atLeast'⟩ := atLeast store
    obtain ⟨answers, traversal'', store'', hpulls, hall⟩ := ih atLeast' store'
    refine ⟨some x :: answers, traversal'', store'', ?_, List.forall_mem_cons.mpr ⟨rfl, hall⟩⟩
    simp [pulls, Run.bind_apply, Run.map_apply, hpull, hpulls]

lemma Delivers.le (delivers : Delivers pull n traversal store) (atMost : AtMost pull m traversal) :
    n ≤ m := by
  induction n generalizing m traversal store with
  | zero => exact Nat.zero_le m
  | succ n ih =>
    obtain ⟨answers, final, last, hpulls, hall⟩ := delivers
    obtain ⟨⟨answer, traversal'⟩, store', hpull, hrest⟩ := Run.bind_eq_some_iff.mp hpulls
    obtain ⟨⟨answers', final'⟩, last', hpulls', hresult⟩ := Run.bind_eq_some_iff.mp hrest
    cases hresult
    obtain ⟨hsome, hall'⟩ := List.forall_mem_cons.mp hall
    obtain ⟨x, rfl⟩ := Option.isSome_iff_exists.mp hsome
    obtain ⟨left, rfl, atMost'⟩ := atMost.step hpull
    exact Nat.succ_le_succ (ih ⟨answers', _, _, hpulls', hall'⟩ atMost')

end Bounds

section Nth

variable {pull : Pull ω τ α} {n gap : ℕ} {traversal : τ}

/-- An element further on is there if there are enough of them. -/
lemma AtLeast.nth (atLeast : AtLeast pull (gap + 1 + n) traversal) (store : ω) :
    ∃ x traversal' store', nth pull gap traversal store = some ((some x, traversal'), store') ∧
      AtLeast pull n traversal' := by
  induction gap generalizing traversal store with
  | zero =>
    rw [Nat.zero_add, Nat.add_comm] at atLeast
    exact atLeast store
  | succ gap ih =>
    rw [show gap + 1 + 1 + n = gap + 1 + n + 1 by omega] at atLeast
    obtain ⟨x, traversal', store', hpull, atLeast'⟩ := atLeast store
    obtain ⟨y, traversal'', store'', hnth, atLeast''⟩ := ih atLeast' store'
    refine ⟨y, traversal'', store'', ?_, atLeast''⟩
    simp [Traversals.nth, Run.bind_apply, hpull, hnth]

/-- And if it is there, so many are used up. -/
lemma AtMost.nth (atMost : AtMost pull n traversal) {x : α} {traversal' : τ} {store store' : ω}
    (pulled : Traversals.nth pull gap traversal store = some ((some x, traversal'), store')) :
    ∃ left, left + (gap + 1) = n ∧ AtMost pull left traversal' := by
  induction gap generalizing n traversal store with
  | zero =>
    obtain ⟨left, rfl, atMost'⟩ := atMost.step pulled
    exact ⟨left, rfl, atMost'⟩
  | succ gap ih =>
    obtain ⟨⟨answer, traversal₁⟩, store₁, hpull, hrest⟩ := Run.bind_eq_some_iff.mp pulled
    cases answer with
    | none => cases hrest
    | some y =>
      obtain ⟨left₁, rfl, atMost₁⟩ := atMost.step hpull
      obtain ⟨left, rfl, atMost'⟩ := ih atMost₁ hrest
      exact ⟨left, by omega, atMost'⟩

end Nth

section Wrapped

variable {pull : Pull ω τ α} {outer : Pull ω υ β} (wrap : τ → υ) (answer : Option α → Option β)
  {n : ℕ} {traversal : τ}

/-- What only renames answers and states counts the same. -/
lemma AtLeast.wrapped
    (outer_eq : ∀ traversal, outer (wrap traversal) = do
      let (element, traversal) ← pull traversal
      return (answer element, wrap traversal))
    (some_eq : ∀ x, (answer (some x)).isSome) (atLeast : AtLeast pull n traversal) :
    AtLeast outer n (wrap traversal) := by
  induction n generalizing traversal with
  | zero => trivial
  | succ n ih =>
    intro store
    obtain ⟨x, traversal', store', hpull, atLeast'⟩ := atLeast store
    obtain ⟨y, hy⟩ := Option.isSome_iff_exists.mp (some_eq x)
    refine ⟨y, wrap traversal', store', ?_, ih atLeast'⟩
    rw [outer_eq, Run.bind_apply, hpull, ← hy]
    rfl

lemma AtMost.wrapped
    (outer_eq : ∀ traversal, outer (wrap traversal) = do
      let (element, traversal) ← pull traversal
      return (answer element, wrap traversal))
    (none_eq : answer none = none) (atMost : AtMost pull n traversal) :
    AtMost outer n (wrap traversal) := by
  have step : ∀ {traversal store y final last},
      outer (wrap traversal) store = some ((some y, final), last) →
        ∃ x traversal', pull traversal store = some ((some x, traversal'), last) ∧
          final = wrap traversal' := by
    intro traversal store y final last hpull
    rw [outer_eq] at hpull
    obtain ⟨⟨element, traversal'⟩, store', hpull, hresult⟩ := Run.bind_eq_some_iff.mp hpull
    obtain ⟨hpair, rfl⟩ := Prod.mk.inj (Option.some.inj hresult)
    obtain ⟨hanswer, rfl⟩ := Prod.mk.inj hpair
    cases element with
    | none =>
      rw [none_eq] at hanswer
      cases hanswer
    | some x => exact ⟨x, traversal', hpull, rfl⟩
  induction n generalizing traversal with
  | zero =>
    intro store y final last hpull
    obtain ⟨x, traversal', hpull', -⟩ := step hpull
    exact atMost store x traversal' last hpull'
  | succ n ih =>
    intro store y final last hpull
    obtain ⟨x, traversal', hpull', rfl⟩ := step hpull
    exact ih (atMost store x traversal' last hpull')

end Wrapped

section Stepped

variable {step : τ → Option α × τ} {pull : Pull ω τ α} {n : ℕ} {traversal : τ}

/-- The number of elements before the first end of a plain traversal. -/
noncomputable def stepCount (step : τ → Option α × τ) (traversal : τ) : ℕ∞ :=
  (History.ofStep step traversal ()).elements.length'

lemma stepCount_none {traversal' : τ} (h : step traversal = (none, traversal')) :
    stepCount step traversal = 0 := by
  rw [stepCount, History.elements_ofStep, h]
  exact Seq.length'_nil

lemma stepCount_some {x : α} {traversal' : τ} (h : step traversal = (some x, traversal')) :
    stepCount step traversal = stepCount step traversal' + 1 := by
  rw [stepCount, History.elements_ofStep, h]
  exact Seq.length'_cons x _

/-- A pull that only steps a plain traversal is bounded by its count. -/
lemma atLeast_of_stepCount
    (follows : ∀ traversal store, ∃ store', pull traversal store = some (step traversal, store'))
    (h : n ≤ stepCount step traversal) : AtLeast pull n traversal := by
  induction n generalizing traversal with
  | zero => trivial
  | succ n ih =>
    intro store
    obtain ⟨store', hpull⟩ := follows traversal store
    rcases hstep : step traversal with ⟨_ | x, traversal'⟩
    · rw [stepCount_none hstep] at h
      norm_cast at h
    · rw [stepCount_some hstep, Nat.cast_succ] at h
      refine ⟨x, traversal', store', hpull.trans (by rw [hstep]), ih ?_⟩
      exact (ENat.add_le_add_iff_right ENat.one_ne_top).mp h

lemma atMost_of_stepCount
    (follows : ∀ traversal store, ∃ store', pull traversal store = some (step traversal, store'))
    (h : stepCount step traversal ≤ n) : AtMost pull n traversal := by
  have stepped : ∀ {traversal store x final last},
      pull traversal store = some ((some x, final), last) → step traversal = (some x, final) := by
    intro traversal store x final last hpull
    obtain ⟨store', hpull'⟩ := follows traversal store
    exact (Prod.mk.inj (Option.some.inj (hpull'.symm.trans hpull))).1
  induction n generalizing traversal with
  | zero =>
    intro store x final last hpull
    rw [stepCount_some (stepped hpull)] at h
    exact absurd h (by simp)
  | succ n ih =>
    intro store x final last hpull
    rw [stepCount_some (stepped hpull), Nat.cast_succ] at h
    exact ih ((ENat.add_le_add_iff_right ENat.one_ne_top).mp h)

end Stepped

namespace Integers

/-- The counts that have not been given. -/
def left (counter : Integers) : ℕ :=
  match counter.next? with
  | none => 0
  | some n => countCeiling - n + 1

lemma next_none {counter : Integers} (h : counter.left = 0) : counter.next = (none, counter) := by
  obtain ⟨_ | n⟩ := counter
  · rfl
  · cases h

lemma next_some {counter : Integers} {k : ℕ} (h : counter.left = k + 1) :
    ∃ n counter', counter.next = (some n, counter') ∧ counter'.left = k := by
  obtain ⟨_ | n⟩ := counter
  · cases h
  · have hk : countCeiling - n = k := Nat.succ.inj h
    by_cases inside : n < countCeiling
    · refine ⟨n, ⟨some (n + 1)⟩, by simp [next, inside], ?_⟩
      simp only [left]
      omega
    · refine ⟨n, ⟨none⟩, by simp [next, inside], ?_⟩
      simp only [left]
      omega

lemma stepCount_eq (counter : Integers) : stepCount next counter = counter.left := by
  generalize h : counter.left = k
  induction k generalizing counter with
  | zero => exact stepCount_none (next_none h)
  | succ k ih =>
    obtain ⟨n, counter', hnext, hleft⟩ := next_some h
    rw [stepCount_some hnext, ih counter' hleft, Nat.cast_succ]

end Integers

end Traversals
