import Mathlib.Data.Multiset.AddSub
import Traversals.Proofs.Upstream

/-!
# Sources that can be traversed again

A source is known by the elements of its traversals. A ledger lists the
traversals in use with the elements that each is still to deliver. They may be
asked in any order, share a store and be dropped at any time. A traversal that
has answered its first end leaves the ledger, and nothing is known of it any
more.
-/

namespace Traversals

open Stream' (Seq)

variable {ω σ τ α : Type}

/-- What is started from some sources delivers the elements of its source, up
to its first end and whatever else is asked meanwhile. -/
structure Replay (start : Start ω σ τ) (pull : Pull ω τ α) (sources : List σ)
    (elements : σ → Seq α) where
  Holds : ω → Multiset (τ × Seq α) → Prop
  starts : ∀ {source store ledger}, source ∈ sources → Holds store ledger →
    ∃ traversal store', start source store = some (traversal, store') ∧
      Holds store' ((traversal, elements source) ::ₘ ledger)
  delivers : ∀ {traversal x rest store ledger},
    Holds store ((traversal, Seq.cons x rest) ::ₘ ledger) →
    ∃ traversal' store', pull traversal store = some ((some x, traversal'), store') ∧
      Holds store' ((traversal', rest) ::ₘ ledger)
  ends : ∀ {traversal store ledger}, Holds store ((traversal, Seq.nil) ::ₘ ledger) →
    ∃ traversal' store', pull traversal store = some ((none, traversal'), store') ∧
      Holds store' ledger

namespace Replay

variable {start : Start ω σ τ} {pull : Pull ω τ α} {sources : List σ}
  {elements : σ → Seq α}

/-- A traversal that has `n` elements behind it delivers the one after them. -/
lemma pull_some (replay : Replay start pull sources elements) {traversal : τ} {X : Seq α}
    {n : Nat} {x : α} {store : ω} {ledger : Multiset (τ × Seq α)}
    (holds : replay.Holds store ((traversal, X.drop n) ::ₘ ledger)) (hx : X.get? n = some x) :
    ∃ traversal' store', pull traversal store = some ((some x, traversal'), store') ∧
      replay.Holds store' ((traversal', X.drop (n + 1)) ::ₘ ledger) := by
  have hdrop : X.drop n = Seq.cons x (X.drop (n + 1)) := by
    refine Seq.ext fun m => ?_
    cases m with
    | zero => simpa [Seq.drop_get?] using hx
    | succ m => simp [Seq.drop_get?, Nat.add_right_comm, Nat.add_assoc]
  rw [hdrop] at holds
  exact replay.delivers holds

lemma pull_none (replay : Replay start pull sources elements) {traversal : τ} {X : Seq α}
    {n : Nat} {store : ω} {ledger : Multiset (τ × Seq α)}
    (holds : replay.Holds store ((traversal, X.drop n) ::ₘ ledger)) (hx : X.get? n = none) :
    ∃ traversal' store', pull traversal store = some ((none, traversal'), store') ∧
      replay.Holds store' ledger := by
  have hdrop : X.drop n = Seq.nil :=
    Seq.get?_zero_eq_none.mp (by simpa [Seq.drop_get?] using hx)
  rw [hdrop] at holds
  exact replay.ends holds

end Replay

section Stepped

variable {step : τ → Option α × τ}

/-- The elements of a traversal that is a plain value, element by element. -/
lemma History.elements_ofStep (traversal : τ) (store : ω) :
    (History.ofStep step traversal store).elements =
      match step traversal with
      | (none, _) => Seq.nil
      | (some x, traversal) => Seq.cons x (History.ofStep step traversal store).elements := by
  refine Seq.ext fun n => ?_
  rcases h : step traversal with ⟨_ | x, traversal'⟩
  · cases n with
    | zero => simp [elements_get?, ofStep, h]
    | succ n =>
      rw [elements_get?, if_neg]
      · rfl
      · intro all
        have hfirst := all 0 (by omega)
        simp [ofStep, h] at hfirst
  · cases n with
    | zero => simp [elements_get?, ofStep, h]
    | succ n =>
      have hfirst : (ofStep step traversal store).answer 0 = some x := by simp [ofStep, h]
      have hshift : ∀ m, (ofStep step traversal store).answer (m + 1) =
          (ofStep step traversal' store).answer m := fun m => by simp [ofStep, h]
      simp only [elements_get?, Seq.get?_cons_succ, Nat.forall_lt_succ_left, hfirst, hshift,
        Option.isSome_some, true_and]

/-- Traversals that are plain values replay what they deliver before their
first end. -/
def Replay.ofStep (traverse : σ → τ) (step : τ → Option α × τ) (sources : List σ) :
    Replay (fun source => return traverse source) (fun t => return step t : Pull Unit τ α) sources
      fun source => (History.ofStep step (traverse source) ()).elements where
  Holds _ ledger := ∀ entry ∈ ledger, entry.2 = (History.ofStep step entry.1 ()).elements
  starts := by
    intro source store ledger _ holds
    refine ⟨traverse source, store, rfl, ?_⟩
    simpa using holds
  delivers := by
    intro traversal x rest store ledger holds
    obtain ⟨hfirst, holds⟩ := Multiset.forall_mem_cons.mp holds
    rw [History.elements_ofStep] at hfirst
    rcases h : step traversal with ⟨_ | y, traversal'⟩
    · simp [h] at hfirst
    · obtain ⟨rfl, hrest⟩ := Seq.cons_eq_cons.mp (by simpa [h] using hfirst)
      exact ⟨traversal', store, rfl, Multiset.forall_mem_cons.mpr ⟨hrest, holds⟩⟩
  ends := by
    intro traversal store ledger holds
    obtain ⟨hfirst, holds⟩ := Multiset.forall_mem_cons.mp holds
    rw [History.elements_ofStep] at hfirst
    rcases h : step traversal with ⟨_ | y, traversal'⟩
    · exact ⟨traversal', store, rfl, holds⟩
    · simp [h] at hfirst

end Stepped

end Traversals
