import Traversals.Proofs.Comparison.Products
import Traversals.Proofs.Cycle.Ending
import Traversals.Proofs.Product.Agreement
import Traversals.Proofs.Shelf.Basic

/-!
# Memos and sequences are interchangeable

Cycles and products start their sources again and again, and products do so
while other traversals of the same source are under way. With memos in place of
sequences they give the same answers, and what the memos wrap is still pulled
just once for each element. Its end is asked for once, unless it has promised to
stay ended: then it may be asked for at the end of every traversal. Beside the
memos a product may have sources of any other kind, which may keep it from
answering; over memos alone it always answers, and so does a cycle.
-/

namespace Traversals

open Filter
open Stream' (Seq)

variable {ω δ ν σ τ υ α β κ : Type}

/-- With every budget that is large enough a run gives these answers. -/
def Answered (runs : ℕ → Run ω (List (Option β) × κ)) (store : ω) (answers : List (Option β)) :
    Prop :=
  ∃ enough, ∀ budget, enough ≤ budget →
    ∃ state store', runs budget store = some ((answers, state), store')

namespace Shelf

section Runs

variable [DecidableEq ν] (start : Start ω σ τ) (pull : Pull ω τ α) (promises : ν → Promise)
  (own : ν → Pull δ υ α) (count : ℕ)

end Runs

variable {own : ν → Pull δ υ α}

/-- Memos that have not been asked for anything yet. -/
def memos (histories : ∀ name, History (own name)) : Shelf ν δ υ α := fun name =>
  .memoized (.make ((histories name).state 0).1) (((histories name).state 0).2, 0) 0

/-- The elements before the first end, as they are. -/
def sequences (histories : ∀ name, History (own name)) : Shelf ν δ υ α := fun name =>
  .plain (histories name).elements

/-- Runs that cannot tell shelves of the same histories apart. -/
def Blind (histories : ∀ name, History (own name)) (promises : ν → Promise)
    (runs : ℕ → Run (ω × Shelf ν δ υ α) (List (Option β) × κ)) : Prop :=
  ∀ limit, (comparison histories promises).Agrees atTop (fun _ => True) (runs limit) runs
    fun _ _ => True

section Blind

variable {histories : ∀ name, History (own name)} {promises : ν → Promise} {store : ω}
  {runs : ℕ → Run (ω × Shelf ν δ υ α) (List (Option β) × κ)}

/-- One run on a shelf tells what the runs with large budgets give on another. -/
lemma Blind.answered (blind : Blind histories promises runs) {shelf other : Shelf ν δ υ α}
    (holds : ∀ name, (shelf name).Holds (histories name) (promises name))
    (holds' : ∀ name, (other name).Holds (histories name) (promises name)) {limit : ℕ} {state : κ}
    {answers : List (Option β)} {last : ω × Shelf ν δ υ α}
    (hrun : runs limit (store, shelf) = some ((answers, state), last)) :
    Answered runs (store, other) answers := by
  obtain ⟨last', hruns, -⟩ := blind limit (store, shelf) (store, other)
    ⟨rfl, fun name => ⟨holds name, holds' name⟩⟩ trivial trivial _ _ hrun
  obtain ⟨enough, hruns⟩ := eventually_atTop.mp hruns
  exact ⟨enough, fun budget hle => ⟨state, last', hruns budget hle⟩⟩

end Blind

section Combinators

variable [DecidableEq ν] (histories : ∀ name, History (own name)) (promises : ν → Promise)
  (start : Start ω σ τ) (pull : Pull ω τ α) (count : ℕ)

end Combinators

section Totality

variable [DecidableEq ν] {histories : ∀ name, History (own name)} {promises : ν → Promise}
  {start : Start ω σ τ} {pull : Pull ω τ α} {store : ω}

/-- A sequence answers at every position. -/
lemma pull_sequences (name : ν) (position : ℕ) :
    Shelf.pull pull promises own (.inr (name, position)) (store, sequences histories) =
      some (((histories name).elements.get? position,
        .inr (name, advanced ((histories name).elements.get? position) position)),
        (store, sequences histories)) := by
  have hitem : sequences histories name = .plain (histories name).elements := rfl
  have hsame : Function.update (sequences histories) name
      (.plain (histories name).elements : Shelved δ υ α) = sequences histories :=
    Function.update_eq_self name (sequences histories)
  simp [Shelf.pull, Shelved.fetch, hitem, hsame]

/-- The elements of a source of a shelf; none of one of another kind. -/
def elements (histories : ∀ name, History (own name)) : σ ⊕ ν → Seq α
  | .inl _ => Seq.nil
  | .inr name => (histories name).elements

variable (histories promises start pull store) in
/-- The traversals of sequences deliver their elements, whichever are in use. -/
def replay (names : List ν) :
    Replay (Shelf.start start) (Shelf.pull pull promises own) (names.map .inr)
      (elements histories) where
  Holds last ledger := last = (store, sequences histories) ∧
    ∀ entry ∈ ledger, ∃ name position,
      entry = (.inr (name, position), (histories name).elements.drop position)
  starts := by
    rintro source _ ledger hsource ⟨rfl, holds⟩
    obtain ⟨name, -, rfl⟩ := List.mem_map.mp hsource
    exact ⟨.inr (name, 0), _, rfl, rfl, Multiset.forall_mem_cons.mpr ⟨⟨name, 0, rfl⟩, holds⟩⟩
  delivers := by
    rintro traversal x rest _ ledger ⟨rfl, holds⟩
    obtain ⟨⟨name, position, hentry⟩, others⟩ := Multiset.forall_mem_cons.mp holds
    obtain ⟨rfl, hdrop⟩ := Prod.mk.inj hentry
    have hx : (histories name).elements.get? position = some x := by
      simpa [Seq.drop_get?] using (congrArg (Seq.get? · 0) hdrop).symm
    have hrest : rest = (histories name).elements.drop (position + 1) :=
      (Seq.tail_cons x rest).symm.trans (congrArg Seq.tail hdrop)
    refine ⟨.inr (name, position + 1), _, ?_, rfl,
      Multiset.forall_mem_cons.mpr ⟨⟨name, position + 1, by rw [hrest]⟩, others⟩⟩
    simp [pull_sequences, hx, advanced]
  ends := by
    rintro traversal _ ledger ⟨rfl, holds⟩
    obtain ⟨⟨name, position, hentry⟩, others⟩ := Multiset.forall_mem_cons.mp holds
    obtain ⟨rfl, hdrop⟩ := Prod.mk.inj hentry
    have hx : (histories name).elements.get? position = none := by
      simpa [Seq.drop_get?] using (congrArg (Seq.get? · 0) hdrop).symm
    refine ⟨.inr (name, position), _, ?_, rfl, others⟩
    simp [pull_sequences, hx, advanced]

end Totality

end Shelf

end Traversals
