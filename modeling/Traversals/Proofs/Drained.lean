import Traversals.Eager.Drain
import Traversals.Proofs.Upstream

/-!
# Draining a finite history

A query that drains a traversal folds over the elements before the first end,
in order, and asks for that end once.
-/

namespace Traversals

open Stream' (Seq)

variable {ω τ α γ : Type}

namespace History

variable {pull : Pull ω τ α} {history : History pull} {xs : List α}

lemma reached_of_finite (finite : history.elements = Seq.ofList xs) {n : Nat}
    (hn : n ≤ xs.length) : history.Reached n := by
  intro m hm
  rw [finite, Seq.ofList_get?, List.getElem?_eq_getElem (by omega)]
  rfl

lemma answer_of_finite (finite : history.elements = Seq.ofList xs) {n : Nat}
    (hn : n ≤ xs.length) : history.answer n = xs[n]? := by
  rw [(reached_of_finite finite hn).answer_eq, finite, Seq.ofList_get?]

/-- From any place before the end on, a fold takes the elements that are left. -/
lemma fold_eq (finite : history.elements = Seq.ofList xs) (step : γ → α → γ) {n budget : Nat}
    (hn : n ≤ xs.length) (enough : xs.length - n < budget) (acc : γ) :
    Eager.fold pull (fun acc x => return step acc x) budget acc
        (history.state n).1 (history.state n).2 =
      some ((xs.drop n).foldl step acc, (history.state (xs.length + 1)).2) := by
  induction budget generalizing n acc with
  | zero => omega
  | succ budget ih =>
    have hanswer := answer_of_finite finite hn
    rcases Nat.lt_or_eq_of_le hn with inside | rfl
    · rw [List.getElem?_eq_getElem inside] at hanswer
      have hrest := ih (n := n + 1) (by omega) (by omega) (step acc xs[n])
      simp only [Eager.fold, Run.bind_apply, history.pulled, hanswer, Option.bind_some,
        Run.pure_apply, hrest]
      rw [List.drop_eq_getElem_cons inside, List.foldl_cons]
    · rw [List.getElem?_eq_none le_rfl] at hanswer
      simp [Eager.fold, Run.bind_apply, history.pulled, hanswer]

/-- All elements are collected, and the end is asked for once. -/
lemma materialize_eq (finite : history.elements = Seq.ofList xs) {budget : Nat}
    (enough : xs.length < budget) :
    Eager.materialize pull budget (history.state 0).1 (history.state 0).2 =
      some (xs, (history.state (xs.length + 1)).2) := by
  have hfold := fold_eq finite (fun (elements : Array α) x => elements.push x)
    (Nat.zero_le _) (show xs.length - 0 < budget by omega) #[]
  simp [Eager.materialize, Run.map_apply, hfold]

end History

end Traversals
