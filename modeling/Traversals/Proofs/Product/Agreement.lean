import Traversals.Proofs.Product.Emptiness
import Traversals.Proofs.Product.Nested

/-!
# Nested products and trees

A nested product answers every call as the product of a list does. The two pull
their sources in different orders, so neither follows the other step by step;
both give the row of the call's number. An empty source ends either at its
first call, wherever it stands among the others.
-/

namespace Traversals

open Stream' (Seq)
open RowMajor (rowCount rowTotal IsAnswer)

variable {ω σ τ α : Type} {start : Start ω σ τ} {pull : Pull ω τ α} {sources : List σ}
  {elements : σ → Seq α}

namespace Replay

/-- With an empty source the first call already finds no row. -/
lemma next_barren (replay : Replay start pull sources elements) {source : σ} {others : List σ}
    (known : source :: others ⊆ sources)
    (barren : rowCount ((source :: others).map elements) = 0) {budget : ℕ}
    (enough : others.length + 1 < budget) {head : τ} {store : ω} {frame : Multiset (τ × Seq α)}
    (holds : replay.Holds store ((head, (elements source).drop 0) ::ₘ frame)) :
    ∃ nested store', Nested.next start pull budget (.ofSources head others) store =
        some ((none, nested), store') ∧ (others ≠ [] → nested.Over) := by
  obtain ⟨empty, hmem, hnil⟩ := List.mem_map.mp (RowMajor.rowCount_eq_zero_iff.mp barren)
  have opened : replay.openings.Holds store ((source, head) ::ₘ 0) :=
    ⟨frame, by simpa using holds⟩
  obtain ⟨answer, nested, store', hnext, hempty, hover, -⟩ :=
    replay.openings.nested_first known (show others.length < budget by omega) opened
  obtain rfl := hempty ⟨empty, hmem, hnil⟩
  exact ⟨nested, store', hnext, hover rfl⟩

/-- A nested product after `n` calls. -/
inductive Nests (replay : Replay start pull sources elements) (source : σ) (others : List σ)
    (frame : Multiset (τ × Seq α)) : ℕ → Nested σ τ α → ω → Prop
  | barren {head : τ} {store : ω} (barren : rowCount ((source :: others).map elements) = 0)
      (holds : replay.Holds store ((head, (elements source).drop 0) ::ₘ frame)) :
      Nests replay source others frame 0 (.ofSources head others) store
  | standing {n : ℕ} {nested : Nested σ τ α} {store : ω} {used : List (τ × Seq α)}
      (nonempty : rowCount ((source :: others).map elements) ≠ 0)
      (standing : Nested.Standing elements (source :: others) n nested used)
      (holds : replay.Holds store (used + frame)) :
      Nests replay source others frame n nested store
  | finished {n : ℕ} {nested : Nested σ τ α} {store : ω} (finished : nested.Over)
      (outside : ¬ (n : ℕ∞) < rowTotal ((source :: others).map elements)) :
      Nests replay source others frame n nested store

/-- Of two sources or more, each call answers by its row. -/
lemma Nests.next {replay : Replay start pull sources elements} {source : σ} {others : List σ}
    (several : others ≠ []) (known : source :: others ⊆ sources) {budget : ℕ}
    (enough : others.length + 1 < budget) {frame : Multiset (τ × Seq α)} {n : ℕ}
    {nested : Nested σ τ α} {store : ω} (nests : replay.Nests source others frame n nested store) :
    ∃ answer nested' store', Nested.next start pull budget nested store =
        some ((answer, nested'), store') ∧
      IsAnswer ((source :: others).map elements) n answer ∧
      replay.Nests source others frame (n + 1) nested' store' := by
  have htotal : rowTotal ((source :: others).map elements) =
      rowCount ((source :: others).map elements) := RowMajor.rowTotal_cons _ _
  cases nests with
  | barren barren holds =>
    obtain ⟨nested', store', hnext, finished⟩ := replay.next_barren known barren enough holds
    have outside (r : ℕ) : ¬ (r : ℕ∞) < rowTotal ((source :: others).map elements) := by
      rw [htotal, barren]
      simp
    exact ⟨none, nested', store', hnext, .none (outside 0),
      .finished (finished several) (outside 1)⟩
  | standing nonempty standing holds =>
    have hgives := replay.steady known nonempty enough standing holds
    generalize hresult : Nested.next start pull budget nested store = result at hgives
    cases hgives with
    | row inside entries_eq standing' holds' _ =>
      rw [← htotal] at inside
      exact ⟨_, _, _, rfl, .row inside entries_eq, .standing nonempty standing' holds'⟩
    | spent outside finished _ _ =>
      rw [← htotal] at outside
      exact ⟨_, _, _, rfl, .none outside,
        .finished (finished several) (RowMajor.outside_succ outside)⟩
  | finished finished outside =>
    obtain ⟨budget, rfl⟩ : ∃ b, budget = b + 1 := ⟨budget - 1, by omega⟩
    exact ⟨none, nested, store, Nested.next_over finished, .none outside,
      .finished finished (RowMajor.outside_succ outside)⟩

/-- So a nested product answers as its rows say, call by call. -/
lemma nested_answers (replay : Replay start pull sources elements) {source second : σ}
    {others : List σ} (known : source :: second :: others ⊆ sources) {budget : ℕ}
    (enough : others.length + 2 < budget) {store : ω} {frame : Multiset (τ × Seq α)}
    (holds : replay.Holds store frame) (count : ℕ) :
    ∃ head store₁ answers nested store',
      Nested.start start (source, second :: others) store = some (head, store₁) ∧
      pulls (Nested.next start pull budget) count head store₁ =
        some ((answers, nested), store') ∧
      answers.length = count ∧
      ∀ (r : ℕ) answer, answers[r]? = some answer →
        IsAnswer ((source :: second :: others).map elements) r answer := by
  obtain ⟨head, store₁, hstart, holds⟩ := replay.starts (known List.mem_cons_self) holds
  rw [← Seq.drop_zero (s := elements source)] at holds
  have nests : replay.Nests source (second :: others) frame 0
      (.ofSources head (second :: others)) store₁ := by
    by_cases barren : rowCount ((source :: second :: others).map elements) = 0
    · exact .barren barren holds
    · refine .standing barren (.start elements source (second :: others) head) ?_
      simpa using holds
  obtain ⟨answers, nested, store', hpulls, hlength, hanswers, -⟩ :=
    pulls_of_step (fun state => state.next (List.cons_ne_nil _ _) known enough) nests count
  simp only [Nat.zero_add] at hanswers
  exact ⟨_, store₁, answers, nested, store', Nested.start_eq hstart _, hpulls, hlength, hanswers⟩

end Replay

/-- A nested product of at least two sources answers every call as the product
of the list of them does, row for row and end for end. -/
theorem nestedProduct_agrees {source second : σ} {others : List σ}
    (replay : Replay start pull (source :: second :: others) elements) {store store' : ω}
    {ledger ledger' : Multiset (τ × Seq α)} (holds : replay.Holds store ledger)
    (holds' : replay.Holds store' ledger') {budget budget' : ℕ}
    (enough : others.length + 2 < budget) (enough' : 2 * (others.length + 2) ≤ budget')
    (count : ℕ) :
    ∃ answers nested₀ store₀ nested store₁ product store₂,
      answers.length = count ∧
      Nested.start start (source, second :: others) store = some (nested₀, store₀) ∧
      pulls (Nested.next start pull budget) count nested₀ store₀ =
        some ((answers, nested), store₁) ∧
      pulls (CartesianProduct.next start pull budget') count
        (.ofSources (source :: second :: others)) store' = some ((answers, product), store₂) := by
  obtain ⟨nested₀, store₀, answers, nested, store₁, hstart, hnested, hlength, hanswers⟩ :=
    replay.nested_answers (List.Subset.refl _) enough holds count
  obtain ⟨answers', product, store₂, hpulls, hlength', hanswers'⟩ :=
    (replay.enumerates_start holds').pulls enough' count
  have hsame : answers' = answers := by
    refine List.ext_getElem (by rw [hlength, hlength']) fun r hr hr' => ?_
    have hrow := hanswers' r _ (List.getElem?_eq_getElem hr)
    rw [Nat.zero_add] at hrow
    exact hrow.unique (hanswers r _ (List.getElem?_eq_getElem hr'))
  exact ⟨answers, nested₀, store₀, nested, store₁, product, store₂, hlength, hstart, hnested,
    hsame ▸ hpulls⟩

/-- An endless source in front of two that resume after their end. -/
theorem nestedProduct_agrees_endless :
    let endless : Script Nat := .ofFunction id none none
    let pair : Script Nat := .ofAnswers #[some 10, some 20, none, some 30] none
    let replay := Replay.ofStep id Script.next [endless, pair, pair]
    let rows := [some [0, 10, 10], some [0, 10, 20], some [0, 20, 10], some [0, 20, 20],
      some [1, 10, 10]]
    (replay.Holds () 0 ∧ [pair].length + 2 < 4 ∧ 2 * ([pair].length + 2) ≤ 6) ∧
      ∃ nested product,
        pulls (Nested.next pure (fun script => return script.next) 4) 5
          (.ofSources endless [pair, pair]) () = some ((rows, nested), ()) ∧
        pulls (CartesianProduct.next pure (fun script => return script.next) 6) 5
          (.ofSources [endless, pair, pair]) () = some ((rows, product), ()) := by
  intro endless pair replay rows
  have holds : replay.Holds () 0 := fun entry h => by simp at h
  refine ⟨⟨holds, by decide, by decide⟩, ?_⟩
  obtain ⟨answers, nested₀, store₀, nested, store₁, product, store₂, -, hstart, hnested,
      hproduct⟩ :=
    nestedProduct_agrees replay holds holds (show [pair].length + 2 < 4 by decide)
      (show 2 * ([pair].length + 2) ≤ 6 by decide) 5
  obtain ⟨rfl, rfl⟩ : .ofSources endless [pair, pair] = nested₀ ∧ () = store₀ := by
    cases hstart
    exact ⟨rfl, rfl⟩
  have hrows : (pulls (Nested.next pure (fun script : Script Nat => return script.next) 4) 5
      (.ofSources endless [pair, pair]) ()).map (fun result => result.1.1) = some rows := rfl
  obtain rfl : answers = rows := by
    have hanswers := congrArg (Option.map fun result => result.1.1) hnested
    exact Option.some.inj (hanswers.symm.trans hrows)
  exact ⟨nested, product, hnested, hproduct⟩

end Traversals
