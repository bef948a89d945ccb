import Traversals.Proofs.Product.Tree
import Traversals.Script

/-!
# Enumeration of a product

Call number `r` of a product is answered by row `r` while there is one. The
first row is pulled together by itself and later ones come from the tree, so a
product goes from fresh to running to exhausted and never back.
-/

namespace Traversals

open Stream' (Seq)
open RowMajor (rowCount rowTotal positionsAt Combination IsAnswer)

variable {ω σ τ α : Type} {start : Start ω σ τ} {pull : Pull ω τ α} {sources : List σ}
  {elements : σ → Seq α}

namespace Replay

/-- A product after `r` calls. -/
inductive Enumerates (replay : Replay start pull sources elements)
    (ledger : Multiset (τ × Seq α)) : ℕ → CartesianProduct σ τ α → ω → Prop
  | fresh {source : σ} {others : List σ} {store : ω} (sources_eq : source :: others = sources)
      (holds : replay.Holds store ledger) :
      Enumerates replay ledger 0 ⟨sources, none, .fresh⟩ store
  | running {r : ℕ} {root : Node σ τ α} {store : ω} {used : Multiset (τ × Seq α)}
      (inside : (r : ℕ∞) < rowTotal (sources.map elements))
      (standing : Node.Standing elements sources r root used)
      (holds : replay.Holds store (used + ledger)) :
      Enumerates replay ledger (r + 1) ⟨sources, some root, .running⟩ store
  | exhausted {r : ℕ} {product : CartesianProduct σ τ α} {store : ω}
      (phase_eq : product.phase = .exhausted)
      (outside : ¬ (r : ℕ∞) < rowTotal (sources.map elements)) :
      Enumerates replay ledger r product store

/-- Without sources a product is over from the start. -/
lemma enumerates_start (replay : Replay start pull sources elements)
    {ledger : Multiset (τ × Seq α)} {store : ω} (holds : replay.Holds store ledger) :
    replay.Enumerates ledger 0 (.ofSources sources) store := by
  cases sources with
  | nil => exact .exhausted rfl (by simp [rowTotal])
  | cons source others => exact .fresh rfl holds

variable {replay : Replay start pull sources elements} {ledger : Multiset (τ × Seq α)}

/-- One call answers by its row and leaves the product ready for the next. -/
lemma Enumerates.next {r budget : ℕ} {product : CartesianProduct σ τ α} {store : ω}
    (enumerates : replay.Enumerates ledger r product store)
    (enough : 2 * sources.length ≤ budget) :
    ∃ answer product' store', CartesianProduct.next start pull budget product store =
        some ((answer, product'), store') ∧
      IsAnswer (sources.map elements) r answer ∧
      replay.Enumerates ledger (r + 1) product' store' := by
  cases enumerates with
  | @fresh source others store sources_eq holds =>
    subst sources_eq
    obtain ⟨result, store', hprime, ⟨rfl, hzero⟩ | ⟨head, primed, used, rfl, hprimed, holds⟩⟩ :=
      replay.prime_primes (List.Subset.refl _) holds
    · have outside : ∀ n : ℕ, ¬ (n : ℕ∞) < rowTotal ((source :: others).map elements) := by
        intro n
        rw [List.map_cons] at hzero ⊢
        simp [hzero]
      refine ⟨none, ⟨source :: others, none, .exhausted⟩, store', ?_, .none (outside 0),
        .exhausted rfl (outside 1)⟩
      simp [CartesianProduct.next, CartesianProduct.first, Run.bind_apply, hprime]
    · have inside := hprimed.inside
      rw [List.map_cons, ← RowMajor.rowTotal_cons] at inside
      refine ⟨some _, _, store', ?_, .row inside hprimed.row_eq,
        .running inside hprimed.standing holds⟩
      simp [CartesianProduct.next, CartesianProduct.first, Run.bind_apply, hprime]
  | @running r root store used inside standing holds =>
    have htotal := RowMajor.rowTotal_eq inside
    rw [htotal] at inside
    have hfills := replay.fills_succ (List.Subset.refl _) (ne_bot_of_gt inside) enough standing
      [] holds
    generalize hresult : Node.fill start pull budget [] root store = result at hfills
    cases hfills with
    | @row entries root' store' used' inside' entries_eq standing' holds' =>
      rw [← htotal] at inside'
      refine ⟨some entries, ⟨sources, some root', .running⟩, store', ?_,
        .row inside' entries_eq, .running inside' standing' holds'⟩
      simp [CartesianProduct.next, CartesianProduct.later, Run.bind_apply, hresult]
    | @spent root' store' outside holds' =>
      rw [← htotal] at outside
      refine ⟨none, ⟨sources, none, .exhausted⟩, store', ?_, .none outside,
        .exhausted rfl (RowMajor.outside_succ outside)⟩
      simp [CartesianProduct.next, CartesianProduct.later, Run.bind_apply, hresult]
  | @exhausted r product store phase_eq outside =>
    refine ⟨none, product, store, ?_, .none outside,
      .exhausted phase_eq (RowMajor.outside_succ outside)⟩
    simp [CartesianProduct.next, phase_eq]

/-- So do any number of calls in a row. -/
lemma Enumerates.pulls {r budget : ℕ} {product : CartesianProduct σ τ α} {store : ω}
    (enumerates : replay.Enumerates ledger r product store)
    (enough : 2 * sources.length ≤ budget) (count : ℕ) :
    ∃ answers product' store',
      Traversals.pulls (CartesianProduct.next start pull budget) count product store =
        some ((answers, product'), store') ∧
      answers.length = count ∧
      ∀ i answer, answers[i]? = some answer → IsAnswer (sources.map elements) (r + i) answer := by
  obtain ⟨answers, product', store', hpulls, hlength, hanswers, -⟩ :=
    pulls_of_step (fun state => state.next enough) enumerates count
  exact ⟨answers, product', store', hpulls, hlength, hanswers⟩

end Replay

/-- A product gives the rows of its sources in row-major order and then ends for
good. Every combination is in exactly one row; in front of endless rows only a
first element is ever combined. -/
theorem cartesianProduct_rowMajor (replay : Replay start pull sources elements) {store : ω}
    {ledger : Multiset (τ × Seq α)} (holds : replay.Holds store ledger) {budget : ℕ}
    (enough : 2 * sources.length ≤ budget) (count : ℕ) :
    ∃ answers product store',
      pulls (CartesianProduct.next start pull budget) count (.ofSources sources) store =
        some ((answers, product), store') ∧
      answers.length = count ∧
      (∀ (r : ℕ) answer, answers[r]? = some answer →
        IsAnswer (sources.map elements) r answer) ∧
      ((∃ source ∈ sources, elements source = Seq.nil) → ∀ answer ∈ answers, answer = none) ∧
      (sources ≠ [] →
        Set.BijOn (positionsAt (sources.map elements))
          {r : ℕ | (r : ℕ∞) < rowTotal (sources.map elements)}
          {positions | Combination (sources.map elements) positions}) := by
  obtain ⟨answers, product, store', hpulls, hlength, hanswers⟩ :=
    (replay.enumerates_start holds).pulls enough count
  simp only [Nat.zero_add] at hanswers
  refine ⟨answers, product, store', hpulls, hlength, hanswers, ?_, ?_⟩
  · rintro ⟨source, hsource, hnil⟩ answer hanswer
    obtain ⟨r, hr⟩ := List.mem_iff_getElem?.mp hanswer
    refine (hanswers r answer hr).2 ?_
    have hzero : rowCount (sources.map elements) = 0 :=
      RowMajor.rowCount_eq_zero_iff.mpr (List.mem_map.mpr ⟨source, hsource, hnil⟩)
    simp [rowTotal, hzero]
  · intro nonempty
    have htotal : rowTotal (sources.map elements) = rowCount (sources.map elements) :=
      if_neg (mt List.map_eq_nil_iff.mp nonempty)
    rw [htotal]
    exact RowMajor.positionsAt_bijOn _

/-- An endless source in front of one that resumes after its end: row three has
the second element of both. -/
theorem cartesianProduct_rowMajor_endless :
    let endless : Script Nat := .ofFunction id none none
    let pair : Script Nat := .ofAnswers #[some 10, some 20, none, some 30] none
    let replay := Replay.ofStep id Script.next [endless, pair]
    replay.Holds () 0 ∧ 2 * [endless, pair].length ≤ 4 ∧
      ∃ answers product, pulls (CartesianProduct.next pure (fun script => return script.next) 4)
          4 (.ofSources [endless, pair]) () = some ((answers, product), ()) ∧
        answers[3]? = some (some [1, 20]) := by
  intro endless pair replay
  have holds : replay.Holds () 0 := fun entry h => by simp at h
  refine ⟨holds, le_rfl, ?_⟩
  obtain ⟨answers, product, store, hpulls, hlength, hanswers, -⟩ :=
    cartesianProduct_rowMajor replay holds (show 2 * [endless, pair].length ≤ 4 from le_rfl) 4
  have hpair : (History.ofStep Script.next pair ()).elements = Seq.ofList [10, 20] :=
    History.elements_eq_ofList (by decide)
  have hendless : (History.ofStep Script.next endless ()).elements.get? 1 = some 1 := by
    rw [History.elements_get?]
    decide
  have hcount : rowCount [(History.ofStep Script.next pair ()).elements] = 2 := by
    rw [hpair]
    simp [Seq.ofList_cons, Seq.length'_cons, one_add_one_eq_two]
  have hperiod : RowMajor.period [(History.ofStep Script.next pair ()).elements] = 2 := by
    rw [RowMajor.period, hcount]
    rfl
  have inside : ((3 : ℕ) : ℕ∞) < rowCount [(History.ofStep Script.next endless ()).elements,
      (History.ofStep Script.next pair ()).elements] := by
    refine (RowMajor.lt_rowCount_cons (by simp [hcount])).mpr ⟨1, ?_⟩
    rw [hperiod]
    exact hendless
  have hrow : RowMajor.rowAt [(History.ofStep Script.next endless ()).elements,
      (History.ofStep Script.next pair ()).elements] 3 = [some 1, some 20] := by
    rw [RowMajor.rowAt_cons inside, hperiod, RowMajor.rowAt_cons (by rw [hcount]; decide), hpair]
    simpa [RowMajor.rowAt, RowMajor.positionsAt] using hendless
  obtain ⟨row, hanswer, -, hentries⟩ := (hanswers 3 answers[3] (by simp [hlength])).1 inside
  have hmap : row.map some = [1, 20].map some := hentries.trans hrow
  obtain rfl := (List.map_injective_iff.mpr (Option.some_injective Nat)) hmap
  refine ⟨answers, product, hpulls, ?_⟩
  rw [List.getElem?_eq_getElem (by omega), hanswer]

end Traversals
