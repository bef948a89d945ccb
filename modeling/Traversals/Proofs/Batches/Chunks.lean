import Mathlib.Data.ENat.Lattice
import Mathlib.Data.List.Basic
import Traversals.Eager.Checked
import Traversals.Proofs.Drained

/-!
# Batches as chunks

Batches that are drained one after the other are the chunks of a sequence. A
chunk is met in three ways: its first element is pulled with the batch, the
others are pulled for it, and the end of the sequence may come before it is
full. The end may also come where the next chunk would begin. In each case the
cursor then stands where the next chunk begins, or it has ended before. For each
chunk that is not full the cursor is asked past the end once.
-/

namespace Traversals

open Stream' (Seq)

variable {ω τ α : Type}

/-- The elements from place `i * size` on, at most `size` of them. -/
def chunk (X : Seq α) (size i : ℕ) : List α := (X.drop (i * size)).take size

/-- There is a chunk where there is an element for it to begin with. -/
def chunkAt (X : Seq α) (size i : ℕ) : Option (List α) :=
  (X.get? (i * size)).map fun _ => chunk X size i

/-- How many of the first chunks are not full. -/
def unfilled (X : Seq α) (size count : ℕ) : ℕ :=
  (List.range count).countP fun i => (chunk X size i).length < size

namespace Chunks

variable {X : Seq α} {xs : List α} {size i : ℕ}

lemma getElem?_chunk (X : Seq α) (size i m : ℕ) :
    (chunk X size i)[m]? = if m < size then X.get? (i * size + m) else none := by
  rw [chunk, Seq.getElem?_take, Seq.drop_get?]

lemma length_chunk_le (X : Seq α) (size i : ℕ) : (chunk X size i).length ≤ size :=
  Seq.length_take_le

/-- Only the end of the sequence makes a chunk shorter. -/
lemma length_chunk (full : (((i + 1) * size : ℕ) : ℕ∞) ≤ X.length') :
    (chunk X size i).length = size := by
  refine le_antisymm (length_chunk_le X size i) (Nat.le_of_not_lt fun hlt => ?_)
  have hnone := getElem?_chunk X size i (chunk X size i).length
  rw [List.getElem?_eq_none le_rfl, if_pos hlt] at hnone
  have hle := full.trans (Seq.length'_le_iff.mpr hnone.symm)
  have hle : (i + 1) * size ≤ i * size + (chunk X size i).length := by exact_mod_cast hle
  rw [Nat.succ_mul] at hle
  omega

/-- A chunk that meets the end is not full. -/
lemma length_chunk_lt (size_pos : 0 < size) {n : ℕ} (last : X.get? n = none)
    (before : n < (i + 1) * size) : (chunk X size i).length < size := by
  refine lt_of_le_of_ne (length_chunk_le X size i) fun full => ?_
  rw [Nat.succ_mul] at before
  have hlast := getElem?_chunk X size i (size - 1)
  rw [if_pos (by omega), Seq.le_stable _ (by omega) last, List.getElem?_eq_none_iff] at hlast
  omega

lemma unfilled_succ (X : Seq α) (size i : ℕ) : unfilled X size (i + 1) =
    unfilled X size i + if (chunk X size i).length < size then 1 else 0 := by
  rw [unfilled, List.range_succ, List.countP_append, List.countP_singleton]
  simp only [unfilled, decide_eq_true_eq]

/-- Chunks that lie inside the sequence are full. -/
lemma unfilled_eq_zero (inside : ((i * size : ℕ) : ℕ∞) ≤ X.length') : unfilled X size i = 0 := by
  rw [unfilled, List.countP_eq_zero]
  intro j hj
  have hle : ((j + 1) * size : ℕ) ≤ i * size := Nat.mul_le_mul_right size (List.mem_range.mp hj)
  have full : (((j + 1) * size : ℕ) : ℕ∞) ≤ X.length' := (Nat.cast_le.mpr hle).trans inside
  simp [length_chunk full]

/-- The first chunk that meets the end is the first one that is not full. -/
lemma unfilled_eq_one (size_pos : 0 < size) {n : ℕ} (reached : (n : ℕ∞) ≤ X.length')
    (last : X.get? n = none) (begun : i * size ≤ n) (before : n < (i + 1) * size) :
    unfilled X size (i + 1) = 1 := by
  have inside : ((i * size : ℕ) : ℕ∞) ≤ X.length' := (Nat.cast_le.mpr begun).trans reached
  rw [unfilled_succ, unfilled_eq_zero inside, if_pos (length_chunk_lt size_pos last before)]

lemma chunkAt_eq_some {x : α} (hx : X.get? (i * size) = some x) :
    chunkAt X size i = some (chunk X size i) := by
  rw [chunkAt, hx, Option.map_some]

lemma chunkAt_eq_none (hx : X.get? (i * size) = none) : chunkAt X size i = none := by
  rw [chunkAt, hx, Option.map_none]

lemma chunkAt_ne_none : chunkAt X size i ≠ none ↔ ∃ x, X.get? (i * size) = some x := by
  rw [chunkAt, ne_eq, Option.map_eq_none_iff, ← ne_eq, Option.ne_none_iff_exists']

section Finite

end Finite

end Chunks

namespace History

variable {pull : Pull ω τ α} {history : History pull} {promise : Promise} {size i m : ℕ}
  {size_pos : 0 < size}

/-- Batches of which `i` have been drained, or the end came before that. -/
inductive Cut (history : History pull) (promise : Promise) (size_pos : 0 < size) (i : ℕ) :
    Batches τ → ω × ℕ → Prop
  | between {cursor : Fused τ} {store : ω × ℕ}
      (reads : history.counting.Reads promise (i * size) 0 cursor store) :
      Cut history promise size_pos i ⟨cursor, size, size_pos⟩ store
  | ended {n : ℕ} {cursor : Fused τ} {store : ω × ℕ} (before : n < i * size)
      (met : 0 < unfilled history.elements size i)
      (reads : history.counting.Reads promise n (unfilled history.elements size i) cursor store) :
      Cut history promise size_pos i ⟨cursor, size, size_pos⟩ store

/-- Batch `i` after `m` pulls, with the batches it is cut from. -/
inductive Opened (history : History pull) (promise : Promise) (size_pos : 0 < size) (i : ℕ) :
    ℕ → Batch α × Batches τ → ω × ℕ → Prop
  | fresh {x : α} {cursor : Fused τ} {store : ω × ℕ}
      (first : history.elements.get? (i * size) = some x)
      (reads : history.counting.Reads promise (i * size + 1) 0 cursor store) :
      Opened history promise size_pos i 0 (⟨some x, size - 1⟩, ⟨cursor, size, size_pos⟩) store
  | going {m : ℕ} {cursor : Fused τ} {store : ω × ℕ}
      (reads : history.counting.Reads promise (i * size + min (m + 1) size) 0 cursor store) :
      Opened history promise size_pos i (m + 1)
        (⟨none, size - (m + 1)⟩, ⟨cursor, size, size_pos⟩) store
  | short {m n : ℕ} {cursor : Fused τ} {store : ω × ℕ} (begun : i * size ≤ n)
      (before : n < (i + 1) * size) (passed : n ≤ i * size + m)
      (reads : history.counting.Reads promise n 1 cursor store) :
      Opened history promise size_pos i (m + 1) (⟨none, 0⟩, ⟨cursor, size, size_pos⟩) store

namespace Opened

variable {batch : Batch α × Batches τ} {store : ω × ℕ}

/-- No batch has the upstream pulled for what comes after it. -/
lemma calls_le (opened : history.Opened promise size_pos i m batch store) :
    store.2 ≤ (i + 1) * size := by
  rw [Nat.succ_mul]
  cases opened with
  | fresh first reads =>
    rw [reads.calls_eq, promise.passedOn_zero]
    exact Nat.add_le_add_left size_pos _
  | going reads =>
    rw [reads.calls_eq]
    simp
  | short begun before passed reads =>
    rw [reads.calls_eq, promise.passedOn_one, ← Nat.succ_mul]
    exact before

/-- Each pull delivers the next element of the chunk. -/
lemma next (opened : history.Opened promise size_pos i m batch store) :
    ∃ answer batch' store', Batch.next promise (counted pull) batch store =
        some ((answer, batch'), store') ∧
      answer = (chunk history.elements size i)[m]? ∧
      history.Opened promise size_pos i (m + 1) batch' store' := by
  rw [Chunks.getElem?_chunk]
  cases opened with
  | @fresh x cursor store first reads =>
    refine ⟨some x, (⟨none, size - 1⟩, ⟨cursor, size, size_pos⟩), store, rfl, ?_, .going ?_⟩
    · rw [if_pos size_pos, Nat.add_zero, first]
    · rwa [min_eq_left (show 0 + 1 ≤ size from size_pos)]
  | @going m cursor store reads =>
    by_cases hroom : size ≤ m + 1
    · have hfull : min (m + 2) size = min (m + 1) size := by omega
      have hnone : size - (m + 1) = 0 := by omega
      refine ⟨none, (⟨none, size - (m + 1)⟩, ⟨cursor, size, size_pos⟩), store,
        by simp [Batch.next, hnone], by rw [if_neg (by omega)], ?_⟩
      rw [hnone, show 0 = size - (m + 2) by omega]
      exact .going (by rwa [hfull])
    · have hmin : min (m + 1) size = m + 1 := by omega
      have hremaining : size - (m + 1) ≠ 0 := by omega
      rw [hmin] at reads
      rw [if_pos (by omega)]
      cases hx : history.elements.get? (i * size + (m + 1)) with
      | some x =>
        obtain ⟨cursor', store', hnext, reads'⟩ := reads.next_some hx
        refine ⟨some x, (⟨none, size - (m + 1) - 1⟩, ⟨cursor', size, size_pos⟩), store', ?_, rfl,
          .going ?_⟩
        · simp [Batch.next, hremaining, Run.bind_apply, hnext]
        · rwa [min_eq_left (by omega)]
      | none =>
        obtain ⟨cursor', store', hnext, reads'⟩ := reads.next_none hx
        have before : i * size + (m + 1) < (i + 1) * size := by
          rw [Nat.succ_mul]
          omega
        refine ⟨none, (⟨none, 0⟩, ⟨cursor', size, size_pos⟩), store', ?_, rfl,
          .short (Nat.le_add_right _ _) before le_rfl reads'⟩
        simp [Batch.next, hremaining, Run.bind_apply, hnext]
  | @short m n cursor store begun before passed reads =>
    refine ⟨none, (⟨none, 0⟩, ⟨cursor, size, size_pos⟩), store, rfl, ?_,
      .short begun before (by omega) reads⟩
    split
    · exact (Seq.le_stable _ (by omega) (reads.at_end Nat.one_pos)).symm
    · rfl

/-- After the last element of the chunk the next batch can be cut. -/
lemma cut (opened : history.Opened promise size_pos i (m + 1) batch store)
    (last : (chunk history.elements size i)[m]? = none) :
    history.Cut promise size_pos (i + 1) batch.2 store := by
  cases opened with
  | going reads =>
    rw [Chunks.getElem?_chunk] at last
    split at last
    · rename_i inside
      have hsome := reads.reached (i * size + m) (by omega)
      rw [show history.counting.elements.get? (i * size + m) = none from last] at hsome
      cases hsome
    · rw [min_eq_right (by omega), ← Nat.succ_mul] at reads
      exact .between reads
  | short begun before passed reads =>
    have hone : unfilled history.elements size (i + 1) = 1 :=
      Chunks.unfilled_eq_one size_pos reads.reached.le_length' (reads.at_end Nat.one_pos) begun
        before
    exact .ended before (by omega) (by rwa [hone])

/-- What a batch still delivers is the rest of its chunk. -/
lemma drain_eq (opened : history.Opened promise size_pos i m batch store) {budget : ℕ}
    (hm : m ≤ (chunk history.elements size i).length)
    (enough : (chunk history.elements size i).length < m + budget) (delivered : Array α) :
    ∃ batches store', Batch.drain promise (counted pull) budget delivered batch store =
        some ((delivered.toList ++ (chunk history.elements size i).drop m, batches), store') ∧
      history.Cut promise size_pos (i + 1) batches store' := by
  induction budget generalizing m batch store delivered with
  | zero => omega
  | succ budget ih =>
    obtain ⟨answer, batch₁, store₁, hnext, hanswer, opened₁⟩ := opened.next
    cases answer with
    | none =>
      have hrest := List.drop_eq_nil_of_le (List.getElem?_eq_none_iff.mp hanswer.symm)
      refine ⟨batch₁.2, store₁, ?_, opened₁.cut hanswer.symm⟩
      simp [Batch.drain, Run.bind_apply, hnext, hrest]
    | some x =>
      obtain ⟨hlt, hx⟩ := List.getElem?_eq_some_iff.mp hanswer.symm
      obtain ⟨batches, store', hdrain, cut⟩ :=
        ih opened₁ (by omega) (by omega) (delivered.push x)
      refine ⟨batches, store', ?_, cut⟩
      rw [List.drop_eq_getElem_cons hlt, hx]
      simpa [Batch.drain, Run.bind_apply, hnext] using hdrain

end Opened

namespace Cut

variable {batches : Batches τ} {store : ω × ℕ}

/-- Drained batches have pulled their elements, and for each that is not full
they have asked past the end. -/
lemma calls_eq (cut : history.Cut promise size_pos i batches store) :
    (store.2 : ℕ∞) = min ((i * size : ℕ) : ℕ∞) history.elements.length' +
      promise.passedOn (unfilled history.elements size i) := by
  cases cut with
  | between reads =>
    have hle : ((i * size : ℕ) : ℕ∞) ≤ history.elements.length' := reads.reached.le_length'
    rw [reads.calls_eq, min_eq_left hle, Chunks.unfilled_eq_zero hle, Nat.cast_add]
  | @ended n cursor store before met reads =>
    have hlength : history.elements.length' = n := reads.length'_eq met
    rw [reads.calls_eq, hlength, min_eq_right (Nat.cast_le.mpr before.le), Nat.cast_add]

lemma store_eq (cut : history.Cut promise size_pos i batches store) :
    store.1 = (history.state store.2).2 := by
  cases cut with
  | between reads => exact reads.store_at_calls
  | ended before met reads => exact reads.store_at_calls

/-- The next batch holds the first element of its chunk. -/
lemma next_some (cut : history.Cut promise size_pos i batches store) {x : α}
    (hx : history.elements.get? (i * size) = some x) :
    ∃ batch batches' store', Batches.next promise (counted pull) batches store =
        some ((some batch, batches'), store') ∧
      history.Opened promise size_pos i 0 (batch, batches') store' := by
  cases cut with
  | between reads =>
    obtain ⟨cursor', store', hnext, reads'⟩ := reads.next_some hx
    refine ⟨⟨some x, size - 1⟩, ⟨cursor', size, size_pos⟩, store', ?_, .fresh hx reads'⟩
    simp [Batches.next, Run.bind_apply, hnext]
  | ended before met reads =>
    have hnone := Seq.le_stable _ before.le (reads.at_end met)
    cases hx.symm.trans hnone

/-- Where the next chunk would begin at the end, the end is asked for. -/
lemma next_none (cut : history.Cut promise size_pos i batches store)
    (hx : history.elements.get? (i * size) = none) :
    ∃ batches' store', Batches.next promise (counted pull) batches store =
        some ((none, batches'), store') ∧ history.Cut promise size_pos (i + 1) batches' store' := by
  have hsucc : i * size < (i + 1) * size := by
    rw [Nat.succ_mul]
    omega
  cases cut with
  | between reads =>
    obtain ⟨cursor', store', hnext, reads'⟩ := reads.next_none hx
    have hone : unfilled history.elements size (i + 1) = 1 :=
      Chunks.unfilled_eq_one size_pos reads.reached.le_length' hx le_rfl hsucc
    refine ⟨⟨cursor', size, size_pos⟩, store', ?_, .ended hsucc (by omega) (by rwa [hone])⟩
    simp [Batches.next, Run.bind_apply, hnext]
  | ended before met reads =>
    have hlast : history.elements.get? _ = none := reads.at_end met
    obtain ⟨cursor', store', hnext, reads'⟩ := reads.next_none hlast
    have hmore : unfilled history.elements size (i + 1) = unfilled history.elements size i + 1 := by
      rw [Chunks.unfilled_succ,
        if_pos (Chunks.length_chunk_lt size_pos hlast (before.trans hsucc))]
    refine ⟨⟨cursor', size, size_pos⟩, store', ?_,
      .ended (before.trans hsucc) (by omega) (by rwa [hmore])⟩
    simp [Batches.next, Run.bind_apply, hnext]

lemma nextDrained (cut : history.Cut promise size_pos i batches store) {budget : ℕ}
    (enough : ∀ i, (chunk history.elements size i).length < budget) :
    ∃ answer batches' store', Batches.nextDrained promise (counted pull) budget batches store =
        some ((answer, batches'), store') ∧
      answer = chunkAt history.elements size i ∧
      history.Cut promise size_pos (i + 1) batches' store' := by
  cases hx : history.elements.get? (i * size) with
  | some x =>
    obtain ⟨batch, batches₁, store₁, hnext, opened⟩ := cut.next_some hx
    obtain ⟨batches₂, store₂, hdrain, cut'⟩ :=
      opened.drain_eq (Nat.zero_le _) (by simpa using enough i) #[]
    refine ⟨_, batches₂, store₂, ?_, (Chunks.chunkAt_eq_some hx).symm, cut'⟩
    simp [Batches.nextDrained, Run.bind_apply, Run.map_apply, hnext, hdrain]
  | none =>
    obtain ⟨batches', store', hnext, cut'⟩ := cut.next_none hx
    refine ⟨none, batches', store', ?_, (Chunks.chunkAt_eq_none hx).symm, cut'⟩
    simp [Batches.nextDrained, Run.bind_apply, hnext]

end Cut

end History

/-- The batch after `i` drained ones, pulled by hand: as often as it is pulled,
it delivers its chunk, and nothing behind the chunk has been pulled for it. -/
def DeliversChunk {pull : Pull ω τ α} (history : History pull) (promise : Promise) (size i : ℕ)
    (batches : Batches τ) (store : ω × ℕ) : Prop :=
  chunkAt history.elements size i ≠ none → ∃ batch batches' store',
    Batches.next promise (counted pull) batches store = some ((some batch, batches'), store') ∧
    ∀ m, ∃ (answers : List (Option α)) (rest : Batch α × Batches τ) (final : ω × ℕ),
      pulls (Batch.next promise (counted pull)) m (batch, batches') store' =
        some ((answers, rest), final) ∧
      answers.length = m ∧
      (∀ (k : ℕ) answer, answers[k]? = some answer → answer = (chunk history.elements size i)[k]?) ∧
      final.2 ≤ (i + 1) * size

lemma History.Cut.delivers {pull : Pull ω τ α} {history : History pull} {promise : Promise}
    {size i : ℕ} {size_pos : 0 < size} {batches : Batches τ} {store : ω × ℕ}
    (cut : history.Cut promise size_pos i batches store) :
    DeliversChunk history promise size i batches store := by
  intro inside
  obtain ⟨x, hx⟩ := Chunks.chunkAt_ne_none.mp inside
  obtain ⟨batch, batches', store', hnext, opened⟩ := cut.next_some hx
  refine ⟨batch, batches', store', hnext, fun m => ?_⟩
  obtain ⟨answers, rest, final, hpulls, hlength, hanswers, opened'⟩ :=
    pulls_of_step Opened.next opened m
  simp only [Nat.zero_add] at hanswers opened'
  exact ⟨answers, rest, final, hpulls, hlength, hanswers, opened'.calls_le⟩

end Traversals
