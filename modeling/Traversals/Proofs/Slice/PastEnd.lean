import Traversals.Proofs.Slice.Progression
import Traversals.Proofs.Slice.Streaming

/-!
# The slices of a finite source

A source can be sliced as it streams, or drained and sliced by resolved bounds.
For bounds that do not count from the end and a forward step both are known by
their element at each place, and they give the same list but for one corner: a
start past the end is drawn back to the last index, so the drained slice has the
last element where the streaming one has none.
-/

namespace Traversals

open Stream' (Seq)

variable {ω τ α : Type} {pull : Pull ω τ α}

/-- A drained sub-sequence has the elements that are selected, at their places. -/
lemma SubSequence.materialize_eq (history : History pull) {xs : List α}
    (finite : history.elements = Seq.ofList xs) (dropped : ℕ) (taken : Option ℕ) {stride : ℕ}
    (stride_pos : 0 < stride) {budget : ℕ} (enough : xs.length < budget) :
    ∃ (drained : List α) (store : ω),
      Eager.materialize (SubSequence.next pull) budget
        ⟨(history.state 0).1, dropped, stride, taken, stride_pos⟩ (history.state 0).2 =
          some (drained, store) ∧
      ∀ k, drained[k]? = SubSequence.selected history.elements dropped taken stride k := by
  have start : SubSequence.Selecting history dropped taken stride 0
      ⟨(history.state 0).1, dropped, stride, taken, stride_pos⟩ (history.state 0).2 :=
    .going history.reached_zero rfl (by simp [SubSequence.needed]) rfl (by simp) (by simp)
  obtain ⟨outer, hstart, hanswer, -⟩ := exists_history SubSequence.Selecting.next start
  have hget : ∀ k, outer.elements.get? k =
      SubSequence.selected history.elements dropped taken stride k := by
    intro k
    rw [outer.elements_get?_of_stable, hanswer]
    intro m n hle
    rw [hanswer]
    exact SubSequence.selected_eq_none_of_le hle
  -- Each place lies as far in the source as it does among the answers, or farther.
  have hend : outer.elements.get? xs.length = none := by
    rw [hget, SubSequence.selected, finite, Seq.ofList_get?, List.getElem?_eq_none, ite_self]
    have hplace := Nat.le_mul_of_pos_right xs.length stride_pos
    omega
  have hdrained : outer.elements = Seq.ofList (outer.elements.take xs.length) := by
    refine Seq.ext fun k => ?_
    rw [Seq.ofList_get?, Seq.getElem?_take]
    split
    · rfl
    · exact Seq.le_stable _ (by omega) hend
  have hlength : (outer.elements.take xs.length).length < budget :=
    Seq.length_take_le.trans_lt enough
  have hrun := History.materialize_eq hdrained hlength
  rw [hstart] at hrun
  refine ⟨_, _, hrun, ?_⟩
  intro k
  rw [← Seq.ofList_get?, ← hdrained, hget]

namespace Slice

/-- Where a forward slice begins that does not count from the end. -/
def forwardStart (length start : ℕ) : ℕ := if length < start then length - 1 else start

def forwardStop (length : ℕ) (stop : Option ℕ) : ℕ := stop.elim length (min · length)

/-- Behind the end of a source, with no stop before it. -/
def PastEnd (length start : ℕ) (stop : Option ℕ) : Prop :=
  0 < length ∧ length < start ∧ ∀ limit ∈ stop, length ≤ limit

/-- Bounds that do not count from the end. -/
def forwardBounds (start : ℕ) (stop : Option ℕ) (step : ℕ) : SliceBounds :=
  ⟨some (.ofNat start), stop.map .ofNat, some (.ofNat step)⟩

/-- A number that a word can hold. -/
def IsWord (n : ℕ) : Prop := (n : ℤ) ≤ Int64.maxValue.toInt

section Bounds

variable {length start step : ℕ} {stop : Option ℕ}

lemma IsWord.toInt_ofNat {n : ℕ} (word : IsWord n) : (Int64.ofNat n).toInt = n := by
  have hmax := Int64.toInt_maxValue
  rw [IsWord] at word
  exact Int64.toInt_ofNat_of_lt (by omega)

lemma lt_forwardStop_iff {position : ℕ} : position < forwardStop length stop ↔
    (∀ limit ∈ stop, position < limit) ∧ position < length := by
  cases stop <;> simp [forwardStop]

lemma forwardStop_le (length : ℕ) (stop : Option ℕ) : forwardStop length stop ≤ length := by
  cases stop with
  | none => exact le_rfl
  | some limit => exact min_le_right limit length

lemma forwardBounds_step_ne (step_pos : 0 < step) (step_word : IsWord step) :
    (forwardBounds start stop step).step ≠ some 0 := by
  intro hzero
  have hstep := step_word.toInt_ofNat
  rw [Option.some.inj hzero, Int64.toInt_zero] at hstep
  omega

lemma startIndex_forward (start_word : IsWord start) (pos : 0 < length) (step_pos : 0 < step) :
    startIndex ((some (Int64.ofNat start)).map Int64.toInt) step (countable length) =
      forwardStart length start := by
  have hmax := Int64.toInt_maxValue
  have hcount : countable length = min length Int64.maxValue.toInt.toNat := rfl
  rw [startIndex, if_neg (by omega), Option.map_some, start_word.toInt_ofNat, startBound,
    if_neg (by omega), if_neg (by omega), forwardStart]
  rw [IsWord] at start_word
  split_ifs <;> omega

/-- A length that no word can hold lies beyond all stops. -/
lemma stopBound_forward (stop_word : ∀ limit ∈ stop, IsWord limit)
    (short : stop = none → IsWord length) :
    stopBound ((stop.map Int64.ofNat).map Int64.toInt) (countable length) =
      forwardStop length stop := by
  have hmax := Int64.toInt_maxValue
  have hcount : countable length = min length Int64.maxValue.toInt.toNat := rfl
  cases stop with
  | none =>
    have hshort := short rfl
    rw [IsWord] at hshort
    rw [Option.map_none, Option.map_none, stopBound, forwardStop, Option.elim_none]
    omega
  | some limit =>
    have hlimit := stop_word limit rfl
    rw [Option.map_some, Option.map_some, hlimit.toInt_ofNat, stopBound, forwardStop,
      Option.elim_some]
    rw [IsWord] at hlimit
    split_ifs <;> omega

/-- The indices of a forward progression, by their places. -/
lemma progression_getElem?_forward {first last : ℕ} (step_pos : 0 < step) (k : ℕ) :
    (progression step last first)[k]? =
      if first + k * step < last then some (first + k * step) else none := by
  have hplace : (first : ℤ) + k * step = (first + k * step : ℕ) := by
    push_cast
    rfl
  have hbefore : k < stepsBefore step last first ↔ first + k * step < last := by
    rw [lt_stepsBefore_iff (by omega), Before, if_pos (by omega), hplace, Nat.cast_lt]
  rw [progression, List.getElem?_map]
  by_cases hk : k < stepsBefore step last first
  · rw [List.getElem?_range hk, if_pos (hbefore.mp hk), Option.map_some, hplace, Int.toNat_natCast]
  · rw [List.getElem?_eq_none (by simpa using hk), if_neg (mt hbefore.mpr hk), Option.map_none]

end Bounds

/-- A drained slice with forward bounds, by its element at each place. -/
lemma slice_forward (history : History pull) {xs : List α}
    (finite : history.elements = Seq.ofList xs) {start step : ℕ} {stop : Option ℕ}
    (start_word : IsWord start) (stop_word : ∀ limit ∈ stop, IsWord limit)
    (step_pos : 0 < step) (step_word : IsWord step) (short : stop = none → IsWord xs.length)
    {budget : ℕ} (enough : xs.length < budget) :
    ∃ sliced,
      Eager.slice pull (forwardBounds start stop step) budget (history.state 0).1
        (history.state 0).2 = some (.ok sliced, (history.state (xs.length + 1)).2) ∧
      ∀ k, sliced[k]? =
        if forwardStart xs.length start + k * step < forwardStop xs.length stop then
          xs[forwardStart xs.length start + k * step]? else none := by
  obtain ⟨sliced, hslice, hnil, hplaces⟩ := slice_counted history finite
    (forwardBounds start stop step) (forwardBounds_step_ne step_pos step_word) enough
  refine ⟨sliced, hslice, fun k => ?_⟩
  rcases Nat.eq_zero_or_pos xs.length with hempty | pos
  · obtain rfl := List.length_eq_zero_iff.mp hempty
    rw [hnil rfl, List.getElem?_nil, List.getElem?_nil, ite_self]
  · have hstep : ((forwardBounds start stop step).step.map Int64.toInt).getD 1 = step :=
      step_word.toInt_ofNat
    have hmap := hplaces (List.ne_nil_of_length_pos pos)
    rw [hstep, forwardBounds, startIndex_forward start_word pos step_pos,
      stopBound_forward stop_word short] at hmap
    have hk := congrArg (·[k]?) hmap
    simp only [List.getElem?_map, progression_getElem?_forward step_pos] at hk
    split_ifs at hk ⊢ with hbefore
    · obtain ⟨x, hx, hsome⟩ := Option.map_eq_some_iff.mp hk
      rw [hx, hsome]
    · simpa using hk

section Places

variable {xs : List α} {start step : ℕ} {stop : Option ℕ}

/-- What a streaming slice of a finite source has at a place. -/
lemma selected_room (step_pos : 0 < step) (k : ℕ) :
    SubSequence.selected (Seq.ofList xs) start (SubSequence.room start stop step) step k =
      if ∀ limit ∈ stop, start + k * step < limit then xs[start + k * step]? else none := by
  rw [SubSequence.selected, Seq.ofList_get?]
  exact if_congr (SubSequence.within_room_iff step_pos) rfl rfl

/-- Past the end there is nothing to stream. -/
lemma selected_past (step_pos : 0 < step) (past : xs.length < start) (k : ℕ) :
    SubSequence.selected (Seq.ofList xs) start (SubSequence.room start stop step) step k =
      none := by
  rw [selected_room step_pos, List.getElem?_eq_none (by omega), ite_self]

/-- Both slices have the same places unless the start is drawn back. -/
lemma forward_eq_selected (step_pos : 0 < step) (inside : ¬ PastEnd xs.length start stop)
    (k : ℕ) :
    (if forwardStart xs.length start + k * step < forwardStop xs.length stop then
        xs[forwardStart xs.length start + k * step]? else none) =
      SubSequence.selected (Seq.ofList xs) start (SubSequence.room start stop step) step k := by
  rcases Nat.lt_or_ge xs.length start with past | within
  · rw [selected_past step_pos past, forwardStart, if_pos past, if_neg]
    intro hlt
    obtain ⟨hstop, hlength⟩ := lt_forwardStop_iff.mp hlt
    refine inside ⟨by omega, past, ?_⟩
    intro limit hlimit
    have hlast := hstop limit hlimit
    omega
  · rw [selected_room step_pos, forwardStart, if_neg (Nat.not_lt.mpr within)]
    by_cases hlength : start + k * step < xs.length
    · refine if_congr ?_ rfl rfl
      rw [lt_forwardStop_iff, and_iff_left hlength]
    · rw [List.getElem?_eq_none (Nat.not_lt.mp hlength), ite_self, ite_self]

/-- The last element and no other. -/
lemma forward_past (step_pos : 0 < step) (past : PastEnd xs.length start stop) {last : α}
    (hlast : xs.getLast? = some last) (k : ℕ) :
    (if forwardStart xs.length start + k * step < forwardStop xs.length stop then
        xs[forwardStart xs.length start + k * step]? else none) = [last][k]? := by
  obtain ⟨pos, start_past, stop_past⟩ := past
  rw [List.getLast?_eq_getElem?] at hlast
  rw [forwardStart, if_pos start_past]
  cases k with
  | zero =>
    have hstop : xs.length - 1 < forwardStop xs.length stop := by
      refine lt_forwardStop_iff.mpr ⟨?_, by omega⟩
      intro limit hlimit
      have hle := stop_past limit hlimit
      omega
    simp [hstop, hlast]
  | succ k =>
    have hmove : step ≤ (k + 1) * step := Nat.le_mul_of_pos_left step k.succ_pos
    have hlength := forwardStop_le xs.length stop
    rw [if_neg (by omega)]
    rfl

end Places

end Slice

open Slice in
/-- For bounds that do not count from the end and a forward step, a drained
slice and a streaming one are the same list unless the start lies past the end
and no stop before it. Then the streaming slice is empty, and the drained one
has the last element of the source and no other. A word can count the slots of
all sources that can be drained; where there is a stop this is not needed. -/
theorem slices_differ_past_end (history : History pull) {xs : List α}
    (finite : history.elements = Seq.ofList xs) {start step : ℕ} {stop : Option ℕ}
    (start_word : IsWord start) (stop_word : ∀ limit ∈ stop, IsWord limit)
    (step_pos : 0 < step) (step_word : IsWord step) (short : stop = none → IsWord xs.length)
    {budget : ℕ} (enough : xs.length < budget) :
    ∃ (sliced streamed : List α) (store : ω),
      Eager.slice pull (forwardBounds start stop step) budget (history.state 0).1
        (history.state 0).2 = some (.ok sliced, (history.state (xs.length + 1)).2) ∧
      Eager.drained (SubSequence.next pull) budget
        (SubSequence.slice (history.state 0).1 start stop step) (history.state 0).2 =
          some (.ok streamed, store) ∧
      (sliced ≠ streamed ↔ PastEnd xs.length start stop) ∧
      (PastEnd xs.length start stop →
        streamed = [] ∧ ∃ last, xs.getLast? = some last ∧ sliced = [last]) := by
  obtain ⟨sliced, hslice, hsliced⟩ := slice_forward history finite start_word stop_word step_pos
    step_word short enough
  obtain ⟨streamed, store, hdrain, hstreamed⟩ := SubSequence.materialize_eq history finite start
    (SubSequence.room start stop step) step_pos enough
  have hstream : Eager.drained (SubSequence.next pull) budget
      (SubSequence.slice (history.state 0).1 start stop step) (history.state 0).2 =
        some (.ok streamed, store) := by
    rw [SubSequence.slice, positive, dif_pos step_pos]
    simp only [Eager.drained, Run.bind_apply]
    rw [SubSequence.room] at hdrain
    simp [hdrain]
  rw [finite] at hstreamed
  have hcorner : PastEnd xs.length start stop →
      streamed = [] ∧ ∃ last, xs.getLast? = some last ∧ sliced = [last] := by
    intro past
    refine ⟨List.ext_getElem? fun k => (hstreamed k).trans (selected_past step_pos past.2.1 k), ?_⟩
    have hlast := List.getLast?_eq_some_getLast (List.ne_nil_of_length_pos past.1)
    exact ⟨_, hlast, List.ext_getElem? fun k => (hsliced k).trans
      (forward_past step_pos past hlast k)⟩
  refine ⟨sliced, streamed, store, hslice, hstream, ?_, hcorner⟩
  constructor
  · intro differ
    by_contra inside
    refine differ (List.ext_getElem? fun k => ?_)
    rw [hsliced, hstreamed, forward_eq_selected step_pos inside]
  · intro past
    obtain ⟨hnil, last, -, hlast⟩ := hcorner past
    rw [hnil, hlast]
    exact List.cons_ne_nil last []

open Slice in
/-- From behind the end of three elements, and up to a stop that does not cut
the last one off. -/
theorem slices_differ_behind_three :
    let source : Script ℕ := .ofAnswers #[some 1, some 2, some 3] none
    let history := History.ofStep Script.next source ()
    history.elements = Seq.ofList [1, 2, 3] ∧ IsWord 9 ∧ IsWord 5 ∧ 0 < 2 ∧ IsWord 2 ∧ 3 < 4 ∧
      ∃ (sliced streamed : List ℕ),
        Eager.slice (fun script => return script.next) (forwardBounds 9 (some 5) 2) 4 source () =
          some (.ok sliced, (history.state 4).2) ∧
        sliced ≠ streamed ∧ streamed = [] ∧ sliced = [3] := by
  intro source history
  have finite : history.elements = Seq.ofList [1, 2, 3] := History.elements_eq_ofList (by decide)
  have hword : IsWord 9 ∧ IsWord 5 ∧ IsWord 2 := by
    simp [IsWord, Int64.toInt_maxValue]
  obtain ⟨sliced, streamed, store, hslice, -, hdiffer, hcorner⟩ :=
    slices_differ_past_end history finite hword.1
      (fun limit (hlimit : limit ∈ some 5) => Option.some.inj hlimit ▸ hword.2.1)
      (show 0 < 2 by decide) hword.2.2 (by intro hnone; cases hnone) (show 3 < 4 by decide)
  have past : PastEnd 3 9 (some 5) := ⟨by decide, by decide, by simp⟩
  obtain ⟨hnil, last, hlast, hsliced⟩ := hcorner past
  obtain rfl : 3 = last := Option.some.inj hlast
  exact ⟨finite, hword.1, hword.2.1, by decide, hword.2.2, by decide, sliced, streamed, hslice,
    hdiffer.mpr past, hnil, hsliced⟩

end Traversals
