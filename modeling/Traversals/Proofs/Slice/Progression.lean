import Mathlib.Data.Rat.Floor
import Traversals.Eager.Checked
import Traversals.Proofs.Drained
import Traversals.Proofs.Slice.Resolution

/-!
# The progression of a slice

A walk over a resolved slice yields the start, the start plus the step and so
on, up to the last one that lies before the stop in the direction of the step.
All of them are indices of the source, and no two are the same, so the elements
can be taken out of their slots one by one.
-/

namespace Traversals

namespace Slice

/-- Strictly before the stop, seen in the direction of the step. -/
def Before (step stop position : Int) : Prop :=
  if 0 < step then position < stop else stop < position

/-- The number of positions from a start on that lie before the stop. -/
def stepsBefore (step stop start : Int) : Nat := ⌈((stop - start : Int) : ℚ) / step⌉.toNat

/-- The positions from a start on that lie before the stop are the first ones. -/
lemma lt_stepsBefore_iff {step : Int} (nonzero : step ≠ 0) (stop start : Int) (i : Nat) :
    i < stepsBefore step stop start ↔ Before step stop (start + i * step) := by
  have hcast : ((i : Int) : ℚ) = i := by simp
  rw [stepsBefore, Int.lt_toNat, Int.lt_ceil, hcast, Before]
  rcases lt_or_gt_of_ne nonzero with neg | pos
  · have hneg : (step : ℚ) < 0 := by exact_mod_cast neg
    rw [if_neg (by omega), lt_div_iff_of_neg hneg]
    have hint : ((stop - start : Int) : ℚ) < i * step ↔ stop - start < i * step := by
      exact_mod_cast Iff.rfl
    rw [hint]
    omega
  · have hpos : (0 : ℚ) < step := by exact_mod_cast pos
    rw [if_pos pos, lt_div_iff₀ hpos]
    have hint : (i * step : ℚ) < ((stop - start : Int) : ℚ) ↔ i * step < stop - start := by
      exact_mod_cast Iff.rfl
    rw [hint]
    omega

lemma stepsBefore_of_not_before {step stop start : Int} (nonzero : step ≠ 0)
    (h : ¬ Before step stop start) : stepsBefore step stop start = 0 := by
  have hzero := lt_stepsBefore_iff nonzero stop start 0
  simp only [Nat.cast_zero, zero_mul, add_zero] at hzero
  rw [iff_false_right h] at hzero
  omega

lemma stepsBefore_of_before {step stop start : Int} (nonzero : step ≠ 0)
    (h : Before step stop start) :
    stepsBefore step stop start = stepsBefore step stop (start + step) + 1 := by
  have shift : ∀ i : Nat, i < stepsBefore step stop (start + step) ↔
      i + 1 < stepsBefore step stop start := by
    intro i
    rw [lt_stepsBefore_iff nonzero, lt_stepsBefore_iff nonzero]
    have hsum : start + step + i * step = start + ((i + 1 : Nat) : Int) * step := by
      push_cast
      ring
    rw [hsum]
  have hpos : 0 < stepsBefore step stop start :=
    (lt_stepsBefore_iff nonzero stop start 0).mpr (by simpa using h)
  have hlow := shift (stepsBefore step stop start - 1)
  have hhigh := shift (stepsBefore step stop (start + step))
  omega

/-- Positions before the stop are indices, if the first one lies on the right
side of the source. -/
lemma Before.inside {step stop start length : Int} {i : Nat}
    (h : Before step stop (start + i * step)) (nonzero : step ≠ 0) (stop_low : -1 ≤ stop)
    (stop_high : stop ≤ length) (low : 0 < step → 0 ≤ start)
    (high : step < 0 → start < length) :
    0 ≤ start + i * step ∧ start + i * step < length := by
  unfold Before at h
  rcases lt_or_gt_of_ne nonzero with neg | pos
  · rw [if_neg (by omega)] at h
    have hstart := high neg
    have hmove : (i : Int) * step ≤ 0 := Int.mul_nonpos_of_nonneg_of_nonpos (by omega) neg.le
    omega
  · rw [if_pos pos] at h
    have hstart := low pos
    have hmove : 0 ≤ (i : Int) * step := Int.mul_nonneg (by omega) pos.le
    omega

end Slice

open Slice

namespace SliceIndices

variable {walk : SliceIndices} {position : Int}

lemma beforeStop_iff (walk : SliceIndices) (here : Int64) :
    walk.beforeStop here = true ↔ Before walk.step.toInt walk.stop.toInt here.toInt := by
  unfold beforeStop Before
  simp only [gt_iff_lt, Int64.lt_iff_toInt_lt, Int64.toInt_zero]
  split <;> simp

/-- A position that a walk answers with: before its stop, and an index. -/
def Allows (walk : SliceIndices) (position : Int) : Prop :=
  Before walk.step.toInt walk.stop.toInt position ∧ 0 ≤ position ∧ position < walk.length.toInt

lemma next_allowed (allowed : walk.Allows walk.here.toInt) :
    walk.next = (some walk.here.toInt.toNat,
      { walk with current := saturatingAdd walk.here walk.step }) := by
  obtain ⟨before, nonneg, inside⟩ := allowed
  have hstop : walk.beforeStop walk.here = true := (beforeStop_iff walk walk.here).mpr before
  have hnotneg : ¬ walk.here < 0 := by
    rw [Int64.lt_iff_toInt_lt, Int64.toInt_zero]
    omega
  have hnotpast : ¬ walk.length ≤ walk.here := by
    rw [Int64.le_iff_toInt_le]
    omega
  simp [next, hstop, hnotneg, hnotpast]

lemma next_refused (refused : ¬ walk.Allows walk.here.toInt) :
    walk.next = (none, { walk with current := walk.here }) := by
  have hstop : (!walk.beforeStop walk.here || walk.here < 0 || walk.length ≤ walk.here) = true := by
    by_contra going
    simp only [Bool.or_eq_true, Bool.not_eq_true', decide_eq_true_eq, not_or, Bool.not_eq_false,
      beforeStop_iff, Int64.lt_iff_toInt_lt, Int64.le_iff_toInt_le, Int64.toInt_zero] at going
    exact refused ⟨going.1.1, by omega, by omega⟩
  simp only [next]
  rw [if_pos hstop]

/-- Positions that have left the range of words are not allowed, nor are those
they are drawn to. -/
lemma allows_clampWord_iff : walk.Allows (clampWord position) ↔ walk.Allows position := by
  have hlength := walk.length.toInt_lt
  by_cases word : clampWord position = position
  · rw [word]
  · rw [clampWord] at word ⊢
    constructor
    · rintro ⟨-, low, high⟩
      omega
    · rintro ⟨-, low, high⟩
      omega

/-- A position that is allowed is a word. -/
lemma clampWord_of_allows (allowed : walk.Allows position) : clampWord position = position := by
  obtain ⟨-, low, high⟩ := allowed
  have hlength := walk.length.toInt_lt
  rw [clampWord]
  omega

/-- A backward walk that has answered stands below the length, so it is not
drawn back again. -/
lemma here_moved (allowed : walk.Allows walk.here.toInt) :
    { walk with current := saturatingAdd walk.here walk.step }.here.toInt =
      clampWord (walk.here.toInt + walk.step.toInt) := by
  obtain ⟨-, nonneg, inside⟩ := allowed
  have hsum := saturatingAdd_toInt walk.here walk.step
  rw [here, if_neg, hsum]
  rintro ⟨hneg, hpast⟩
  rw [Int64.lt_iff_toInt_lt, Int64.toInt_zero] at hneg
  rw [Int64.le_iff_toInt_le, hsum, clampWord] at hpast
  simp only at hneg hpast
  omega

/-- A walk as a slice resolved against a known length leaves it. -/
structure Resolved (walk : SliceIndices) : Prop where
  nonzero : walk.step.toInt ≠ 0
  nonneg : 0 ≤ walk.length.toInt
  stop_low : -1 ≤ walk.stop.toInt
  stop_high : walk.stop.toInt ≤ walk.length.toInt

/-- The walk stands at a position, which may have left the range of words. On
the side where it started it has not left the source. -/
structure StandsAt (walk : SliceIndices) (position : Int) : Prop where
  here_eq : walk.here.toInt = clampWord position
  low : 0 < walk.step.toInt → 0 ≤ position
  high : walk.step.toInt < 0 → position < walk.length.toInt

/-- Positions before the stop are indices. -/
lemma StandsAt.inside (stands : walk.StandsAt position) (resolved : walk.Resolved)
    (before : Before walk.step.toInt walk.stop.toInt position) :
    0 ≤ position ∧ position < walk.length.toInt := by
  have first : Before walk.step.toInt walk.stop.toInt (position + (0 : Nat) * walk.step.toInt) := by
    simpa using before
  simpa using first.inside resolved.nonzero resolved.stop_low resolved.stop_high stands.low
    stands.high

lemma StandsAt.allows_iff (stands : walk.StandsAt position) :
    walk.Allows walk.here.toInt ↔ walk.Allows position := by
  rw [stands.here_eq]
  exact allows_clampWord_iff

lemma StandsAt.next_none (stands : walk.StandsAt position)
    (h : ¬ Before walk.step.toInt walk.stop.toInt position) : walk.next.1 = none := by
  rw [next_refused (mt stands.allows_iff.mp fun allowed => h allowed.1)]

/-- Before the stop, the walk yields its position and moves on by the step. -/
lemma StandsAt.next_some (stands : walk.StandsAt position) (resolved : walk.Resolved)
    (h : Before walk.step.toInt walk.stop.toInt position) :
    ∃ walk', walk.next = (some position.toNat, walk') ∧
      walk'.StandsAt (position + walk.step.toInt) ∧ walk'.Resolved ∧
      walk'.step = walk.step ∧ walk'.stop = walk.stop := by
  have inside := stands.inside resolved h
  have hhere : walk.here.toInt = position := stands.here_eq.trans (clampWord_of_allows ⟨h, inside⟩)
  have allowed := stands.allows_iff.mpr ⟨h, inside⟩
  have hmoved := here_moved allowed
  rw [hhere] at hmoved
  refine ⟨{ walk with current := saturatingAdd walk.here walk.step },
    by rw [next_allowed allowed, hhere], ⟨hmoved, ?_, ?_⟩,
    ⟨resolved.nonzero, resolved.nonneg, resolved.stop_low, resolved.stop_high⟩, rfl, rfl⟩
  · intro pos
    simp only at pos
    omega
  · intro neg
    simp only at neg ⊢
    omega

/-- An empty source has no index, so a walk over it ends at once. -/
lemma next_of_length_zero (empty : walk.length.toInt = 0) : walk.next.1 = none := by
  rw [next_refused]
  rintro ⟨-, nonneg, inside⟩
  omega

end SliceIndices

namespace Slice

/-- Where a walk begins: a backward one at the last index, if it would begin
past it. -/
def startIndex (start : Option Int) (step length : Int) : Int :=
  if step < 0 ∧ length ≤ startBound start length then length - 1 else startBound start length

lemma startIndex_range (start : Option Int) (step : Int) {length : Int} (pos : 0 < length) :
    0 ≤ startIndex start step length ∧ startIndex start step length ≤ length ∧
      (step < 0 → startIndex start step length < length) := by
  have hrange := startBound_range start pos
  unfold startIndex
  split <;> omega

/-- The indices of a progression. -/
def progression (step stop start : Int) : List Nat :=
  (List.range (stepsBefore step stop start)).map fun i : Nat => (start + i * step).toNat

lemma progression_of_not_before {step stop start : Int} (nonzero : step ≠ 0)
    (h : ¬ Before step stop start) : progression step stop start = [] := by
  rw [progression, stepsBefore_of_not_before nonzero h]
  rfl

lemma progression_of_before {step stop start : Int} (nonzero : step ≠ 0)
    (h : Before step stop start) :
    progression step stop start = start.toNat :: progression step stop (start + step) := by
  rw [progression, stepsBefore_of_before nonzero h, List.range_succ_eq_map, List.map_cons,
    List.map_map]
  congr 1
  · simp
  · refine List.map_congr_left fun i _ => congrArg Int.toNat ?_
    rw [Nat.cast_succ]
    ring

section Progression

variable {step stop start : Int} {length : Nat} (nonzero : step ≠ 0) (stop_low : -1 ≤ stop)
  (stop_high : stop ≤ length) (low : 0 < step → 0 ≤ start) (high : step < 0 → start < length)

include nonzero stop_low stop_high low high

lemma progression_getElem {i : Nat} (hi : i < (progression step stop start).length) :
    ((progression step stop start)[i] : Int) = start + i * step := by
  have hbefore := (lt_stepsBefore_iff nonzero stop start i).mp (by simpa [progression] using hi)
  have hinside := hbefore.inside nonzero stop_low stop_high low high
  simp [progression, hinside.1]

lemma lt_of_mem_progression {index : Nat} (h : index ∈ progression step stop start) :
    index < length := by
  obtain ⟨i, hi, rfl⟩ := List.getElem_of_mem h
  have hget := progression_getElem nonzero stop_low stop_high low high hi
  have hbefore := (lt_stepsBefore_iff nonzero stop start i).mp (by simpa [progression] using hi)
  have hinside := hbefore.inside nonzero stop_low stop_high low high
  omega

lemma progression_nodup : (progression step stop start).Nodup := by
  rw [List.Nodup, List.pairwise_iff_getElem]
  intro i j hi hj hlt heq
  have hfirst := progression_getElem nonzero stop_low stop_high low high hi
  have hsecond := progression_getElem nonzero stop_low stop_high low high hj
  have hmul : (i : Int) * step = j * step := by omega
  have hsame : (i : Int) = j := Int.eq_of_mul_eq_mul_right nonzero hmul
  omega

/-- No index is visited twice, so there are no more of them than elements. -/
lemma length_progression_le : (progression step stop start).length ≤ length := by
  have hsub : progression step stop start ⊆ List.range length := fun index h =>
    List.mem_range.mpr (lt_of_mem_progression nonzero stop_low stop_high low high h)
  have distinct := progression_nodup nonzero stop_low stop_high low high
  have hle := (List.subperm_of_subset distinct hsub).length_le
  rwa [List.length_range] at hle

end Progression

end Slice

namespace SliceIndices

variable {ω α : Type} {walk : SliceIndices} {position : Int}

/-- Before the end of a walk, all that are left of its indices are distinct. -/
lemma StandsAt.nodup (stands : walk.StandsAt position) (resolved : walk.Resolved) :
    (progression walk.step.toInt walk.stop.toInt position).Nodup := by
  obtain ⟨length, hlength⟩ := Int.eq_ofNat_of_zero_le resolved.nonneg
  have stop_high : walk.stop.toInt ≤ length := hlength ▸ resolved.stop_high
  have high : walk.step.toInt < 0 → position < length := hlength ▸ stands.high
  exact progression_nodup resolved.nonzero resolved.stop_low stop_high stands.low high

/-- A walk takes out of their slots the elements at the indices of its
progression. No slot is asked twice, so none of them is found empty. -/
lemma StandsAt.takeSlots {xs : List α} (stands : walk.StandsAt position)
    (resolved : walk.Resolved) {slots : Array (Option α)}
    (full : ∀ index ∈ progression walk.step.toInt walk.stop.toInt position,
      ∃ x, slots[index]? = some (some x) ∧ xs[index]? = some x)
    {budget : Nat}
    (enough : (progression walk.step.toInt walk.stop.toInt position).length < budget)
    (store : ω) :
    ∃ taken, Eager.takeSlots budget slots walk store = some (taken, store) ∧
      taken.map some =
        (progression walk.step.toInt walk.stop.toInt position).map (xs[·]?) := by
  induction budget generalizing walk position slots with
  | zero => omega
  | succ budget ih =>
    by_cases before : Before walk.step.toInt walk.stop.toInt position
    · obtain ⟨walk', hnext, stands', resolved', hstep, hstop⟩ := stands.next_some resolved before
      have distinct := stands.nodup resolved
      rw [progression_of_before resolved.nonzero before] at full enough distinct ⊢
      obtain ⟨fresh, -⟩ := List.nodup_cons.mp distinct
      obtain ⟨x, hslot, hx⟩ := full position.toNat List.mem_cons_self
      rw [← hstep, ← hstop] at full enough fresh ⊢
      have left : ∀ index ∈ progression walk'.step.toInt walk'.stop.toInt
          (position + walk'.step.toInt), ∃ x,
          (slots.setIfInBounds position.toNat none)[index]? = some (some x) ∧
            xs[index]? = some x := by
        intro index h
        have other : position.toNat ≠ index := fun same => fresh (same ▸ h)
        rw [Array.getElem?_setIfInBounds_ne other]
        exact full index (List.mem_cons_of_mem _ h)
      obtain ⟨taken, hrest, htaken⟩ := ih (hstep ▸ stands') resolved' left
        (Nat.lt_of_succ_lt_succ enough)
      refine ⟨x :: taken, ?_, by rw [List.map_cons, htaken, List.map_cons, hx]⟩
      simp [Eager.takeSlots, hnext, hslot, Run.map_apply, hrest]
    · have hnext : walk.next = (none, walk.next.2) := Prod.ext (stands.next_none before) rfl
      rw [progression_of_not_before resolved.nonzero before]
      refine ⟨[], ?_, rfl⟩
      rw [Eager.takeSlots, hnext]
      rfl

/-- Over an empty source nothing is taken. -/
lemma takeSlots_of_length_zero (empty : walk.length.toInt = 0) (budget : Nat)
    (slots : Array (Option α)) (store : ω) :
    Eager.takeSlots (budget + 1) slots walk store = some ([], store) := by
  have hnext : walk.next = (none, walk.next.2) := Prod.ext (next_of_length_zero empty) rfl
  rw [Eager.takeSlots, hnext]
  rfl

end SliceIndices

namespace Slice

variable {α : Type}

/-- A slice that was resolved begins its walk at the start of its progression. -/
lemma indices_stand {slice : ResolvedSlice} {start stop : Option Int} {length : Int}
    (pos : 0 < length) (length_eq : slice.length.toInt = length)
    (start_eq : slice.start.toInt = startBound start length)
    (stop_eq : slice.stop.toInt = stopBound stop length) (nonzero : slice.step.toInt ≠ 0) :
    slice.indices.Resolved ∧
      slice.indices.StandsAt (startIndex start slice.step.toInt length) := by
  have hstart := startBound_range start pos
  have hindex := startIndex_range start slice.step.toInt pos
  have hstop := stopBound_range stop pos.le
  have hword := slice.length.toInt_lt
  constructor
  · refine ⟨nonzero, ?_, ?_, ?_⟩ <;> simp only [ResolvedSlice.indices] <;> omega
  · refine ⟨?_, fun _ => hindex.1, fun neg => ?_⟩
    · have hlast := toInt_sub_of_inRange (a := slice.length) (b := 1)
        (by rw [Int64.toInt_one]; omega) (by rw [Int64.toInt_one]; omega)
      rw [Int64.toInt_one] at hlast
      have hclamp : clampWord (startIndex start slice.step.toInt length) =
          startIndex start slice.step.toInt length := by
        rw [clampWord]
        omega
      rw [hclamp]
      simp only [SliceIndices.here, ResolvedSlice.indices, startIndex, Int64.lt_iff_toInt_lt,
        Int64.le_iff_toInt_le, Int64.toInt_zero, length_eq, start_eq]
      split
      · rw [hlast, length_eq]
      · exact start_eq
    · rw [show slice.indices.length = slice.length from rfl, length_eq]
      exact hindex.2.2 neg

/-- What a resolved slice takes from a source that is not empty. -/
lemma takeSlots_resolved {ω : Type} (bounds : SliceBounds) {xs : List α} (pos : 0 < xs.length)
    (nonzero : bounds.step ≠ some 0) {budget : Nat} (enough : xs.length < budget) (store : ω) :
    ∃ slice taken, bounds.resolve xs.length = .ok slice ∧
      Eager.takeSlots budget (xs.map some).toArray slice.indices store = some (taken, store) ∧
      taken.map some =
        (progression ((bounds.step.map Int64.toInt).getD 1)
          (stopBound (bounds.stop.map Int64.toInt) (countable xs.length))
          (startIndex (bounds.start.map Int64.toInt)
            ((bounds.step.map Int64.toInt).getD 1) (countable xs.length))).map (xs[·]?) := by
  have hcount := countable_range pos
  obtain ⟨slice, hresolve, length_eq, start_eq, stop_eq, step_eq⟩ :=
    resolve_counted bounds xs.length nonzero
  have hnonzero := step_toInt_ne_zero nonzero
  rw [← step_eq] at hnonzero ⊢
  rw [← stop_eq]
  obtain ⟨resolved, stands⟩ :=
    indices_stand (Int.natCast_pos.mpr hcount.1) length_eq start_eq stop_eq hnonzero
  have stop_high : slice.stop.toInt ≤ countable xs.length := length_eq ▸ resolved.stop_high
  have high := length_eq ▸ stands.high
  have hle := length_progression_le resolved.nonzero resolved.stop_low stop_high stands.low high
  have full : ∀ index ∈ progression slice.step.toInt slice.stop.toInt
      (startIndex (bounds.start.map Int64.toInt) slice.step.toInt (countable xs.length)),
      ∃ x, (xs.map some).toArray[index]? = some (some x) ∧ xs[index]? = some x := by
    intro index h
    have hlt := (lt_of_mem_progression resolved.nonzero resolved.stop_low stop_high stands.low
      high h).trans_le hcount.2
    exact ⟨xs[index], by simp [hlt], List.getElem?_eq_getElem hlt⟩
  obtain ⟨taken, htake, htaken⟩ := stands.takeSlots resolved full
    (hle.trans_lt (hcount.2.trans_lt enough)) store
  exact ⟨slice, taken, hresolve, htake, htaken⟩

/-- A slice of a drained source, where bounds are drawn to the part of its length
that a word can count. -/
lemma slice_counted {ω τ : Type} {pull : Pull ω τ α} (history : History pull) {xs : List α}
    (finite : history.elements = Stream'.Seq.ofList xs) (bounds : SliceBounds)
    (nonzero : bounds.step ≠ some 0) {budget : Nat} (enough : xs.length < budget) :
    ∃ taken,
      Eager.slice pull bounds budget (history.state 0).1 (history.state 0).2 =
        some (.ok taken, (history.state (xs.length + 1)).2) ∧
      (xs = [] → taken = []) ∧
      (xs ≠ [] → taken.map some =
        (progression ((bounds.step.map Int64.toInt).getD 1)
          (stopBound (bounds.stop.map Int64.toInt) (countable xs.length))
          (startIndex (bounds.start.map Int64.toInt)
            ((bounds.step.map Int64.toInt).getD 1) (countable xs.length))).map (xs[·]?)) := by
  have hdrain := History.materialize_eq finite enough
  have hslice : ∀ {slice taken}, bounds.resolve xs.length = .ok slice →
      Eager.takeSlots budget (xs.map some).toArray slice.indices
        (history.state (xs.length + 1)).2 = some (taken, (history.state (xs.length + 1)).2) →
      Eager.slice pull bounds budget (history.state 0).1 (history.state 0).2 =
        some (.ok taken, (history.state (xs.length + 1)).2) := by
    intro slice taken hresolve htake
    simp [Eager.slice, resolveStep_eq_ok nonzero, Run.bind_apply, Run.map_apply, hdrain,
      hresolve, htake]
  rcases Nat.eq_zero_or_pos xs.length with empty | pos
  · obtain ⟨slice, hresolve, length_eq, -⟩ := resolve_counted bounds xs.length nonzero
    have length_zero : slice.indices.length.toInt = 0 := by
      rw [show slice.indices.length = slice.length from rfl, length_eq, empty]
      rfl
    obtain ⟨budget, rfl⟩ := Nat.exists_eq_add_of_lt enough
    refine ⟨[], hslice hresolve (SliceIndices.takeSlots_of_length_zero length_zero _ _ _),
      fun _ => rfl, fun h => absurd (List.length_eq_zero_iff.mp empty) h⟩
  · obtain ⟨slice, taken, hresolve, htake, htaken⟩ :=
      takeSlots_resolved bounds pos nonzero enough (history.state (xs.length + 1)).2
    exact ⟨taken, hslice hresolve htake, fun h => absurd h (List.ne_nil_of_length_pos pos),
      fun _ => htaken⟩

end Slice

open Stream' (Seq) in
/-- A slice of a drained source takes exactly the elements of its progression:
the start, the bounds and the count are those of unbounded integers. -/
theorem slice_selects_progression {ω τ α : Type} {pull : Pull ω τ α} (history : History pull)
    {xs : List α} (finite : history.elements = Seq.ofList xs)
    (short : (xs.length : Int) ≤ Int64.maxValue.toInt) (bounds : SliceBounds)
    (nonzero : bounds.step ≠ some 0) {budget : Nat} (enough : xs.length < budget) :
    let length : Int := xs.length
    let step := (bounds.step.map Int64.toInt).getD 1
    let start := startIndex (bounds.start.map Int64.toInt) step length
    let stop := stopBound (bounds.stop.map Int64.toInt) length
    ∃ selected,
      Eager.slice pull bounds budget (history.state 0).1 (history.state 0).2 =
        some (.ok selected, (history.state (xs.length + 1)).2) ∧
      (xs = [] → selected = []) ∧
      (xs ≠ [] → ∃ indices : List Nat,
        selected.map some = indices.map (xs[·]?) ∧
        (∀ i (hi : i < indices.length), (indices[i] : Int) = start + i * step) ∧
        (∀ i : Nat, i < indices.length ↔
          if 0 < step then start + i * step < stop else stop < start + i * step) ∧
        (∀ index ∈ indices, index < xs.length) ∧ indices.Nodup ∧
        (indices.length : Int) = max 0 ⌈((stop - start : Int) : ℚ) / step⌉) := by
  intro length step start stop
  have hstep : step ≠ 0 := step_toInt_ne_zero nonzero
  obtain ⟨taken, hslice, hnil, htaken⟩ := slice_counted history finite bounds nonzero enough
  rw [countable_eq short] at htaken
  refine ⟨taken, hslice, hnil, fun nonempty => ?_⟩
  have hlength : 0 < xs.length := List.length_pos_iff.mpr nonempty
  have hstop := stopBound_range (bounds.stop.map Int64.toInt) (show 0 ≤ length by omega)
  have hstart := startIndex_range (bounds.start.map Int64.toInt) step (show 0 < length by omega)
  have low : 0 < step → 0 ≤ start := fun _ => hstart.1
  refine ⟨progression step stop start, htaken nonempty, fun i hi => progression_getElem hstep
    hstop.1 hstop.2 low hstart.2.2 hi, ?_, fun index h => lt_of_mem_progression hstep hstop.1
    hstop.2 low hstart.2.2 h, progression_nodup hstep hstop.1 hstop.2 low hstart.2.2, ?_⟩
  · intro i
    rw [← Before, ← lt_stepsBefore_iff hstep]
    simp [progression]
  · simp only [progression, List.length_map, List.length_range, stepsBefore]
    omega

open Stream' (Seq) in
/-- A backward slice from past the end, of a script that resumes after its end. -/
theorem slice_selects_backwards :
    let source : Script Nat :=
      .ofAnswers #[some 10, some 20, some 30, some 40, some 50, none, some 60] none
    let history := History.ofStep Script.next source ()
    let bounds : SliceBounds := ⟨some 9, some (-10), some (-3)⟩
    history.elements = Seq.ofList [10, 20, 30, 40, 50] ∧
      (5 : Int) ≤ Int64.maxValue.toInt ∧ bounds.step ≠ some 0 ∧ 5 < 6 ∧
      ∃ selected, Eager.slice (fun script => return script.next) bounds 6 source () =
        some (.ok selected, (history.state 6).2) ∧ selected.length = 2 := by
  intro source history bounds
  have finite : history.elements = Seq.ofList [10, 20, 30, 40, 50] :=
    History.elements_eq_ofList (by decide)
  refine ⟨finite, by decide, by decide, by decide, ?_⟩
  obtain ⟨selected, hslice, -, hindices⟩ :=
    slice_selects_progression history finite (by decide) bounds (by decide)
      (show 5 < 6 by decide)
  obtain ⟨indices, hselected, -, hcount, -⟩ := hindices (by simp)
  have hone := (hcount 1).mpr (by decide)
  have htwo := mt (hcount 2).mp (by decide)
  have hlength := congrArg List.length hselected
  simp only [List.length_map] at hlength
  exact ⟨selected, hslice, by omega⟩

end Traversals
