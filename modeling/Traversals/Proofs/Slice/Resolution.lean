import Mathlib.Algebra.Ring.Int.Defs
import Mathlib.Tactic.Lemma
import Mathlib.Tactic.SplitIfs
import Traversals.Slice.Bounds

/-!
# Resolved bounds as integers

The resolution of a start and a stop, said in unbounded integers. The words
that the resolver computes with are these integers, whatever the bounds and the
length; only the guards have to saturate.
-/

namespace Traversals

namespace Slice

/-- An absent or too negative start is the first index, any other negative one
counts from the end, and one past the end is drawn back to the last index. -/
def startBound (start : Option Int) (length : Int) : Int :=
  match start with
  | none => 0
  | some start =>
      if start + length < 0 then 0
      else if start < 0 then start + length
      else if start > length then length - 1
      else start

/-- An absent or too great stop is the length, and a stop before the first
element is `-1`. -/
def stopBound (stop : Option Int) (length : Int) : Int :=
  match stop with
  | none => length
  | some stop =>
      if stop > length then length
      else if stop + length < 0 then -1
      else if stop < 0 then stop + length
      else stop

/-- An integer in the range of words. -/
def InRange (n : Int) : Prop := -2 ^ 63 ≤ n ∧ n < 2 ^ 63

instance (n : Int) : Decidable (InRange n) := inferInstanceAs (Decidable (_ ∧ _))

/-- An integer drawn into the range of words. -/
def clampWord (n : Int) : Int := max (-2 ^ 63) (min n (2 ^ 63 - 1))

lemma toInt_add_of_inRange {a b : Int64} (low : -2 ^ 63 ≤ a.toInt + b.toInt)
    (high : a.toInt + b.toInt < 2 ^ 63) : (a + b).toInt = a.toInt + b.toInt := by
  rw [Int64.toInt_add]
  exact Int.bmod_eq_of_le (by omega) (by omega)

lemma toInt_sub_of_inRange {a b : Int64} (low : -2 ^ 63 ≤ a.toInt - b.toInt)
    (high : a.toInt - b.toInt < 2 ^ 63) : (a - b).toInt = a.toInt - b.toInt := by
  rw [Int64.toInt_sub]
  exact Int.bmod_eq_of_le (by omega) (by omega)

lemma saturatingAdd_toInt (a b : Int64) :
    (saturatingAdd a b).toInt = clampWord (a.toInt + b.toInt) := by
  simp only [saturatingAdd, clampWord, Int64.toInt_maxValue, Int64.toInt_minValue]
  split
  · rw [Int64.toInt_maxValue]
    omega
  · split
    · rw [Int64.toInt_minValue]
      omega
    · rw [toInt_add_of_inRange (by omega) (by omega)]
      omega

/-- The guards only look at the sign of the sum, which saturation keeps. -/
lemma saturatingAdd_neg_iff (a b : Int64) :
    (saturatingAdd a b).toInt < 0 ↔ a.toInt + b.toInt < 0 := by
  rw [saturatingAdd_toInt, clampWord]
  omega

/-- A negative bound that its guard has kept counts from the end and stays below
the length. -/
lemma fromEnd_inRange {bound length : Int64} (kept : 0 ≤ bound.toInt + length.toInt)
    (neg : bound.toInt < 0) : InRange (bound.toInt + length.toInt) := by
  have hlength := length.toInt_lt
  rw [InRange]
  omega

/-- If its guard has kept any start, the length is not the least word. -/
lemma lastIndex_inRange {start length : Int64} (kept : 0 ≤ start.toInt + length.toInt) :
    InRange (length.toInt - 1) := by
  have hstart := start.toInt_lt
  have hlength := length.toInt_lt
  rw [InRange]
  omega

lemma resolveStart_toInt (start : Option Int64) (length : Int64) :
    (resolveStart start length).toInt = startBound (start.map Int64.toInt) length.toInt := by
  cases start with
  | none => rfl
  | some start =>
    simp only [resolveStart, startBound, Option.map_some, gt_iff_lt, Int64.lt_iff_toInt_lt,
      Int64.toInt_zero, saturatingAdd_neg_iff]
    split_ifs with before neg past
    · rfl
    · obtain ⟨low, high⟩ := fromEnd_inRange (Int.not_lt.mp before) neg
      exact toInt_add_of_inRange low high
    · obtain ⟨low, high⟩ := lastIndex_inRange (Int.not_lt.mp before)
      exact toInt_sub_of_inRange low high
    · rfl

lemma resolveStop_toInt (stop : Option Int64) (length : Int64) :
    (resolveStop stop length).toInt = stopBound (stop.map Int64.toInt) length.toInt := by
  cases stop with
  | none => rfl
  | some stop =>
    simp only [resolveStop, stopBound, Option.map_some, gt_iff_lt, Int64.lt_iff_toInt_lt,
      Int64.toInt_zero, saturatingAdd_neg_iff]
    split_ifs with past before neg
    · rfl
    · rfl
    · obtain ⟨low, high⟩ := fromEnd_inRange (Int.not_lt.mp before) neg
      exact toInt_add_of_inRange low high
    · rfl

/-- The part of a length that a word can count. -/
def countable (length : Nat) : Nat := min length Int64.maxValue.toInt.toNat

lemma countable_eq {length : Nat} (short : (length : Int) ≤ Int64.maxValue.toInt) :
    countable length = length := by
  rw [countable]
  omega

lemma countable_range {length : Nat} (pos : 0 < length) :
    0 < countable length ∧ countable length ≤ length := by
  have hmax := Int64.toInt_maxValue
  rw [countable]
  omega

lemma lengthWord_toInt (length : Nat) : (lengthWord length).toInt = countable length := by
  have hmax := Int64.toInt_maxValue
  rw [lengthWord, countable]
  split
  · rw [Int64.toInt_ofNat_of_lt (by omega)]
    omega
  · omega

lemma resolveStep_eq_ok {step : Option Int64} (nonzero : step ≠ some 0) :
    resolveStep step = .ok (step.getD 1) := by
  cases step with
  | none => rfl
  | some step =>
    have hstep : step ≠ 0 := fun h => nonzero (congrArg some h)
    simp [resolveStep, hstep]

lemma step_toInt (step : Option Int64) :
    (step.getD 1).toInt = (step.map Int64.toInt).getD 1 := by
  cases step <;> simp

lemma step_toInt_ne_zero {step : Option Int64} (nonzero : step ≠ some 0) :
    (step.map Int64.toInt).getD 1 ≠ 0 := by
  cases step with
  | none => simp
  | some step =>
    intro h
    exact nonzero (congrArg some (Int64.toInt_inj.mp (h.trans Int64.toInt_zero.symm)))

/-- What a resolved slice holds, in integers. Only a zero step is refused. A
length that is too long for a word counts as the greatest word. -/
lemma resolve_counted (bounds : SliceBounds) (length : Nat) (nonzero : bounds.step ≠ some 0) :
    ∃ slice, bounds.resolve length = .ok slice ∧ slice.length.toInt = countable length ∧
      slice.start.toInt = startBound (bounds.start.map Int64.toInt) (countable length) ∧
      slice.stop.toInt = stopBound (bounds.stop.map Int64.toInt) (countable length) ∧
      slice.step.toInt = (bounds.step.map Int64.toInt).getD 1 := by
  have hlength := lengthWord_toInt length
  refine ⟨_, by rw [SliceBounds.resolve, resolveStep_eq_ok nonzero], hlength, ?_, ?_, ?_⟩
  · exact hlength ▸ resolveStart_toInt bounds.start (lengthWord length)
  · exact hlength ▸ resolveStop_toInt bounds.stop (lengthWord length)
  · exact step_toInt bounds.step

lemma stopBound_range (stop : Option Int) {length : Int} (nonneg : 0 ≤ length) :
    -1 ≤ stopBound stop length ∧ stopBound stop length ≤ length := by
  cases stop with
  | none => exact ⟨by simp only [stopBound]; omega, Int.le_refl _⟩
  | some stop =>
    simp only [stopBound]
    split_ifs <;> omega

/-- Only the last index of an empty source lies before the first one. -/
lemma startBound_range_of_nonneg (start : Option Int) {length : Int} (nonneg : 0 ≤ length) :
    min 0 (length - 1) ≤ startBound start length ∧ startBound start length ≤ length := by
  cases start with
  | none =>
    simp only [startBound]
    omega
  | some start =>
    simp only [startBound]
    split_ifs <;> omega

lemma startBound_range (start : Option Int) {length : Int} (pos : 0 < length) :
    0 ≤ startBound start length ∧ startBound start length ≤ length := by
  have hrange := startBound_range_of_nonneg start (Int.le_of_lt pos)
  omega

end Slice

end Traversals
