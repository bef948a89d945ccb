import Traversals.Proofs.Slice.Progression

/-!
# Walks over any slice

The fields of a resolved slice may be any words, since a slice can also be read
from a text. A walk over it goes from place to place by the step, and answers
as long as the places lie before the stop and are indices. At the first place
that does not, it has ended for good. With a step of zero it stays where it is.
-/

namespace Traversals

open Slice

namespace SliceIndices

/-- Where the walk stands, in unbounded integers. -/
def place (walk : SliceIndices) : ℤ :=
  if walk.step.toInt < 0 ∧ walk.length.toInt ≤ walk.current.toInt then walk.length.toInt - 1
  else walk.current.toInt

/-- The last index is a word for all lengths but the least word. -/
lemma here_toInt {walk : SliceIndices} (length_ne : walk.length ≠ Int64.minValue) :
    walk.here.toInt = walk.place := by
  have hlow : -2 ^ 63 < walk.length.toInt := by
    have hword := walk.length.le_toInt
    have hne := mt Int64.toInt_inj.mp length_ne
    rw [Int64.toInt_minValue] at hne
    omega
  have hhigh := walk.length.toInt_lt
  simp only [here, place, Int64.lt_iff_toInt_lt, Int64.le_iff_toInt_le, Int64.toInt_zero]
  split
  · exact toInt_sub_of_inRange (by rw [Int64.toInt_one]; omega) (by rw [Int64.toInt_one]; omega)
  · rfl

lemma clampWord_toInt (word : Int64) : clampWord word.toInt = word.toInt := by
  have hlow := word.le_toInt
  have hhigh := word.toInt_lt
  rw [clampWord]
  omega

/-- The place after so many moves. -/
def placeAfter (origin : SliceIndices) (n : ℕ) : ℤ := origin.place + n * origin.step.toInt

/-- A later state of a walk, at a place that may have left the range of words. -/
structure Reaches (origin : SliceIndices) (position : ℤ) (walk : SliceIndices) : Prop where
  here_eq : walk.here.toInt = clampWord position
  step_eq : walk.step = origin.step
  stop_eq : walk.stop = origin.stop
  length_eq : walk.length = origin.length

section Steps

variable {origin walk : SliceIndices} {position : ℤ}

lemma reaches_place (length_ne : walk.length ≠ Int64.minValue) : walk.Reaches walk.place walk := by
  refine ⟨?_, rfl, rfl, rfl⟩
  rw [← here_toInt length_ne, clampWord_toInt]

lemma Reaches.allows_iff (reaches : origin.Reaches position walk) :
    walk.Allows walk.here.toInt ↔ origin.Allows position := by
  rw [reaches.here_eq, allows_clampWord_iff, Allows, Allows, reaches.step_eq, reaches.stop_eq,
    reaches.length_eq]

/-- At a place that is allowed the walk answers with it and moves on. -/
lemma Reaches.next_allowed (reaches : origin.Reaches position walk)
    (allowed : origin.Allows position) :
    walk.next.1 = some position.toNat ∧
      origin.Reaches (position + origin.step.toInt) walk.next.2 := by
  have hhere : walk.here.toInt = position := reaches.here_eq.trans (clampWord_of_allows allowed)
  have hallowed := reaches.allows_iff.mpr allowed
  have hmoved := here_moved hallowed
  rw [hhere, reaches.step_eq] at hmoved
  rw [SliceIndices.next_allowed hallowed, hhere, reaches.step_eq]
  exact ⟨rfl, hmoved, rfl, reaches.stop_eq, reaches.length_eq⟩

lemma here_settled (walk : SliceIndices) : { walk with current := walk.here }.here = walk.here := by
  simp only [here]
  split_ifs <;> rfl

/-- At any other place it ends, and stays where it is. -/
lemma Reaches.next_refused (reaches : origin.Reaches position walk)
    (refused : ¬ origin.Allows position) :
    walk.next.1 = none ∧ origin.Reaches position walk.next.2 := by
  rw [SliceIndices.next_refused (mt reaches.allows_iff.mp refused)]
  refine ⟨rfl, ?_, reaches.step_eq, reaches.stop_eq, reaches.length_eq⟩
  rw [here_settled, reaches.here_eq]

end Steps

section Run

/-- All calls of a walk, from its first state on. -/
def history (origin : SliceIndices) :
    History (fun walk => return walk.next : Pull Unit SliceIndices ℕ) :=
  .ofStep next origin ()

variable {origin : SliceIndices}

lemma state_succ (n : ℕ) :
    (origin.history.state (n + 1)).1 = (origin.history.state n).1.next.2 :=
  History.ofStep_state_succ next origin () n

lemma placeAfter_succ (n : ℕ) :
    origin.placeAfter (n + 1) = origin.placeAfter n + origin.step.toInt := by
  rw [placeAfter, placeAfter, Nat.cast_succ, add_mul, one_mul, add_assoc]

/-- After `n` calls the walk has moved `n` times, or stands where it was refused. -/
lemma state_cases (start : origin.Reaches origin.place origin) (n : ℕ) :
    (∀ m < n, origin.Allows (origin.placeAfter m)) ∧
        origin.Reaches (origin.placeAfter n) (origin.history.state n).1 ∨
      ∃ m < n, ¬ origin.Allows (origin.placeAfter m) ∧
        origin.Reaches (origin.placeAfter m) (origin.history.state n).1 := by
  induction n with
  | zero =>
    refine .inl ⟨fun m hm => absurd hm m.not_lt_zero, ?_⟩
    rw [placeAfter, Nat.cast_zero, zero_mul, add_zero]
    exact start
  | succ n ih =>
    rw [state_succ]
    rcases ih with ⟨before, reaches⟩ | ⟨m, hm, refused, reaches⟩
    · by_cases allowed : origin.Allows (origin.placeAfter n)
      · left
        rw [placeAfter_succ]
        refine ⟨fun m hm => ?_, (reaches.next_allowed allowed).2⟩
        rcases Nat.lt_succ_iff_lt_or_eq.mp hm with hlt | rfl
        · exact before m hlt
        · exact allowed
      · exact .inr ⟨n, n.lt_succ_self, allowed, (reaches.next_refused allowed).2⟩
    -- Once refused it stands at the same place, where it is refused again.
    · exact .inr ⟨m, hm.trans n.lt_succ_self, refused, (reaches.next_refused refused).2⟩

lemma exists_reaches (start : origin.Reaches origin.place origin) (n : ℕ) :
    ∃ position, origin.Reaches position (origin.history.state n).1 := by
  rcases state_cases start n with ⟨-, reaches⟩ | ⟨m, -, -, reaches⟩
  · exact ⟨_, reaches⟩
  · exact ⟨_, reaches⟩

/-- A call is answered if all places up to its own are allowed. -/
lemma answer_eq_some_iff (start : origin.Reaches origin.place origin) {n index : ℕ} :
    origin.history.answer n = some index ↔
      (∀ m ≤ n, origin.Allows (origin.placeAfter m)) ∧ (index : ℤ) = origin.placeAfter n := by
  have hanswer : origin.history.answer n = (origin.history.state n).1.next.1 :=
    History.ofStep_answer next origin () n
  rw [hanswer]
  rcases state_cases start n with ⟨before, reaches⟩ | ⟨m, hm, refused, reaches⟩
  · by_cases allowed : origin.Allows (origin.placeAfter n)
    · have nonneg := allowed.2.1
      rw [(reaches.next_allowed allowed).1, Option.some_inj]
      constructor
      · rintro rfl
        refine ⟨fun m hm => ?_, Int.toNat_of_nonneg nonneg⟩
        rcases Nat.lt_or_eq_of_le hm with hlt | rfl
        · exact before m hlt
        · exact allowed
      · rintro ⟨-, hindex⟩
        omega
    · rw [(reaches.next_refused allowed).1]
      simp only [reduceCtorEq, false_iff, not_and]
      exact fun all => absurd (all n le_rfl) allowed
  · rw [(reaches.next_refused refused).1]
    simp only [reduceCtorEq, false_iff, not_and]
    exact fun all => absurd (all m hm.le) refused

/-- A walk that moves leaves the places that are allowed. -/
lemma exists_refused (moving : origin.step.toInt ≠ 0) :
    ∃ n, ¬ origin.Allows (origin.placeAfter n) := by
  obtain ⟨n, hn⟩ : ∃ n : ℕ, n = origin.place.natAbs + origin.length.toInt.toNat + 1 := ⟨_, rfl⟩
  refine ⟨n, fun allowed => ?_⟩
  obtain ⟨-, low, high⟩ := allowed
  rw [placeAfter] at low high
  -- Each move goes at least one place, so these many moves pass the first or the last index.
  rcases lt_or_gt_of_ne moving with neg | pos
  · have hmove : (n : ℤ) * origin.step.toInt ≤ n * -1 :=
      mul_le_mul_of_nonneg_left (by omega) (Int.natCast_nonneg n)
    omega
  · have hmove : (n : ℤ) * 1 ≤ n * origin.step.toInt :=
      mul_le_mul_of_nonneg_left (by omega) (Int.natCast_nonneg n)
    omega

/-- The calls that are answered are the first ones. -/
lemma exists_count (start : origin.Reaches origin.place origin) (moving : origin.step.toInt ≠ 0) :
    ∃ count, ∀ n, (origin.history.answer n).isSome ↔ n < count := by
  classical
  have refused := exists_refused moving
  refine ⟨Nat.find refused, fun n => ?_⟩
  rw [Nat.lt_find_iff, Option.isSome_iff_exists]
  simp only [answer_eq_some_iff start, not_not]
  constructor
  · rintro ⟨index, before, -⟩
    exact before
  · intro before
    exact ⟨(origin.placeAfter n).toNat, before, Int.toNat_of_nonneg (before n le_rfl).2.1⟩

/-- A walk that does not move stays at its first place. -/
lemma answer_standing (start : origin.Reaches origin.place origin)
    (standing : origin.step.toInt = 0) {n index : ℕ} :
    origin.history.answer n = some index ↔
      origin.Allows origin.place ∧ (index : ℤ) = origin.place := by
  have hplace (m : ℕ) : origin.placeAfter m = origin.place := by
    rw [placeAfter, standing, mul_zero, add_zero]
  rw [answer_eq_some_iff start]
  simp only [hplace]
  exact and_congr_left fun _ => ⟨fun all => all n le_rfl, fun allowed _ _ => allowed⟩

end Run

end SliceIndices

open SliceIndices in
/-- A walk over any resolved slice answers with indices below its length, each
a step further than the one before, and all before its stop. If it moves, it
ends after finitely many calls and stays ended. The numbers it computes with are
those of unbounded integers. If it does not move, it never answers, or always
with the same index. -/
theorem index_walk_safe (slice : ResolvedSlice) (length_ne : slice.length ≠ Int64.minValue) :
    let walk := slice.indices.history
    let step := slice.step.toInt
    (∀ n index, walk.answer n = some index → (index : ℤ) < slice.length.toInt) ∧
    (∀ n index later, walk.answer n = some index → walk.answer (n + 1) = some later →
      (later : ℤ) = index + step) ∧
    (0 < step → ∀ n index, walk.answer n = some index → (index : ℤ) < slice.stop.toInt) ∧
    (step < 0 → ∀ n index, walk.answer n = some index → slice.stop.toInt < index) ∧
    (step ≠ 0 → ∃ count, ∀ n, (walk.answer n).isSome ↔ n < count) ∧
    (∀ n, (walk.state n).1.here.toInt = (walk.state n).1.place) ∧
    (step = 0 → (∀ n, walk.answer n = none) ∨
      ∃ index : ℕ, (index : ℤ) < slice.length.toInt ∧ ∀ n, walk.answer n = some index) := by
  intro walk step
  have start : slice.indices.Reaches slice.indices.place slice.indices := reaches_place length_ne
  have answered : ∀ {n index}, walk.answer n = some index →
      slice.indices.Allows index ∧ (index : ℤ) = slice.indices.placeAfter n := by
    intro n index hanswer
    obtain ⟨before, hindex⟩ := (answer_eq_some_iff start).mp hanswer
    exact ⟨hindex ▸ before n le_rfl, hindex⟩
  refine ⟨fun n index hanswer => (answered hanswer).1.2.2, ?_, ?_, ?_, exists_count start, ?_, ?_⟩
  · intro n index later hanswer hlater
    rw [(answered hanswer).2, (answered hlater).2, placeAfter_succ]
    rfl
  · intro pos n index hanswer
    have before := (answered hanswer).1.1
    rwa [Before, if_pos (show 0 < slice.indices.step.toInt from pos)] at before
  · intro neg n index hanswer
    have before := (answered hanswer).1.1
    rwa [Before, if_neg (show ¬ 0 < slice.indices.step.toInt from neg.not_gt)] at before
  · intro n
    obtain ⟨position, reaches⟩ := exists_reaches start n
    exact here_toInt (reaches.length_eq.trans_ne length_ne)
  · intro standing
    by_cases allowed : slice.indices.Allows slice.indices.place
    · have hindex := Int.toNat_of_nonneg allowed.2.1
      refine .inr ⟨slice.indices.place.toNat, hindex.trans_lt allowed.2.2, fun n => ?_⟩
      exact (answer_standing start standing).mpr ⟨allowed, hindex⟩
    · refine .inl fun n => Option.eq_none_iff_forall_ne_some.mpr fun index hanswer => ?_
      exact allowed ((answer_standing start standing).mp hanswer).1

/-- Backward from the greatest word to the least one, by threes over five elements. -/
theorem index_walk_safe_backwards :
    let slice : ResolvedSlice := ⟨Int64.maxValue, Int64.minValue, -3, 5⟩
    let walk := slice.indices.history
    slice.length ≠ Int64.minValue ∧ walk.answer 0 = some 4 ∧ walk.answer 1 = some 1 ∧
      (∀ n index, walk.answer n = some index → (index : ℤ) < 5) ∧
      ∀ n, 2 ≤ n → walk.answer n = none := by
  intro slice walk
  have length_ne : slice.length ≠ Int64.minValue := by decide
  obtain ⟨below, -, -, -, ends, -⟩ := index_walk_safe slice length_ne
  obtain ⟨count, answered⟩ := ends (by decide)
  have hcount := mt (answered 2).mpr (show ¬ (walk.answer 2).isSome by decide)
  refine ⟨length_ne, by decide, by decide, below, fun n hn => ?_⟩
  have hnone := mt (answered n).mp (by omega)
  simpa using hnone

end Traversals
