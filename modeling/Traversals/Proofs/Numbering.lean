import Mathlib.Data.ENat.Lattice
import Traversals.Proofs.Hint.Counting
import Traversals.Zip.Enumerate

/-!
# Counting and numbering

The counting numbers end with the greatest count. Whatever number they start
from, each of those that are left comes once, and their hint is the number of
them, but for the one number that no count can give. A numbered traversal asks
the counter first, so it pulls its input once for each row and once for its end,
and leaves it alone when there is no number left.
-/

namespace Traversals

open Stream' (Seq)

variable {ω τ α : Type}

namespace Integers

/-- The numbers from a given one on. There are none behind the greatest count. -/
def upFrom (n : ℕ) : Integers := ⟨if n ≤ countCeiling then some n else none⟩

lemma startingAt_eq {start : ℕ} (h : start ≤ countCeiling) : startingAt start = upFrom start := by
  rw [upFrom, if_pos h, startingAt]

lemma next_upFrom (n : ℕ) : (upFrom n).next = ((upFrom n).next?, upFrom (n + 1)) := by
  rcases Nat.lt_trichotomy n countCeiling with hlt | rfl | hgt
  · simp [upFrom, next, hlt, hlt.le]
  · simp [upFrom, next]
  · simp [upFrom, next, hgt.not_ge, (hgt.trans n.lt_succ_self).not_ge]

lemma left_upFrom (n : ℕ) : (upFrom n).left = countCeiling + 1 - n := by
  by_cases h : n ≤ countCeiling
  · simp only [upFrom, if_pos h, left]
    omega
  · simp only [upFrom, if_neg h, left]
    omega

/-- Only one number of elements is too great to be given. -/
lemma hint_eq (counter : Integers) :
    counter.hint = if counter.left ≤ countCeiling then .exactly counter.left else .uncountable := by
  obtain ⟨_ | n⟩ := counter
  · rfl
  · rfl

lemma counting_state {start : ℕ} (h : start ≤ countCeiling) (n : ℕ) :
    ((History.ofStep next (startingAt start) ()).state n).1 = upFrom (start + n) := by
  induction n with
  | zero => exact startingAt_eq h
  | succ n ih =>
    rw [History.ofStep_state_succ, ih, next_upFrom, add_assoc]

lemma counting_answer {start : ℕ} (h : start ≤ countCeiling) (n : ℕ) :
    (History.ofStep next (startingAt start) ()).answer n = (upFrom (start + n)).next? := by
  rw [History.ofStep_answer, counting_state h, next_upFrom]

end Integers

namespace Enumerate

/-- The row at a place: the element there with the place as its number, if
there are both. -/
def rowAt (elements : Seq α) (k : ℕ) : Option (Indexed α) :=
  if k ≤ countCeiling then (elements.get? k).map fun x => ⟨k, x⟩ else none

lemma rowAt_succ {elements : Seq α} {k : ℕ} (h : rowAt elements k = none) :
    rowAt elements (k + 1) = none := by
  rw [rowAt] at h ⊢
  split
  · rw [if_pos (by omega), Option.map_eq_none_iff] at h
    rw [Seq.le_stable _ k.le_succ h, Option.map_none]
  · rfl

/-- The pulls that all rows and the end of the input take together. -/
noncomputable def cost (elements : Seq α) : ℕ∞ := min (elements.length' + 1) (countCeiling + 1 : ℕ)

section Numbering

variable {pull : Pull ω τ α} {history : History pull} {n : ℕ} {stage : Enumerate τ}
  {last : ω × ℕ}

/-- A numbered traversal after `n` pulls: it has given a row for each, or it
has ended by the input or by the counter. -/
inductive Numbering (history : History pull) (n : ℕ) : Enumerate τ → ω × ℕ → Prop
  | going (reached : history.Reached n) (countable : n ≤ countCeiling + 1) :
      Numbering history n ⟨.upFrom n, (history.state n).1, false⟩ ((history.state n).2, n)
  | ended {stage : Enumerate τ} {calls : ℕ} (exhausted : stage.exhausted = true)
      (calls_le : calls ≤ n) (calls_eq : (calls : ℕ∞) = cost history.elements)
      (behind : rowAt history.elements n = none) :
      Numbering history n stage ((history.state calls).2, calls)

lemma Numbering.start (history : History pull) :
    Numbering history 0 (.ofTraversal (history.state 0).1) ((history.state 0).2, 0) :=
  .going history.reached_zero (Nat.zero_le _)

/-- With a number for it, the next element of the input is pulled. -/
lemma next_inside (reached : history.Reached n) (inside : n ≤ countCeiling) :
    Enumerate.next (counted pull) ⟨.upFrom n, (history.state n).1, false⟩
        ((history.state n).2, n) =
      some ((rowAt history.elements n,
        ⟨.upFrom (n + 1), (history.state (n + 1)).1, (history.elements.get? n).isNone⟩),
        ((history.state (n + 1)).2, n + 1)) := by
  have hcounter : (Integers.upFrom n).next = (some n, .upFrom (n + 1)) := by
    rw [Integers.next_upFrom, Integers.upFrom, if_pos inside]
  have hpull : counted pull (history.state n).1 ((history.state n).2, n) =
      some ((history.elements.get? n, (history.state (n + 1)).1),
        ((history.state (n + 1)).2, n + 1)) := by
    rw [← reached.answer_eq]
    exact history.counting.pulled n
  rw [rowAt, if_pos inside]
  cases hx : history.elements.get? n with
  | none => simp [Enumerate.next, hcounter, Run.bind_apply, hpull, hx]
  | some x => simp [Enumerate.next, hcounter, Run.bind_apply, hpull, hx]

/-- Without a number nothing is pulled. -/
lemma next_outside (outside : countCeiling < n) (input : τ) (store : ω × ℕ) :
    Enumerate.next (counted pull) ⟨.upFrom n, input, false⟩ store =
      some ((none, ⟨.upFrom (n + 1), input, true⟩), store) := by
  have hcounter : (Integers.upFrom n).next = (none, .upFrom (n + 1)) := by
    rw [Integers.next_upFrom, Integers.upFrom, if_neg outside.not_ge]
  simp [Enumerate.next, hcounter]

lemma Numbering.next (numbering : Numbering history n stage last) :
    ∃ answer stage' last', Enumerate.next (counted pull) stage last =
        some ((answer, stage'), last') ∧
      answer = rowAt history.elements n ∧ Numbering history (n + 1) stage' last' := by
  cases numbering with
  | @ended stage calls exhausted calls_le calls_eq behind =>
    refine ⟨none, stage, ((history.state calls).2, calls), ?_, behind.symm, ?_⟩
    · simp [Enumerate.next, exhausted]
    · exact .ended exhausted (calls_le.trans n.le_succ) calls_eq (rowAt_succ behind)
  | going reached countable =>
    rcases Nat.lt_or_ge countCeiling n with outside | inside
    -- The counter ends first, and every row before has cost one pull.
    · have hrow : rowAt history.elements n = none := if_neg outside.not_ge
      have hcost : (n : ℕ∞) = cost history.elements := by
        obtain rfl : n = countCeiling + 1 := by omega
        exact (min_eq_right (reached.le_length'.trans le_self_add)).symm
      exact ⟨none, _, _, next_outside outside _ _, hrow.symm,
        .ended rfl n.le_succ hcost (rowAt_succ hrow)⟩
    · refine ⟨_, _, _, next_inside reached inside, rfl, ?_⟩
      cases hx : history.elements.get? n with
      | some x => exact .going (reached.succ hx) (Nat.succ_le_succ inside)
      | none =>
        -- The input ends first, and its end has cost one pull more.
        have hrow : rowAt history.elements n = none := by
          rw [rowAt, if_pos inside, hx, Option.map_none]
        have hlength : history.elements.length' = n :=
          le_antisymm (Seq.length'_le_iff.mpr hx) reached.le_length'
        have hcost : ((n + 1 : ℕ) : ℕ∞) = cost history.elements := by
          rw [cost, hlength, ← Nat.cast_succ]
          exact (min_eq_left (by exact_mod_cast Nat.succ_le_succ inside)).symm
        exact .ended rfl le_rfl hcost (rowAt_succ hrow)

lemma Numbering.calls_eq (numbering : Numbering history n stage last) :
    (last.2 : ℕ∞) = min (n : ℕ∞) (cost history.elements) := by
  cases numbering with
  | going reached countable =>
    have hlength := reached.le_length'.trans (le_self_add (b := (1 : ℕ∞)))
    exact (min_eq_left (le_min hlength (by exact_mod_cast countable))).symm
  | ended exhausted calls_le calls_eq behind =>
    rw [← calls_eq]
    exact (min_eq_right (by exact_mod_cast calls_le)).symm

lemma Numbering.store_eq (numbering : Numbering history n stage last) :
    last.1 = (history.state last.2).2 := by
  cases numbering <;> rfl

end Numbering

end Enumerate

/-- Numbers are counted from a start up to the greatest count, each once, and
then come only ends; the hint tells how many are left, unless all are. A numbered
traversal answers with each element under its place as long as there are
numbers, and then with ends. It pulls its input once for each row and for the
end after the last one, but not once the numbers have run out. -/
theorem numbering_never_wraps {pull : Pull ω τ α} (history : History pull) :
    (∀ start : UInt64,
      let counting := History.ofStep Integers.next (.startingAt start.toNat) ()
      ∀ n, counting.answer n =
          (if start.toNat + n ≤ countCeiling then some (start.toNat + n) else none) ∧
        ∃ left : ℕ, stepCount Integers.next (counting.state n).1 = left ∧
          left = countCeiling + 1 - (start.toNat + n) ∧
          (counting.state n).1.hint =
            if left = countCeiling + 1 then ⟨countCeiling, none⟩ else ⟨left, some left⟩) ∧
    ∀ count : ℕ, ∃ answers stage store calls,
      pulls (Enumerate.next (counted pull)) count (.ofTraversal (history.state 0).1)
          ((history.state 0).2, 0) = some ((answers, stage), (store, calls)) ∧
      answers.length = count ∧
      (∀ k answer, answers[k]? = some answer → answer =
        if k ≤ countCeiling then (history.elements.get? k).map fun x => ⟨k, x⟩ else none) ∧
      (calls : ℕ∞) =
        min (count : ℕ∞) (min (history.elements.length' + 1) (countCeiling + 1 : ℕ)) ∧
      store = (history.state calls).2 := by
  constructor
  · intro start counting n
    have hstart : start.toNat ≤ countCeiling := Nat.le_of_lt_succ start.toNat_lt
    refine ⟨Integers.counting_answer hstart n, _, Integers.stepCount_eq _, ?_, ?_⟩
    · rw [Integers.counting_state hstart, Integers.left_upFrom]
    · rw [Integers.counting_state hstart, Integers.hint_eq, Integers.left_upFrom]
      split_ifs
      · omega
      · rfl
      · rfl
      · omega
  · intro count
    obtain ⟨answers, stage, ⟨store, calls⟩, hrun, hlength, hanswers, numbering⟩ :=
      pulls_of_step Enumerate.Numbering.next (Enumerate.Numbering.start history) count
    simp only [Nat.zero_add] at hanswers numbering
    exact ⟨answers, stage, store, calls, hrun, hlength, hanswers, numbering.calls_eq,
      numbering.store_eq⟩

example : (pulls (fun counter => return counter.next) 3 (Integers.startingAt (countCeiling - 1))
    ()).map (·.1.1) = some [some (2 ^ 64 - 2), some (2 ^ 64 - 1), none] := by
  rfl

end Traversals
