import Traversals.Proofs.Slice.Resolution

/-!
# Bounds without overflow

Of the sums and differences of the resolvers only those in the guards saturate.
The plain ones stand behind guards that have failed, for the start in another
order than for the stop, and what these guards have ruled out keeps them in the
range of words. Operations that refuse to overflow therefore resolve any bound
against any length, and the bounds are the same.
-/

namespace Traversals

namespace Slice

section Operations

variable {m : Type → Type} [Pure m]

/-- The resolver of the start, by given operations in place of the plain ones. -/
def resolveStartBy (add sub : Int64 → Int64 → m Int64) (start : Option Int64)
    (length : Int64) : m Int64 :=
  match start with
  | none => pure 0
  | some start =>
      if saturatingAdd start length < 0 then pure 0
      else if start < 0 then add start length
      else if start > length then sub length 1
      else pure start

/-- The resolver of the stop, by a given operation in place of the plain one. -/
def resolveStopBy (add : Int64 → Int64 → m Int64) (stop : Option Int64) (length : Int64) :
    m Int64 :=
  match stop with
  | none => pure length
  | some stop =>
      if stop > length then pure length
      else if saturatingAdd stop length < 0 then pure (-1)
      else if stop < 0 then add stop length
      else pure stop

variable {add sub : Int64 → Int64 → m Int64}

/-- It does not matter what the operations do when they overflow. -/
lemma resolveStartBy_eq_pure
    (hadd : ∀ a b, InRange (a.toInt + b.toInt) → add a b = pure (a + b))
    (hsub : ∀ a b, InRange (a.toInt - b.toInt) → sub a b = pure (a - b))
    (start : Option Int64) (length : Int64) :
    resolveStartBy add sub start length = pure (resolveStart start length) := by
  cases start with
  | none => rfl
  | some start =>
    simp only [resolveStartBy, resolveStart, gt_iff_lt, Int64.lt_iff_toInt_lt,
      Int64.toInt_zero, saturatingAdd_neg_iff]
    split_ifs with before neg past
    · rfl
    · exact hadd start length (fromEnd_inRange (Int.not_lt.mp before) neg)
    · exact hsub length 1 (lastIndex_inRange (Int.not_lt.mp before))
    · rfl

lemma resolveStopBy_eq_pure
    (hadd : ∀ a b, InRange (a.toInt + b.toInt) → add a b = pure (a + b))
    (stop : Option Int64) (length : Int64) :
    resolveStopBy add stop length = pure (resolveStop stop length) := by
  cases stop with
  | none => rfl
  | some stop =>
    simp only [resolveStopBy, resolveStop, gt_iff_lt, Int64.lt_iff_toInt_lt,
      Int64.toInt_zero, saturatingAdd_neg_iff]
    split_ifs with past before neg
    · rfl
    · rfl
    · exact hadd stop length (fromEnd_inRange (Int.not_lt.mp before) neg)
    · rfl

end Operations

section Checked

/-- The word of an integer, if there is one. -/
def word? (n : Int) : Option Int64 := if InRange n then some (.ofInt n) else none

/-- The exact sum, unless it overflows. -/
def checkedAdd (a b : Int64) : Option Int64 := word? (a.toInt + b.toInt)

/-- The exact difference, unless it overflows. -/
def checkedSub (a b : Int64) : Option Int64 := word? (a.toInt - b.toInt)

lemma word?_eq_some_iff {n : Int} {word : Int64} : word? n = some word ↔ word.toInt = n := by
  constructor
  · intro h
    rw [word?, Option.ite_none_right_eq_some] at h
    obtain ⟨⟨low, high⟩, hword⟩ := h
    rw [← Option.some.inj hword, Int64.toInt_ofInt_of_le low high]
  · rintro rfl
    have range : InRange word.toInt := ⟨word.le_toInt, word.toInt_lt⟩
    rw [word?, if_pos range, Int64.ofInt_toInt]

variable {a b : Int64}

lemma checkedAdd_of_inRange (range : InRange (a.toInt + b.toInt)) :
    checkedAdd a b = some (a + b) := by
  rw [checkedAdd, word?_eq_some_iff]
  exact toInt_add_of_inRange range.1 range.2

lemma checkedSub_of_inRange (range : InRange (a.toInt - b.toInt)) :
    checkedSub a b = some (a - b) := by
  rw [checkedSub, word?_eq_some_iff]
  exact toInt_sub_of_inRange range.1 range.2

end Checked

section Ranges

variable {length : Int64}

lemma resolveStart_range (start : Option Int64) (nonneg : 0 ≤ length.toInt) :
    min 0 (length.toInt - 1) ≤ (resolveStart start length).toInt ∧
      (resolveStart start length).toInt ≤ length.toInt := by
  rw [resolveStart_toInt]
  exact startBound_range_of_nonneg _ nonneg

lemma resolveStop_range (stop : Option Int64) (nonneg : 0 ≤ length.toInt) :
    -1 ≤ (resolveStop stop length).toInt ∧
      (resolveStop stop length).toInt ≤ length.toInt := by
  rw [resolveStop_toInt]
  exact stopBound_range _ nonneg

end Ranges

end Slice

open Slice

/-- The resolvers take their plain sums and differences from the operations of
words. With operations that give nothing where the exact result is no word they
resolve to the same, so none of these overflows, whatever the bound and the length.
What they resolve to is given by the rules in unbounded integers. If the length is
not negative, the stop lies between `-1` and the length, and so does the start,
which is `-1` only if the length is zero. -/
theorem bounds_resolve_exactly (start stop : Option Int64) (length : Int64) :
    (resolveStartBy (m := Id) (· + ·) (· - ·) start length = resolveStart start length ∧
      resolveStopBy (m := Id) (· + ·) stop length = resolveStop stop length) ∧
    (resolveStartBy checkedAdd checkedSub start length = some (resolveStart start length) ∧
      resolveStopBy checkedAdd stop length = some (resolveStop stop length)) ∧
    ((resolveStart start length).toInt = startBound (start.map Int64.toInt) length.toInt ∧
      (resolveStop stop length).toInt = stopBound (stop.map Int64.toInt) length.toInt) ∧
    (0 ≤ length.toInt →
      (-1 ≤ (resolveStart start length).toInt ∧
        (resolveStart start length).toInt ≤ length.toInt ∧
        ((resolveStart start length).toInt = -1 → length.toInt = 0)) ∧
      (-1 ≤ (resolveStop stop length).toInt ∧
        (resolveStop stop length).toInt ≤ length.toInt)) := by
  refine ⟨⟨rfl, rfl⟩, ⟨?_, ?_⟩, ⟨?_, ?_⟩, ?_⟩
  · exact resolveStartBy_eq_pure (fun _ _ => checkedAdd_of_inRange)
      (fun _ _ => checkedSub_of_inRange) start length
  · exact resolveStopBy_eq_pure (fun _ _ => checkedAdd_of_inRange) stop length
  · exact resolveStart_toInt start length
  · exact resolveStop_toInt stop length
  · intro nonneg
    have hstart := resolveStart_range start nonneg
    refine ⟨⟨?_, hstart.2, ?_⟩, resolveStop_range stop nonneg⟩
    · omega
    · omega

/-- From the greatest word to the least one, over as many elements as a word can
count: the guard of the start has to saturate. -/
theorem bounds_resolve_exactly_widest :
    let start := some Int64.maxValue
    let stop := some Int64.minValue
    let length := Int64.maxValue
    0 ≤ length.toInt ∧
      resolveStartBy checkedAdd checkedSub start length = some Int64.maxValue ∧
      resolveStopBy checkedAdd stop length = some (-1) ∧
      (resolveStart start length).toInt ≤ length.toInt ∧
      -1 ≤ (resolveStop stop length).toInt := by
  intro start stop length
  have nonneg : 0 ≤ length.toInt := by decide
  have start_eq : resolveStart start length = Int64.maxValue := by decide
  have stop_eq : resolveStop stop length = -1 := by decide
  obtain ⟨-, ⟨hstart, hstop⟩, -, range⟩ := bounds_resolve_exactly start stop length
  obtain ⟨⟨-, start_le, -⟩, stop_ge, -⟩ := range nonneg
  exact ⟨nonneg, start_eq ▸ hstart, stop_eq ▸ hstop, start_le, stop_ge⟩

end Traversals
