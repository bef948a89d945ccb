import Mathlib.Algebra.BigOperators.Ring.List
import Mathlib.Data.ENat.Basic
import Mathlib.Data.Seq.Basic
import Mathlib.Data.Set.Function

/-!
# Row-major order

The rows of a product in the order of their numbers. A component advances once
all rows of the components after it have passed, so its position in row `r` is
the quotient of `r` by the number of those rows. Counts may be infinite. As a
natural number such a count is zero, and a quotient by zero is zero and a
remainder by zero the number itself, as it should be: in front of endless rows
a component stays on its first element.
-/

namespace Traversals

open Stream' (Seq)

variable {α : Type}

namespace RowMajor

/-- One row for each choice of an element from every component. -/
noncomputable def rowCount (components : List (Seq α)) : ℕ∞ :=
  (components.map Seq.length').prod

/-- The rows of a product. Without components there is none. -/
noncomputable def rowTotal (components : List (Seq α)) : ℕ∞ :=
  if components = [] then 0 else rowCount components

/-- The number of rows after which a component in front of these advances, zero
if it never does. -/
noncomputable abbrev period (components : List (Seq α)) : ℕ := (rowCount components).toNat

/-- The position of each component in row `r`. -/
noncomputable def positionsAt : List (Seq α) → ℕ → List ℕ
  | [], _ => []
  | X :: rest, r => r / period rest % X.length'.toNat :: positionsAt rest r

noncomputable def rowAt (components : List (Seq α)) (r : ℕ) : List (Option α) :=
  List.zipWith Seq.get? components (positionsAt components r)

/-- A position in each component, the first one wherever the rows of the
components after it are endless. -/
def Combination (components : List (Seq α)) (positions : List ℕ) : Prop :=
  List.Forall₂ (fun X (k : ℕ) => (k : ℕ∞) < X.length') components positions ∧
    ∀ i k, positions[i]? = some k → rowCount (components.drop (i + 1)) = ⊤ → k = 0

/-- What call `r` of a product is to be answered by. -/
def IsAnswer (components : List (Seq α)) (r : ℕ) (answer : Option (List α)) : Prop :=
  ((r : ℕ∞) < rowTotal components → ∃ row, answer = some row ∧
    row.length = components.length ∧ row.map some = rowAt components r) ∧
  (¬ (r : ℕ∞) < rowTotal components → answer = none)

section Count

@[simp] lemma rowCount_nil : rowCount ([] : List (Seq α)) = 1 := rfl

@[simp] lemma rowCount_cons (X : Seq α) (rest : List (Seq α)) :
    rowCount (X :: rest) = X.length' * rowCount rest := List.prod_cons

@[simp] lemma period_nil : period ([] : List (Seq α)) = 1 := by
  rw [period, rowCount_nil, ENat.toNat_one]

lemma period_cons (X : Seq α) (rest : List (Seq α)) :
    period (X :: rest) = period rest * X.length'.toNat := by
  rw [period, rowCount_cons, ENat.toNat_mul, Nat.mul_comm]

@[simp] lemma rowTotal_cons (X : Seq α) (rest : List (Seq α)) :
    rowTotal (X :: rest) = rowCount (X :: rest) := if_neg (List.cons_ne_nil X rest)

lemma rowTotal_eq {components : List (Seq α)} {r : ℕ} (inside : (r : ℕ∞) < rowTotal components) :
    rowTotal components = rowCount components := by
  refine if_neg fun hnil => ?_
  simp [rowTotal, hnil] at inside

/-- One empty component is enough for there to be no row. -/
lemma rowCount_eq_zero_iff {components : List (Seq α)} :
    rowCount components = 0 ↔ Seq.nil ∈ components := by
  simp [rowCount, List.prod_eq_zero_iff]

lemma ne_zero_of_cons {X : Seq α} {rest : List (Seq α)} (h : rowCount (X :: rest) ≠ 0) :
    X.length' ≠ 0 ∧ rowCount rest ≠ 0 := by
  rw [rowCount_cons] at h
  exact ⟨left_ne_zero_of_mul h, right_ne_zero_of_mul h⟩

end Count

section Division

variable {count : ℕ∞} {r : ℕ}

/-- A count that is not zero is endless or a positive number. -/
lemma eq_top_or_pos (h : count ≠ 0) : count = ⊤ ∨ ∃ n : ℕ, 0 < n ∧ count = n := by
  cases count with
  | top => exact Or.inl rfl
  | coe n => exact Or.inr ⟨n, Nat.pos_of_ne_zero fun h0 => h (by simp [h0]), rfl⟩

/-- A row lies inside its component's elements when its quotient does. -/
lemma lt_mul_iff (h : count ≠ 0) (length : ℕ∞) :
    (r : ℕ∞) < length * count ↔ ((r / count.toNat : ℕ) : ℕ∞) < length := by
  obtain rfl | ⟨n, hn, rfl⟩ := eq_top_or_pos h
  · by_cases hlength : length = 0
    · simp [hlength]
    · simp [ENat.mul_top hlength, pos_iff_ne_zero, hlength]
  · cases length with
    | top => simp [ENat.top_mul h]
    | coe m => exact_mod_cast (Nat.div_lt_iff_lt_mul hn).symm

lemma mod_lt (h : count ≠ 0) : ((r % count.toNat : ℕ) : ℕ∞) < count := by
  obtain rfl | ⟨n, hn, rfl⟩ := eq_top_or_pos h
  · simp
  · exact_mod_cast Nat.mod_lt r hn

/-- Within the rows of the components after it, a component stays. -/
lemma succ_inside (inside : ((r % count.toNat + 1 : ℕ) : ℕ∞) < count) :
    (r + 1) / count.toNat = r / count.toNat ∧
      (r + 1) % count.toNat = r % count.toNat + 1 := by
  cases count with
  | top => simp
  | coe n =>
    have hlt : r % n + 1 < n := by exact_mod_cast inside
    have hdiv := Nat.div_add_mod r n
    have hsplit : r + 1 = (r % n + 1) + n * (r / n) := by omega
    have hn : 0 < n := by omega
    rw [ENat.toNat_natCast, hsplit, Nat.add_mul_div_left _ _ hn, Nat.add_mul_mod_self_left,
      Nat.div_eq_of_lt hlt, Nat.mod_eq_of_lt hlt, Nat.zero_add]
    exact ⟨rfl, rfl⟩

/-- After the last of them it advances, and they begin again. -/
lemma succ_carry (h : count ≠ 0) (last : ¬ ((r % count.toNat + 1 : ℕ) : ℕ∞) < count) :
    (r + 1) / count.toNat = r / count.toNat + 1 ∧ (r + 1) % count.toNat = 0 := by
  obtain rfl | ⟨n, hn, rfl⟩ := eq_top_or_pos h
  · exact absurd (ENat.natCast_lt_top _) last
  · have hle : ¬ r % n + 1 < n := by exact_mod_cast last
    have hlt := Nat.mod_lt r hn
    have hdiv := Nat.div_add_mod r n
    have hsplit : r + 1 = n * (r / n + 1) := by rw [Nat.mul_add_one]; omega
    rw [ENat.toNat_natCast, hsplit, Nat.mul_div_cancel_left _ hn, Nat.mul_mod_right]
    exact ⟨rfl, rfl⟩

/-- Behind the last row there is none. -/
lemma outside_succ (outside : ¬ (r : ℕ∞) < count) : ¬ ((r + 1 : ℕ) : ℕ∞) < count := by
  intro inside
  have hlt : (r : ℕ∞) < (r + 1 : ℕ) := by exact_mod_cast Nat.lt_succ_self r
  exact outside (hlt.trans inside)

/-- Row `r` of the block of rows that starts after `k` whole ones. -/
lemma row_of_block {k : ℕ} (hr : (r : ℕ∞) < count) (hzero : count = ⊤ → k = 0) :
    (count.toNat * k + r) / count.toNat = k ∧ (count.toNat * k + r) % count.toNat = r := by
  cases count with
  | top => simp [hzero rfl]
  | coe n =>
    have hlt : r < n := by exact_mod_cast hr
    have hn : 0 < n := by omega
    rw [ENat.toNat_natCast, Nat.mul_add_div hn, Nat.mul_add_mod, Nat.div_eq_of_lt hlt,
      Nat.mod_eq_of_lt hlt, Nat.add_zero]
    exact ⟨rfl, rfl⟩

end Division

section Positions

/-- A row is one of the product when the first component has an element for it. -/
lemma lt_rowCount_cons {X : Seq α} {rest : List (Seq α)} (h : rowCount rest ≠ 0) {r : ℕ} :
    (r : ℕ∞) < rowCount (X :: rest) ↔ ∃ x, X.get? (r / period rest) = some x := by
  rw [rowCount_cons, lt_mul_iff h, Seq.lt_length'_iff]
  rfl

/-- Whole rounds of rows leave the positions as they are. -/
lemma positionsAt_mod (components : List (Seq α)) {round : ℕ}
    (hround : period components ∣ round) (r : ℕ) :
    positionsAt components (r % round) = positionsAt components r := by
  induction components with
  | nil => rfl
  | cons X rest ih =>
    rw [period_cons] at hround
    obtain ⟨times, rfl⟩ := hround
    have hhead : r % (period rest * X.length'.toNat * times) /
        period rest % X.length'.toNat = r / period rest % X.length'.toNat := by
      rw [Nat.mul_assoc, Nat.mod_mul_right_div_self]
      exact Nat.mod_mod_of_dvd _ (Nat.dvd_mul_right _ _)
    have hrest := ih ⟨X.length'.toNat * times, Nat.mul_assoc _ _ _⟩
    rw [positionsAt, positionsAt, hhead, hrest]

/-- In a row of the product the first component needs no remainder, and the
others are where they are in a row of theirs. -/
lemma positionsAt_cons {X : Seq α} {rest : List (Seq α)} {r : ℕ}
    (inside : (r : ℕ∞) < rowCount (X :: rest)) :
    positionsAt (X :: rest) r = r / period rest ::
      positionsAt rest (r % period rest) := by
  obtain ⟨-, hrest⟩ := ne_zero_of_cons (ne_bot_of_gt inside)
  rw [rowCount_cons, lt_mul_iff hrest] at inside
  rw [positionsAt, positionsAt_mod rest dvd_rfl]
  congr 1
  cases h : X.length' with
  | top => simp
  | coe n =>
    rw [h] at inside
    exact Nat.mod_eq_of_lt (by exact_mod_cast inside)

@[simp] lemma length_positionsAt (components : List (Seq α)) (r : ℕ) :
    (positionsAt components r).length = components.length := by
  induction components with
  | nil => rfl
  | cons X rest ih => simp [positionsAt, ih]

@[simp] lemma length_rowAt (components : List (Seq α)) (r : ℕ) :
    (rowAt components r).length = components.length := by
  simp [rowAt]

lemma rowAt_cons {X : Seq α} {rest : List (Seq α)} {r : ℕ}
    (inside : (r : ℕ∞) < rowCount (X :: rest)) :
    rowAt (X :: rest) r = X.get? (r / period rest) ::
      rowAt rest (r % period rest) := by
  rw [rowAt, positionsAt_cons inside]
  rfl

/-- A row of the components after it, behind an element of the first. -/
lemma row_cons {X : Seq α} {rest : List (Seq α)} (h : rowCount rest ≠ 0) {r : ℕ} {x : α}
    (current : X.get? (r / period rest) = some x) {entries : List α}
    (entries_eq : entries.map some = rowAt rest (r % period rest)) :
    (r : ℕ∞) < rowCount (X :: rest) ∧ (x :: entries).map some = rowAt (X :: rest) r := by
  have inside := (lt_rowCount_cons h).mpr ⟨x, current⟩
  refine ⟨inside, ?_⟩
  rw [rowAt_cons inside, current, List.map_cons, entries_eq]

/-- Without an element of the first component there is no row. -/
lemma outside_cons {X : Seq α} {rest : List (Seq α)} (h : rowCount rest ≠ 0) {r : ℕ}
    (missing : X.get? (r / period rest) = none) : ¬ (r : ℕ∞) < rowCount (X :: rest) := by
  intro inside
  obtain ⟨x, current⟩ := (lt_rowCount_cons h).mp inside
  rw [missing] at current
  cases current

section Single

variable {X : Seq α} {r : ℕ}

/-- The rows of one component are its elements. -/
lemma lt_rowCount_single : (r : ℕ∞) < rowCount [X] ↔ ∃ x, X.get? r = some x := by
  have hone : rowCount ([] : List (Seq α)) ≠ 0 := by simp
  simpa using lt_rowCount_cons hone

lemma row_single {x : α} (current : X.get? r = some x) :
    (r : ℕ∞) < rowCount [X] ∧ [x].map some = rowAt [X] r := by
  have inside := lt_rowCount_single.mpr ⟨x, current⟩
  refine ⟨inside, ?_⟩
  rw [rowAt_cons inside, period_nil, Nat.div_one, current]
  rfl

lemma outside_single (missing : X.get? r = none) : ¬ (r : ℕ∞) < rowCount [X] := by
  intro inside
  obtain ⟨x, current⟩ := lt_rowCount_single.mp inside
  rw [missing] at current
  cases current

end Single

end Positions

section Combinations

lemma combination_nil {positions : List ℕ} :
    Combination ([] : List (Seq α)) positions ↔ positions = [] := by
  constructor
  · rintro ⟨hwithin, -⟩
    exact List.forall₂_nil_left_iff.mp hwithin
  · rintro rfl
    exact ⟨.nil, by simp⟩

lemma combination_cons {X : Seq α} {rest : List (Seq α)} {k : ℕ} {positions : List ℕ} :
    Combination (X :: rest) (k :: positions) ↔
      ((k : ℕ∞) < X.length' ∧ (rowCount rest = ⊤ → k = 0)) ∧ Combination rest positions := by
  constructor
  · rintro ⟨hwithin, hstays⟩
    obtain ⟨hk, hrest⟩ := List.forall₂_cons.mp hwithin
    exact ⟨⟨hk, hstays 0 k rfl⟩, hrest, fun i => hstays (i + 1)⟩
  · rintro ⟨⟨hk, hzero⟩, hrest, hstays⟩
    refine ⟨.cons hk hrest, fun i l hl htop => ?_⟩
    cases i with
    | zero =>
      obtain rfl : k = l := by simpa using hl
      exact hzero htop
    | succ i => exact hstays i l hl htop

/-- Every row is a combination. -/
lemma combination_positionsAt {components : List (Seq α)} {r : ℕ}
    (inside : (r : ℕ∞) < rowCount components) :
    Combination components (positionsAt components r) := by
  induction components generalizing r with
  | nil => exact combination_nil.mpr rfl
  | cons X rest ih =>
    obtain ⟨-, hrest⟩ := ne_zero_of_cons (ne_bot_of_gt inside)
    rw [positionsAt_cons inside]
    rw [rowCount_cons, lt_mul_iff hrest] at inside
    refine combination_cons.mpr ⟨⟨inside, fun htop => ?_⟩, ih (mod_lt hrest)⟩
    simp [htop]

/-- Two rows are not the same combination. -/
lemma positionsAt_injective {components : List (Seq α)} {r r' : ℕ}
    (inside : (r : ℕ∞) < rowCount components) (inside' : (r' : ℕ∞) < rowCount components)
    (same : positionsAt components r = positionsAt components r') : r = r' := by
  induction components generalizing r r' with
  | nil =>
    rw [rowCount_nil] at inside inside'
    norm_cast at inside inside'
    omega
  | cons X rest ih =>
    obtain ⟨-, hrest⟩ := ne_zero_of_cons (ne_bot_of_gt inside)
    rw [positionsAt_cons inside, positionsAt_cons inside'] at same
    obtain ⟨hdiv, htail⟩ := List.cons.inj same
    have hmod := ih (mod_lt hrest) (mod_lt hrest) htail
    rw [← Nat.div_add_mod r (period rest), hdiv, hmod, Nat.div_add_mod]

/-- No combination is left out. -/
lemma exists_row {components : List (Seq α)} {positions : List ℕ}
    (combination : Combination components positions) :
    ∃ r : ℕ, (r : ℕ∞) < rowCount components ∧ positionsAt components r = positions := by
  induction components generalizing positions with
  | nil =>
    obtain rfl := combination_nil.mp combination
    exact ⟨0, by simp, rfl⟩
  | cons X rest ih =>
    cases positions with
    | nil => cases combination.1
    | cons k positions =>
      obtain ⟨⟨hk, hzero⟩, hcombination⟩ := combination_cons.mp combination
      obtain ⟨r, hr, hpositions⟩ := ih hcombination
      have hrest : rowCount rest ≠ 0 := ne_bot_of_gt hr
      obtain ⟨hdiv, hmod⟩ := row_of_block hr hzero
      have inside : ((period rest * k + r : ℕ) : ℕ∞) < rowCount (X :: rest) := by
        rw [rowCount_cons, lt_mul_iff hrest, hdiv]
        exact hk
      -- Endless rows below force the first block, whose number is zero.
      refine ⟨_, inside, ?_⟩
      rw [positionsAt_cons inside, hdiv, hmod, hpositions]

/-- Every combination is found in exactly one row. -/
lemma positionsAt_bijOn (components : List (Seq α)) :
    Set.BijOn (positionsAt components) {r | (r : ℕ∞) < rowCount components}
      {positions | Combination components positions} := by
  refine ⟨fun r hr => combination_positionsAt hr, ?_, fun positions h => exists_row h⟩
  intro r hr r' hr' same
  exact positionsAt_injective hr hr' same

end Combinations

section Answers

lemma IsAnswer.row {components : List (Seq α)} {r : ℕ}
    (inside : (r : ℕ∞) < rowTotal components) {row : List α}
    (row_eq : row.map some = rowAt components r) : IsAnswer components r (some row) := by
  have hlength := congrArg List.length row_eq
  simp only [List.length_map, length_rowAt] at hlength
  exact ⟨fun _ => ⟨row, rfl, hlength, row_eq⟩, fun outside => absurd inside outside⟩

lemma IsAnswer.none {components : List (Seq α)} {r : ℕ}
    (outside : ¬ (r : ℕ∞) < rowTotal components) :
    IsAnswer components r (.none : Option (List α)) :=
  ⟨fun inside => absurd inside outside, fun _ => rfl⟩

/-- No call has two answers. -/
lemma IsAnswer.unique {components : List (Seq α)} {r : ℕ} {answer answer' : Option (List α)}
    (h : IsAnswer components r answer) (h' : IsAnswer components r answer') :
    answer = answer' := by
  by_cases inside : (r : ℕ∞) < rowTotal components
  · obtain ⟨row, rfl, -, row_eq⟩ := h.1 inside
    obtain ⟨row', rfl, -, row_eq'⟩ := h'.1 inside
    rw [List.map_injective_iff.mpr (Option.some_injective α) (row_eq.trans row_eq'.symm)]
  · rw [h.2 inside, h'.2 inside]

end Answers

end RowMajor

end Traversals
