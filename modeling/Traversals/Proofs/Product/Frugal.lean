import Mathlib.Data.Finset.Card
import Traversals.Proofs.Product.RowMajor
import Traversals.Proofs.Product.Watched

/-!
# The least work for a row

The journal of a balanced product tells how often each component has been
started and asked. On a row, one traversal of each component is in use, so
every other one of them has been asked for its end; the counts follow from the
last component upwards. Once nothing is in use any more they follow from the
first component downwards.
-/

namespace Traversals

open Stream' (Seq)
open RowMajor (rowCount rowTotal period)

variable {τ α : Type}

/-- What the traversals of each component have been asked for by a number of
calls: no element before a row needs it and none twice. -/
structure Frugal (components : List (Seq α)) (calls : ℕ) (journal : Journal) : Prop where
  row : ∀ r, calls = r + 1 → (r : ℕ∞) < rowTotal components → ∀ c < components.length,
    journal.delivered c = r / period (components.drop (c + 1)) + 1 ∧
      journal.ended c = r / period (components.drop c)
  drained : rowTotal components < calls → ∀ c < components.length,
    (journal.delivered c : ℕ∞) = rowCount (components.take (c + 1)) ∧
      ((journal.pulled c).card : ℕ∞) = rowCount (components.take c) ∧
      ∀ k ∈ journal.pulled c, journal.endsOf c k = 1

section Numbers

variable {β : Type} {number : β → ℕ}

lemma Numbered.count_map {i : ℕ} {list : List β} (numbered : Numbered number i list) (c : ℕ) :
    (list.map number).count c = if i ≤ c ∧ c < i + list.length then 1 else 0 := by
  induction list generalizing i with
  | nil => simp
  | cons x rest ih =>
    obtain ⟨rfl, hrest⟩ := numbered
    rw [List.map_cons, List.count_cons, ih hrest, List.length_cons]
    by_cases hc : number x = c
    · simp [hc]
    · have hlt : number x ≤ c ↔ number x + 1 ≤ c := by omega
      simp [hc, hlt, Nat.add_comm, Nat.add_left_comm]

lemma numbered_zipIdx (list : List β) (i : ℕ) : Numbered Prod.snd i (list.zipIdx i) := by
  induction list generalizing i with
  | nil => trivial
  | cons x rest ih => exact ⟨rfl, ih (i + 1)⟩

end Numbers

section Lengths

variable {components : List (Seq α)} {c : ℕ}

lemma period_drop (hc : c < components.length) :
    period (components.drop c) =
      period (components.drop (c + 1)) * (lengthAt components c).toNat := by
  rw [List.drop_eq_getElem_cons hc, RowMajor.period_cons, lengthAt,
    List.getElem?_eq_getElem hc]
  rfl

lemma rowCount_take (hc : c < components.length) :
    rowCount (components.take (c + 1)) = rowCount (components.take c) * lengthAt components c := by
  rw [← List.take_append_getElem hc, rowCount, List.map_append, List.prod_append, lengthAt,
    List.getElem?_eq_getElem hc]
  simp [rowCount]

end Lengths

/-- One traversal of each component, which has delivered something. -/
def InUse (components : List (Seq α)) (first : ℕ) (used : List (Watched τ × Seq α)) : Prop :=
  Numbered (fun entry => entry.1.component) first used ∧
    List.Forall₂ (fun X entry => entry.2.length' + 1 ≤ X.length') components used

namespace InUse

variable {components : List (Seq α)} {used : List (Watched τ × Seq α)} {first c : ℕ}

/-- Nothing is in use of a component before them. -/
lemma left_before (inUse : InUse components first used) (hc : c < first) :
    (used.map (Watched.left c)).sum = 0 := by
  obtain ⟨numbered, -⟩ := inUse
  induction used generalizing first with
  | nil => rfl
  | cons entry rest ih =>
    obtain ⟨(rfl : entry.1.component = first), hrest⟩ := numbered
    rw [List.map_cons, List.sum_cons, ih (by omega) hrest, add_zero, Watched.left,
      if_neg (by omega)]

lemma left_lt (inUse : InUse components first used) {d : ℕ} (hd : d < components.length) :
    (used.map (Watched.left (first + d))).sum + 1 ≤ lengthAt components d := by
  induction components generalizing first used d with
  | nil => simp at hd
  | cons X rest ih =>
    obtain ⟨numbered, hleft⟩ := inUse
    cases hleft with
    | @cons _ entry _ others hentry hothers =>
      obtain ⟨(hnumber : entry.1.component = first), hnumbers⟩ := numbered
      have inUse : InUse rest (first + 1) others := ⟨hnumbers, hothers⟩
      rw [List.map_cons, List.sum_cons, Watched.left, hnumber]
      cases d with
      | zero =>
        rw [Nat.add_zero, if_pos rfl, inUse.left_before (Nat.lt_succ_self first), add_zero]
        exact hentry
      | succ d =>
        rw [if_neg (by omega), zero_add, show first + (d + 1) = first + 1 + d by omega]
        exact ih inUse (by simpa using hd)

lemma length_eq (inUse : InUse components first used) : used.length = components.length :=
  inUse.2.length_eq.symm

end InUse

section OnRow

variable {components : List (Seq α)} {used : List (Watched τ × Seq α)} {journal : Journal} {c : ℕ}

/-- All but one traversal of a component have ended. -/
lemma InUse.ended_eq (inUse : InUse components 0 used)
    (accounts : Accounts (lengthAt components) (.ofList used) journal)
    (hc : c < components.length) :
    journal.ended c + 1 = journal.started c := by
  have hended := accounts.ended c
  rwa [Multiset.map_coe, Multiset.coe_count, inUse.1.count_map, inUse.length_eq,
    if_pos ⟨Nat.zero_le c, by omega⟩] at hended

/-- The elements that were delivered decide how many have ended. -/
lemma InUse.ended_eq_div (inUse : InUse components 0 used)
    (accounts : Accounts (lengthAt components) (.ofList used) journal)
    (hc : c < components.length) :
    journal.ended c = (journal.delivered c - 1) / (lengthAt components c).toNat := by
  have hstarted := inUse.ended_eq accounts hc
  have hdelivered := accounts.delivered c
  have hleft := inUse.left_lt hc
  rw [Nat.zero_add] at hleft
  rw [Multiset.map_coe, Multiset.sum_coe, ← hstarted] at hdelivered
  by_cases htop : lengthAt components c = ⊤
  · rw [(accounts.endless c htop).1, htop, ENat.toNat_top, Nat.div_zero]
  · obtain ⟨length, hlength⟩ := ENat.ne_top_iff_exists.mp htop
    rw [← hlength] at hleft hdelivered ⊢
    obtain ⟨left, hsum⟩ : ∃ n : ℕ, (n : ℕ∞) = (used.map (Watched.left c)).sum :=
      ENat.ne_top_iff_exists.mp fun h => by simp [h] at hleft
    rw [← hsum] at hleft hdelivered
    norm_cast at hleft hdelivered
    rw [Nat.add_mul, Nat.one_mul] at hdelivered
    -- What the traversal in use has delivered is a part of one round, and not nothing.
    have hquotient : journal.delivered c - 1 =
        (length - left - 1) + length * journal.ended c := by
      rw [Nat.mul_comm]
      omega
    rw [ENat.toNat_natCast, hquotient, Nat.add_mul_div_left _ _ (by omega),
      Nat.div_eq_of_lt (by omega), Nat.zero_add]

/-- On row `r` each component has delivered what the rows up to it need. -/
lemma Journal.Balanced.delivered_eq {last r : ℕ} (balanced : Balanced last (r + 1) journal)
    (hlast : components.length = last + 1) (inUse : InUse components 0 used)
    (accounts : Accounts (lengthAt components) (.ofList used) journal) (hc : c ≤ last) :
    journal.delivered c = r / period (components.drop (c + 1)) + 1 := by
  -- From the last component, which delivers one element a row, upwards.
  induction hc using Nat.decreasingInduction with
  | self =>
    rw [balanced.rows_eq, List.drop_eq_nil_of_le (by omega), RowMajor.period_nil, Nat.div_one]
  | of_succ c hc ih =>
    have hbelow : c + 1 < components.length := by omega
    rw [← balanced.next_eq c hc, ← inUse.ended_eq accounts hbelow,
      inUse.ended_eq_div accounts hbelow, ih, Nat.add_sub_cancel, Nat.div_div_eq_div_mul,
      period_drop hbelow]

lemma Journal.Balanced.frugal_row {last r : ℕ} (balanced : Balanced last (r + 1) journal)
    (hlast : components.length = last + 1) (inUse : InUse components 0 used)
    (accounts : Accounts (lengthAt components) (.ofList used) journal)
    (inside : (r : ℕ∞) < rowTotal components) : Frugal components (r + 1) journal := by
  constructor
  · intro r hr _ c hc
    obtain rfl := Nat.succ.inj hr
    have hdelivered := balanced.delivered_eq hlast inUse accounts (show c ≤ last by omega)
    refine ⟨hdelivered, ?_⟩
    rw [inUse.ended_eq_div accounts hc, hdelivered, Nat.add_sub_cancel, Nat.div_div_eq_div_mul,
      period_drop hc]
  · intro drained
    have hle : ((r + 1 : ℕ) : ℕ∞) ≤ rowTotal components := by
      exact_mod_cast Order.add_one_le_of_lt inside
    exact absurd drained (not_lt.mpr hle)

end OnRow

section Drained

variable {components : List (Seq α)} {journal : Journal} {c : ℕ}

/-- With nothing in use, every traversal has been asked for its end once. -/
lemma Accounts.endsOf_eq {lengths : ℕ → ℕ∞}
    (accounts : Accounts lengths (0 : Multiset (Watched τ × Seq α)) journal) {k : ℕ}
    (hk : k < journal.started c) : journal.endsOf c k = 1 := by
  have hnumbered := accounts.numbered c k
  rwa [if_pos hk, Multiset.map_zero, Multiset.count_zero, Nat.add_zero] at hnumbered

lemma Accounts.pulled_eq {lengths : ℕ → ℕ∞}
    (accounts : Accounts lengths (0 : Multiset (Watched τ × Seq α)) journal) :
    journal.pulled c = Finset.range (journal.started c) := by
  ext k
  rw [Journal.mem_pulled, Finset.mem_range]
  constructor
  · rintro ⟨answer, hmem⟩
    exact accounts.asked hmem
  · intro hk
    have hends := accounts.endsOf_eq hk
    exact ⟨false, List.count_pos_iff.mp (by rw [Journal.endsOf] at hends; omega)⟩

lemma Accounts.delivered_eq {lengths : ℕ → ℕ∞}
    (accounts : Accounts lengths (0 : Multiset (Watched τ × Seq α)) journal) :
    (journal.delivered c : ℕ∞) = journal.started c * lengths c := by
  simpa using accounts.delivered c

lemma Journal.Balanced.started_eq {last rows : ℕ} (balanced : Balanced last rows journal)
    (hlast : components.length = last + 1)
    (accounts : Accounts (lengthAt components) (0 : Multiset (Watched τ × Seq α)) journal)
    (hc : c ≤ last) : (journal.started c : ℕ∞) = rowCount (components.take c) := by
  induction c with
  | zero => simp [balanced.first_eq]
  | succ c ih =>
    rw [balanced.next_eq c hc, accounts.delivered_eq, ih (by omega), rowCount_take (by omega)]

lemma Journal.Balanced.frugal_drained {last rows calls : ℕ} (balanced : Balanced last rows journal)
    (hlast : components.length = last + 1)
    (accounts : Accounts (lengthAt components) (0 : Multiset (Watched τ × Seq α)) journal)
    (outside : ¬ (calls : ℕ∞) < rowTotal components) : Frugal components (calls + 1) journal := by
  constructor
  · rintro r hr inside
    obtain rfl : calls = r := Nat.succ.inj hr
    exact absurd inside outside
  · intro _ c hc
    have hstarted := balanced.started_eq hlast accounts (show c ≤ last by omega)
    refine ⟨?_, ?_, ?_⟩
    · rw [accounts.delivered_eq, hstarted, rowCount_take hc]
    · rw [accounts.pulled_eq, Finset.card_range, hstarted]
    · intro k hk
      rw [accounts.pulled_eq, Finset.mem_range] at hk
      exact accounts.endsOf_eq hk

end Drained

end Traversals
