import Mathlib.Data.ENat.Basic
import Mathlib.Data.List.Basic
import Traversals.Zip.All
import Traversals.Zip.Fixed

/-!
# Hints and counts

A hint is sound for a count that lies between its bounds and exact for the one
count that it names. Zips take the least of several hints, by a fold or by
minima over what is known, and either way the result bounds the least count.
-/

namespace Traversals

namespace SizeHint

/-- The hint bounds a count. -/
def Bounds (hint : SizeHint) (count : ℕ∞) : Prop :=
  (hint.lower : ℕ∞) ≤ count ∧ ∀ upper, hint.upper = some upper → count ≤ upper

/-- The hint is the count itself, one that can be given. -/
def Exact (hint : SizeHint) (count : ℕ∞) : Prop :=
  ∃ n ≤ countCeiling, hint = .exactly n ∧ count = n

/-- A hint that leaves only one count, one that can be given. -/
def Certain (hint : SizeHint) : Prop := ∃ n ≤ countCeiling, hint = .exactly n

lemma Exact.bounds {hint : SizeHint} {count : ℕ∞} (meets : hint.Exact count) :
    hint.Bounds count := by
  obtain ⟨n, -, rfl, rfl⟩ := meets
  refine ⟨le_rfl, fun upper h => ?_⟩
  obtain rfl := Option.some.inj h
  exact le_rfl

lemma Exact.certain {hint : SizeHint} {count : ℕ∞} (meets : hint.Exact count) : hint.Certain := by
  obtain ⟨n, hn, hint_eq, -⟩ := meets
  exact ⟨n, hn, hint_eq⟩

/-- Bounds that leave one count are exact. -/
lemma Bounds.exact {hint : SizeHint} {count : ℕ∞} (bounds : hint.Bounds count)
    (certain : hint.Certain) : hint.Exact count := by
  obtain ⟨n, hn, rfl⟩ := certain
  exact ⟨n, hn, rfl, le_antisymm (bounds.2 n rfl) bounds.1⟩

/-- The smaller of two hints. -/
def lesser (least next : SizeHint) : SizeHint :=
  ⟨min least.lower next.lower, upperMin least.upper next.upper⟩

/-- A hint of the least of several counts. It is certain if they are. -/
structure LeastOf (least : SizeHint) (hints : List SizeHint) : Prop where
  lower : ∀ hint, hint ∈ hints → least.lower ≤ hint.lower
  upper : ∀ upper, least.upper = some upper → ∃ hint ∈ hints, hint.upper = some upper
  certain : hints ≠ [] → (∀ hint, hint ∈ hints → hint.Certain) → least.Certain

/-- Where the counting starts leaves no trace in a hint that can be given. -/
lemma lesser_uncountable {next : SizeHint} (given : next.lower ≤ countCeiling) :
    uncountable.lesser next = next := by
  obtain ⟨lower, upper⟩ := next
  have hlower : min countCeiling lower = lower := min_eq_right given
  simp [SizeHint.lesser, uncountable, upperMin, hlower]

/-- A fold over hints gives the minima of what it starts from and of them all. -/
lemma foldl_lesser_eq (first : SizeHint) (hints : List SizeHint) :
    hints.foldl lesser first = Zip.least (first :: hints) := by
  induction hints generalizing first with
  | nil => obtain ⟨lower, _ | upper⟩ := first <;> rfl
  | cons next rest ih =>
    rw [List.foldl_cons, ih]
    obtain ⟨lower, _ | upper⟩ := first <;> obtain ⟨lower', _ | upper'⟩ := next <;> rfl

/-- The uncountable start does not count next to hints that can be given. -/
lemma foldl_uncountable_eq {hints : List SizeHint} (nonempty : hints ≠ [])
    (given : ∀ hint ∈ hints, hint.lower ≤ countCeiling) :
    hints.foldl lesser uncountable = Zip.least hints := by
  cases hints with
  | nil => exact absurd rfl nonempty
  | cons next rest =>
    rw [List.foldl_cons, lesser_uncountable (given next List.mem_cons_self), foldl_lesser_eq]

lemma leastOf_least (hints : List SizeHint) : LeastOf (Zip.least hints) hints := by
  refine ⟨fun hint h => ?_, fun u h => ?_, fun nonempty all => ?_⟩
  · exact List.min?_getD_le_of_mem (List.mem_map_of_mem h)
  · obtain ⟨hint, hmem, hu⟩ := List.mem_filterMap.mp (List.min?_mem h)
    exact ⟨hint, hmem, hu⟩
  · have huppers : hints.filterMap (·.upper) = hints.map (·.lower) := by
      rw [← List.filterMap_eq_map]
      refine List.filterMap_congr fun hint h => ?_
      obtain ⟨n, -, rfl⟩ := all hint h
      rfl
    obtain ⟨n, hn⟩ := Option.isSome_iff_exists.mp
      (List.isSome_min?_of_ne_nil (mt List.map_eq_nil_iff.mp nonempty) :
        (hints.map (·.lower)).min?.isSome)
    obtain ⟨hint, hmem, hlower⟩ := List.mem_map.mp (List.min?_mem hn)
    obtain ⟨m, hm, rfl⟩ := all hint hmem
    refine ⟨n, ?_, ?_⟩
    · rw [← hlower]
      exact hm
    · simp only [Zip.least, huppers, hn, Option.getD_some, exactly]

/-- The uncountable start of the fold leaves no trace. -/
lemma leastOf_foldl (hints : List SizeHint) :
    LeastOf (hints.foldl lesser uncountable) hints := by
  obtain ⟨lower, upper, -⟩ := leastOf_least (uncountable :: hints)
  rw [← foldl_lesser_eq] at lower upper
  refine ⟨fun hint h => lower hint (List.mem_cons_of_mem _ h), fun u h => ?_,
    fun nonempty all => ?_⟩
  · obtain ⟨hint, hmem, hu⟩ := upper u h
    rcases List.mem_cons.mp hmem with rfl | hmem
    · cases hu
    · exact ⟨hint, hmem, hu⟩
  · have given : ∀ hint ∈ hints, hint.lower ≤ countCeiling := by
      intro hint hmem
      obtain ⟨n, hn, rfl⟩ := all hint hmem
      exact hn
    rw [foldl_uncountable_eq nonempty given]
    exact (leastOf_least hints).certain nonempty all

end SizeHint

end Traversals
