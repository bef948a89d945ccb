import Traversals.Proofs.Comparison.Stages
import Traversals.Proofs.SharedMemo

/-!
# Memos in the place of sources

A shelf has a source under each name, and it can be started any number of
times: a memo of a traversal that is pulled only once, or a sequence as it is.
The traversals of both are positions. Whether a memo stands there or the
sequence of what its traversal delivers before its first end cannot be told
from the answers, whichever traversals are under way at the same time.

The traversal behind a memo has a store of its own, so nothing else decides
what it delivers. What its type promises may differ from name to name.
-/

namespace Traversals

open Filter
open Stream' (Seq)

variable {ω δ ν σ τ υ α : Type}

/-- What stands under a name of a shelf. Beside a memo stand the store of its
traversal, with the count of its pulls, and how often the memo has answered an end. -/
inductive Shelved (δ υ α : Type) where
  | memoized (memo : Memo υ α) (own : δ × ℕ) (past : ℕ)
  | plain (elements : Seq α)

/-- Sources by name. -/
abbrev Shelf (ν δ υ α : Type) : Type := ν → Shelved δ υ α

namespace Shelved

/-- The answer at a position. Asking a sequence changes nothing. -/
def fetch (promise : Promise) (pull : Pull δ υ α) (position : ℕ) : Pull Unit (Shelved δ υ α) α
  | .memoized memo own past => fun _ =>
      (memo.fetch promise (counted pull) position own).map fun result =>
        ((result.1.1, .memoized result.1.2 result.2 (past + if result.1.1.isNone then 1 else 0)),
          ())
  | .plain elements => return (elements.get? position, .plain elements)

def IsMemo : Shelved δ υ α → Prop
  | .memoized _ _ _ => True
  | .plain _ => False

/-- The positions where a traversal may stand. -/
def Reaches (position : ℕ) : Shelved δ υ α → Prop
  | .memoized memo _ _ => position ≤ memo.cache.size
  | .plain _ => True

/-- A memo stays a memo and forgets nothing. -/
structure Grows (item later : Shelved δ υ α) : Prop where
  isMemo : item.IsMemo → later.IsMemo
  reaches : ∀ position, item.Reaches position → later.Reaches position

lemma Grows.refl (item : Shelved δ υ α) : item.Grows item := ⟨id, fun _ => id⟩

lemma Grows.trans {first second third : Shelved δ υ α} (h : first.Grows second)
    (h' : second.Grows third) : first.Grows third :=
  ⟨fun memo => h'.isMemo (h.isMemo memo), fun position reached =>
    h'.reaches position (h.reaches position reached)⟩

section Holds

variable {pull : Pull δ υ α} {history : History pull} {promise : Promise} {item : Shelved δ υ α}

/-- The item delivers the elements of a history: by a memo that has pulled some
of them, or by their sequence. -/
def Holds (history : History pull) (promise : Promise) : Shelved δ υ α → Prop
  | .memoized memo own past => history.counting.Fills promise past memo own
  | .plain elements => elements = history.elements

lemma reaches_zero (item : Shelved δ υ α) : item.Reaches 0 := by
  cases item with
  | memoized memo own past => exact Nat.zero_le _
  | plain elements => trivial

/-- Both kinds of items answer with the element at the position. -/
lemma Holds.fetch (holds : item.Holds history promise) {position : ℕ}
    (reached : item.Reaches position) :
    ∃ item', item.fetch promise pull position () =
        some ((history.elements.get? position, item'), ()) ∧
      item'.Holds history promise ∧ item.Grows item' ∧
      item'.Reaches (advanced (history.elements.get? position) position) := by
  cases item with
  | memoized memo own past =>
    have fills : history.counting.Fills promise past memo own := holds
    obtain ⟨memo', own', hfetch, fills', hsize⟩ := fills.fetch reached
    refine ⟨.memoized memo' own' (past + if (history.elements.get? position).isNone then 1 else 0),
      by rw [Shelved.fetch, hfetch]; rfl, fills', ⟨id, ?_⟩, ?_⟩
    · intro other hother
      exact Nat.le_trans hother (hsize ▸ Nat.le_max_left _ _)
    · exact Nat.le_trans (Nat.le_max_right _ _) (Nat.le_of_eq hsize.symm)
  | plain elements =>
    obtain rfl : elements = history.elements := holds
    exact ⟨.plain history.elements, rfl, rfl, .refl _, trivial⟩

/-- What a memo's traversal has been asked for: each element once at most, and
its end as often as that was passed on. -/
lemma Holds.frugal (holds : item.Holds history promise) (isMemo : item.IsMemo) :
    ∃ memo calls past, item = .memoized memo ((history.state calls).2, calls) past ∧
      ∀ n, history.elements.get? n = none → calls ≤ n + promise.passedOn past := by
  cases item with
  | plain elements => cases isMemo
  | memoized memo own past =>
    have fills : history.counting.Fills promise past memo own := holds
    refine ⟨memo, own.2, past, ?_, ?_⟩
    · rw [← fills.reads.store_at_calls]
    · intro n hn
      have hsize := fills.reads.reached.le hn
      rw [fills.reads.calls_eq]
      omega

end Holds

end Shelved

namespace Shelf

/-- Sources of another kind are started as they are. -/
def start (start : Start ω σ τ) : Start (ω × Shelf ν δ υ α) (σ ⊕ ν) (τ ⊕ ν × ℕ)
  | .inl source => fun store => (start source store.1).map fun result =>
      (.inl result.1, (result.2, store.2))
  | .inr name => return .inr (name, 0)

/-- A traversal of the shelf asks for the element at its position. -/
def pull [DecidableEq ν] (pull : Pull ω τ α) (promises : ν → Promise) (own : ν → Pull δ υ α) :
    Pull (ω × Shelf ν δ υ α) (τ ⊕ ν × ℕ) α
  | .inl traversal => fun store => (pull traversal store.1).map fun result =>
      ((result.1.1, .inl result.1.2), (result.2, store.2))
  | .inr (name, position) => fun store =>
      ((store.2 name).fetch (promises name) (own name) position ()).map fun result =>
        ((result.1.1, .inr (name, advanced result.1.1 position)),
          (store.1, Function.update store.2 name result.1.2))

section Comparison

variable {own : ν → Pull δ υ α} {histories : ∀ name, History (own name)}
  {promises : ν → Promise}

/-- Shelves are compared if they hold the same histories, in one way or the other. -/
def comparison (histories : ∀ name, History (own name)) (promises : ν → Promise) :
    Comparison (ω × Shelf ν δ υ α) where
  Same store other := store.1 = other.1 ∧
    ∀ name, (store.2 name).Holds (histories name) (promises name) ∧
      (other.2 name).Holds (histories name) (promises name)
  Later store later := ∀ name, (store.2 name).Grows (later.2 name)
  later_refl _ _ := .refl _
  later_trans h h' name := (h name).trans (h' name)

/-- A traversal of the shelf stands where its source has got to. -/
def Fits : τ ⊕ ν × ℕ → ω × Shelf ν δ υ α → Prop
  | .inl _, _ => True
  | .inr (name, position), store => (store.2 name).Reaches position

lemma lasting (traversal : τ ⊕ ν × ℕ) :
    (comparison histories promises : Comparison (ω × Shelf ν δ υ α)).Lasting (Fits traversal) := by
  intro store later hlater fits
  rcases traversal with _ | ⟨name, position⟩
  · trivial
  · exact (hlater name).reaches position fits

lemma starts (plain : Start ω σ τ) :
    Comparison.Starts (comparison histories promises) (atTop : Filter ℕ) (fun _ _ => True) Fits
      (start plain) := by
  rintro (source | name) store other same - - result store' hrun
  · obtain ⟨⟨traversal, store₁⟩, hstart, hresult⟩ := Option.map_eq_some_iff.mp hrun
    cases hresult
    rw [same.1] at hstart
    have hother : start plain (.inl source) other = some (.inl traversal, (store₁, other.2)) := by
      simp [start, hstart]
    exact ⟨(store₁, other.2), Eventually.of_forall fun _ => hother, ⟨rfl, same.2⟩,
      ⟨fun _ => .refl _, trivial⟩, fun _ => .refl _, trivial⟩
  · cases hrun
    exact ⟨other, Eventually.of_forall fun _ => rfl, same,
      ⟨fun _ => .refl _, Shelved.reaches_zero _⟩, fun _ => .refl _, Shelved.reaches_zero _⟩

variable [DecidableEq ν]

lemma holds_update {shelf : Shelf ν δ υ α}
    (holds : ∀ name, (shelf name).Holds (histories name) (promises name)) {name : ν}
    {item : Shelved δ υ α} (item_holds : item.Holds (histories name) (promises name)) :
    ∀ other, (Function.update shelf name item other).Holds (histories other) (promises other) :=
  (Function.forall_update_iff shelf fun other item =>
    item.Holds (histories other) (promises other)).mpr
    ⟨item_holds, fun other _ => holds other⟩

lemma grows_update {shelf : Shelf ν δ υ α} {name : ν} {item : Shelved δ υ α}
    (grows : (shelf name).Grows item) :
    ∀ other, (shelf other).Grows (Function.update shelf name item other) :=
  (Function.forall_update_iff shelf fun other item => (shelf other).Grows item).mpr
    ⟨grows, fun _ _ => .refl _⟩

/-- The traversal that was asked stands at its new position. -/
lemma fits_update {plain : ω} {shelf : Shelf ν δ υ α} {name : ν} {item : Shelved δ υ α}
    {position : ℕ} (reached : item.Reaches position) :
    Fits (.inr (name, position) : τ ⊕ ν × ℕ) (plain, Function.update shelf name item) := by
  simpa [Fits] using reached

lemma alike (plain : Pull ω τ α) :
    (comparison histories promises).Alike (atTop : Filter ℕ) Fits (pull plain promises own) fun _ =>
      pull plain promises own := by
  rintro (traversal | ⟨name, position⟩) store other same fits fits' result store' hrun
  · obtain ⟨⟨⟨answer, traversal'⟩, store₁⟩, hpull, hresult⟩ := Option.map_eq_some_iff.mp hrun
    cases hresult
    rw [same.1] at hpull
    have hother : pull plain promises own (.inl traversal) other =
        some ((answer, .inl traversal'), (store₁, other.2)) := by
      simp [pull, hpull]
    exact ⟨(store₁, other.2), Eventually.of_forall fun _ => hother, ⟨rfl, same.2⟩,
      ⟨fun _ => .refl _, trivial⟩, fun _ => .refl _, trivial⟩
  · obtain ⟨item, hfetch, holds, grows, reached⟩ := (same.2 name).1.fetch fits
    obtain ⟨item', hfetch', holds', grows', reached'⟩ := (same.2 name).2.fetch fits'
    have hanswer : pull plain promises own (.inr (name, position)) other =
        some (((histories name).elements.get? position,
          .inr (name, advanced ((histories name).elements.get? position) position)),
          (other.1, Function.update other.2 name item')) := by
      simp [pull, hfetch']
    simp only [pull, hfetch, Option.map_some] at hrun
    cases hrun
    have held := holds_update (fun name => (same.2 name).1) holds
    have held' := holds_update (fun name => (same.2 name).2) holds'
    exact ⟨_, Eventually.of_forall fun _ => hanswer,
      ⟨same.1, fun other => ⟨held other, held' other⟩⟩,
      ⟨grows_update grows, fits_update reached⟩, grows_update grows', fits_update reached'⟩

end Comparison

end Shelf

end Traversals
