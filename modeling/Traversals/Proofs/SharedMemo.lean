import Traversals.Memo
import Traversals.Proofs.Upstream

/-!
# Memos with many traversals

The traversals of one memo are started, copied and pulled in any order. Each
delivers what the wrapped traversal delivers before its first end, as if it
were the only one. The wrapped traversal is pulled once for each element up to
the furthest position, and once more if a traversal has asked for its end. If it
has promised to stay ended, it is pulled for each of the ends that were asked for.
-/

namespace Traversals

variable {ω τ α : Type}

/-- A copy of a memo is the memo itself, so a traversal of a copy is started
like any other. Traversals are numbered in the order of their making. -/
inductive MemoStep where
  | start
  | copy (traversal : Nat)
  | next (traversal : Nat)
  | length

inductive MemoReply (α : Type) where
  | done
  /-- There is no traversal of that number. -/
  | absent
  | element (element : Option α)
  | length (n : Nat)

/-- The reply of a traversal that has asked past the last element. -/
def MemoReply.isEnd : MemoReply α → Bool
  | element none => true
  | _ => false

/-- A memo and the positions of all traversals made of it. -/
structure SharedMemo (τ α : Type) where
  memo : Memo τ α
  positions : List Nat

namespace SharedMemo

/-- The reply to a step. Only `next` can change the memo. -/
def perform (promise : Promise) (pull : Pull ω τ α) :
    MemoStep → SharedMemo τ α → Run ω (MemoReply α × SharedMemo τ α)
  | .start, shared => return (.done, { shared with positions := shared.positions ++ [0] })
  | .copy traversal, shared =>
      match shared.positions[traversal]? with
      | none => return (.absent, shared)
      | some position =>
          return (.done, { shared with positions := shared.positions ++ [position] })
  | .next traversal, shared =>
      match shared.positions[traversal]? with
      | none => return (.absent, shared)
      | some position => do
          let (answer, memo) ← shared.memo.fetch promise pull position
          let positions := shared.positions.set traversal (advanced answer position)
          return (.element answer, { memo, positions })
  | .length, shared => return (.length shared.memo.bufferedLength, shared)

end SharedMemo

/-- The furthest of some positions. -/
def furthest (positions : List Nat) : Nat := positions.foldr max 0

lemma le_furthest {positions : List Nat} {p : Nat} (hp : p ∈ positions) :
    p ≤ furthest positions := by
  induction positions with
  | nil => cases hp
  | cons q rest ih =>
    rcases List.mem_cons.mp hp with rfl | hp
    · exact Nat.le_max_left _ _
    · exact (ih hp).trans (Nat.le_max_right _ _)

lemma furthest_append (positions : List Nat) (q : Nat) :
    furthest (positions ++ [q]) = max (furthest positions) q := by
  induction positions with
  | nil => simp [furthest]
  | cons p rest ih =>
    simp only [furthest, List.cons_append, List.foldr_cons] at ih ⊢
    rw [ih, max_assoc]

/-- Moving one position forward moves the furthest one there at most. -/
lemma furthest_set {positions : List Nat} {i p q : Nat} (hp : positions[i]? = some p)
    (hpq : p ≤ q) : furthest (positions.set i q) = max (furthest positions) q := by
  induction positions generalizing i with
  | nil => simp at hp
  | cons r rest ih =>
    cases i with
    | zero =>
      obtain rfl : r = p := by simpa using hp
      simp only [furthest, List.set_cons_zero, List.foldr_cons]
      omega
    | succ i =>
      have hrest := ih (i := i) (by simpa using hp)
      simp only [furthest, List.set_cons_succ, List.foldr_cons] at hrest ⊢
      omega

lemma le_advanced (answer : Option α) (position : Nat) : position ≤ advanced answer position := by
  unfold advanced
  split <;> omega

namespace History

variable {pull : Pull ω τ α} {history : History pull} {promise : Promise}

/-- A memo that holds the first elements of a history and has been asked `past`
times for what comes after the last of them. -/
structure Fills (history : History pull) (promise : Promise) (past : Nat) (memo : Memo τ α)
    (store : ω) : Prop where
  cached : ∀ n < memo.cache.size, memo.cache[n]? = history.elements.get? n
  reads : history.Reads promise memo.cache.size past memo.source store

/-- A position inside the cache or at its edge is answered by the element there,
whoever has pulled it. -/
lemma Fills.fetch {past : Nat} {memo : Memo τ α} {store : ω}
    (fills : history.Fills promise past memo store) {position : Nat}
    (hposition : position ≤ memo.cache.size) :
    ∃ memo' store', memo.fetch promise pull position store =
        some ((history.elements.get? position, memo'), store') ∧
      history.Fills promise
        (past + if (history.elements.get? position).isNone then 1 else 0) memo' store' ∧
      memo'.cache.size =
        max memo.cache.size (advanced (history.elements.get? position) position) := by
  rcases Nat.lt_or_eq_of_le hposition with inside | rfl
  · have hx : memo.cache[position]? = some memo.cache[position] :=
      Array.getElem?_eq_getElem inside
    have hget := (fills.cached position inside).symm.trans hx
    refine ⟨memo, store, by simp [Memo.fetch, hx, hget], by simpa [hget] using fills, ?_⟩
    simp [hget, advanced]
    omega
  · cases hget : history.elements.get? memo.cache.size with
    | some x =>
      obtain ⟨source, store', hnext, reads⟩ := fills.reads.next_some hget
      refine ⟨{ source, cache := memo.cache.push x }, store', ?_, ?_, by simp [advanced]⟩
      · simp [Memo.fetch, Run.bind_apply, hnext]
      · refine ⟨?_, ?_⟩
        · intro n hn
          rcases Nat.lt_or_eq_of_le (Nat.le_of_lt_succ (by simpa using hn)) with old | rfl
          · rw [Array.getElem?_push_lt old, ← fills.cached n old,
              Array.getElem?_eq_getElem old]
          · simp [hget]
        · simpa [fills.reads.past_eq_zero hget] using reads
    | none =>
      obtain ⟨source, store', hnext, reads⟩ := fills.reads.next_none hget
      refine ⟨{ memo with source }, store', ?_, ⟨fills.cached, by simpa using reads⟩,
        by simp [advanced]⟩
      simp [Memo.fetch, Run.bind_apply, hnext]

/-- What holds of a shared memo after any steps: it has been asked for the end
as often as a reply was one. -/
structure Serves (history : History pull) (promise : Promise)
    (log : List (MemoStep × MemoReply α)) (shared : SharedMemo τ α) (store : ω) : Prop where
  fills : history.Fills promise (log.countP (·.2.isEnd)) shared.memo store
  size_eq : shared.memo.cache.size = furthest shared.positions

namespace Serves

variable {log : List (MemoStep × MemoReply α)} {shared : SharedMemo τ α} {store : ω}

lemma position_le (serves : history.Serves promise log shared store) {position : Nat}
    (hposition : position ∈ shared.positions) : position ≤ shared.memo.cache.size :=
  serves.size_eq ▸ le_furthest hposition

/-- A pull of any traversal answers the element at its position. -/
lemma next (serves : history.Serves promise log shared store) {traversal position : Nat}
    (hposition : shared.positions[traversal]? = some position) :
    ∃ shared' store', SharedMemo.perform promise pull (.next traversal) shared store =
        some ((.element (history.elements.get? position), shared'), store') ∧
      history.Serves promise
        (log ++ [(.next traversal, .element (history.elements.get? position))]) shared' store' := by
  have hle := serves.position_le (List.mem_of_getElem? hposition)
  obtain ⟨memo', store', hfetch, fills, hsize⟩ := serves.fills.fetch hle
  have hend : (MemoReply.element (history.elements.get? position)).isEnd =
      (history.elements.get? position).isNone := by
    cases history.elements.get? position <;> rfl
  refine ⟨⟨memo', shared.positions.set traversal
    (advanced (history.elements.get? position) position)⟩, store', ?_, ?_, ?_⟩
  · simp [SharedMemo.perform, hposition, Run.bind_apply, hfetch]
  · simpa [List.countP_append, List.countP_singleton, hend] using fills
  · rw [hsize, serves.size_eq, furthest_set hposition (le_advanced _ _)]

/-- A further traversal changes nothing for the others, wherever it begins. -/
lemma push (serves : history.Serves promise log shared store) (step : MemoStep) {position : Nat}
    (hposition : position ≤ shared.memo.cache.size) :
    history.Serves promise (log ++ [(step, .done)])
      { shared with positions := shared.positions ++ [position] } store := by
  refine ⟨by simpa [MemoReply.isEnd] using serves.fills, ?_⟩
  rw [furthest_append, ← serves.size_eq]
  exact (Nat.max_eq_left hposition).symm

lemma perform (step : MemoStep) (serves : history.Serves promise log shared store) :
    ∃ reply shared' store', SharedMemo.perform promise pull step shared store =
        some ((reply, shared'), store') ∧
      history.Serves promise (log ++ [(step, reply)]) shared' store' := by
  have unchanged : ∀ reply : MemoReply α, reply.isEnd = false →
      history.Serves promise (log ++ [(step, reply)]) shared store := by
    intro reply hreply
    exact ⟨by simpa [hreply] using serves.fills, serves.size_eq⟩
  cases step with
  | start => exact ⟨.done, _, store, rfl, serves.push _ (Nat.zero_le _)⟩
  | copy traversal =>
    cases hposition : shared.positions[traversal]? with
    | none =>
      exact ⟨.absent, shared, store, by simp [SharedMemo.perform, hposition], unchanged _ rfl⟩
    | some position =>
      exact ⟨.done, _, store, by simp [SharedMemo.perform, hposition],
        serves.push _ (serves.position_le (List.mem_of_getElem? hposition))⟩
  | next traversal =>
    cases hposition : shared.positions[traversal]? with
    | none =>
      exact ⟨.absent, shared, store, by simp [SharedMemo.perform, hposition], unchanged _ rfl⟩
    | some position =>
      obtain ⟨shared', store', hnext, serves'⟩ := serves.next hposition
      exact ⟨_, shared', store', hnext, serves'⟩
  | length => exact ⟨_, shared, store, rfl, unchanged _ rfl⟩

/-- The pulls of the wrapped traversal are those for the elements kept and for
the requests past them that were passed on. -/
lemma pulls_eq {shared : SharedMemo τ α} {store : ω × Nat}
    (serves : history.counting.Serves promise log shared store) :
    store.2 = shared.memo.bufferedLength + promise.passedOn (log.countP (·.2.isEnd)) :=
  serves.fills.reads.calls_eq

end Serves

end History

end Traversals
