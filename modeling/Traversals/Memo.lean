import Traversals.Stage.Fused
import Traversals.Text.Layout

/-!
# Memoized traversals

A memo keeps what it has pulled from its source. Traversals of a memo are
positions: each reads the kept elements, and one that stands behind the last
of them pulls the source. All traversals of a memo deliver the same elements,
each pulled once. Whether the source is asked for its end more than once is
decided by what its type promises.
-/

namespace Traversals

variable {ω τ α : Type}

structure Memo (τ α : Type) where
  source : Fused τ
  cache : Array α

namespace Memo

def make (source : τ) : Memo τ α := ⟨.live source, #[]⟩

/-- The number of elements pulled so far. -/
def bufferedLength (memo : Memo τ α) : Nat := memo.cache.size

/-- The element at a position, from the cache or from the source. -/
def fetch (promise : Promise) (pull : Pull ω τ α) (position : Nat) : Pull ω (Memo τ α) α :=
    fun memo =>
  match memo.cache[position]? with
  | some x => return (some x, memo)
  | none => do
      let (element, source) ← Fused.next promise pull memo.source
      match element with
      | none => return (none, { memo with source })
      | some x => return (some x, { source, cache := memo.cache.push x })

def inspect (memo : Memo τ α) : String :=
  Text.openRecord "Memoized" [("buffered_len", toString memo.bufferedLength)]

end Memo

/-- Where a traversal of a memo stands after an answer. -/
def advanced (answer : Option α) (position : Nat) : Nat :=
  if answer.isSome then position + 1 else position

end Traversals
