import Traversals.Run
import Traversals.SizeHint
import Traversals.Text.Layout

/-!
# Zips of fixed width

A zip whose width is part of its type. Its rows have that width, and it has at
least one traversal, so it starts unexhausted.
-/

namespace Traversals

variable {ω τ α : Type}

structure Zip (n : Nat) (τ : Type) where
  traversals : Vector τ n
  exhausted : Bool

namespace Zip

/-- The zip of as many traversals as a list holds. -/
def ofList (traversals : List τ) (exhausted : Bool) : Zip traversals.length τ :=
  ⟨⟨traversals.toArray, rfl⟩, exhausted⟩

def toList {n : Nat} (zip : Zip n τ) : List τ := zip.traversals.toList

/-- Extends a row of `i` elements by the traversals from position `i` on. -/
def extendRow (pull : Pull ω τ α) {n : Nat} :
    (left i : Nat) → i + left = n → Vector α i → Vector τ n →
      Run ω (Option (Vector α n) × Vector τ n)
  | 0, _, complete, row, traversals => return (some (row.cast complete), traversals)
  | left + 1, i, complete, row, traversals => do
      let (element, traversal) ← pull (traversals.get ⟨i, by omega⟩)
      let traversals := traversals.set i traversal (by omega)
      match element with
      | none => return (none, traversals)
      | some x => extendRow pull left (i + 1) (by omega) (row.push x) traversals

def pullRow (pull : Pull ω τ α) {n : Nat} (traversals : Vector τ n) :
    Run ω (Option (Vector α n) × Vector τ n) :=
  extendRow pull n 0 (Nat.zero_add n) #v[] traversals

def next (pull : Pull ω τ α) {n : Nat} : Pull ω (Zip n τ) (Vector α n) := fun zip => do
  if zip.exhausted then
    return (none, zip)
  else
    let (row, traversals) ← pullRow pull zip.traversals
    return (row, { traversals, exhausted := row.isNone })

/-- The least lower bound of several hints, and the least upper bound that is known. -/
def least (hints : List SizeHint) : SizeHint where
  lower := (hints.map (·.lower)).min?.getD 0
  upper := (hints.filterMap (·.upper)).min?

def hint (traversalHint : τ → SizeHint) {n : Nat} (zip : Zip n τ) : SizeHint :=
  if zip.exhausted then .empty
  else least (zip.toList.map traversalHint)

/-- Shown with the texts of the traversals in their places, under a name that
tells the width. -/
def inspect {n : Nat} (zip : Zip n String) : String :=
  Text.record ("Zip" ++ toString n)
    [("traversals", Text.tuple zip.toList), ("exhausted", Text.bool zip.exhausted)]

end Zip

end Traversals
