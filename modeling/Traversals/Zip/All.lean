import Traversals.Run
import Traversals.SizeHint
import Traversals.Text.Layout

/-!
# Zipping a list of traversals

All traversals are pulled once per row, in order. The first end among them
ends the zip for good, and the traversals after it are not asked. Zipping no
traversals gives no rows.
-/

namespace Traversals

variable {ω τ α : Type}

structure ZipAll (τ : Type) where
  traversals : List τ
  exhausted : Bool

namespace ZipAll

def ofList (traversals : List τ) : ZipAll τ := ⟨traversals, traversals.isEmpty⟩

/-- One pull each, up to the first end. -/
def pullRow (pull : Pull ω τ α) : List τ → Run ω (Option (List α) × List τ)
  | [] => return (some [], [])
  | traversal :: rest => do
      let (element, traversal) ← pull traversal
      match element with
      | none => return (none, traversal :: rest)
      | some x =>
          let (row, rest) ← pullRow pull rest
          return (row.map (x :: ·), traversal :: rest)

def next (pull : Pull ω τ α) : Pull ω (ZipAll τ) (List α) := fun zip => do
  if zip.exhausted then
    return (none, zip)
  else
    let (row, traversals) ← pullRow pull zip.traversals
    return (row, { traversals, exhausted := row.isNone })

/-- The least of all bounds; unknown upper bounds do not count. -/
def hint (traversalHint : τ → SizeHint) (zip : ZipAll τ) : SizeHint :=
  if zip.exhausted then .empty
  else
    (zip.traversals.map traversalHint).foldl
      (fun least next => ⟨min least.lower next.lower, SizeHint.upperMin least.upper next.upper⟩)
      .uncountable

/-- Shown with the texts of the traversals in their places. -/
def inspect (zip : ZipAll String) : String :=
  Text.record "ZipAll"
    [("traversals", Text.list zip.traversals), ("exhausted", Text.bool zip.exhausted)]

end ZipAll

end Traversals
