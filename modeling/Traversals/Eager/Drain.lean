import Traversals.Run
import Traversals.Stage.Elementwise

/-!
# Draining a traversal

Queries that pull a traversal up to its first end and no further. All of them
are folds. The traversal has to end within the budget, and a test or a
reducer runs once for each element, in order.
-/

namespace Traversals.Eager

variable {ω τ π α γ : Type}

/-- Folds an effectful step over the elements up to the first end. -/
def fold (pull : Pull ω τ α) (step : γ → α → Run ω γ) : Nat → γ → τ → Run ω γ
  | 0, _, _ => Run.outOfBudget
  | budget + 1, acc, traversal => do
      let (element, traversal) ← pull traversal
      match element with
      | none => return acc
      | some x =>
          let acc ← step acc x
          fold pull step budget acc traversal

def materialize (pull : Pull ω τ α) (budget : Nat) (traversal : τ) : Run ω (List α) := do
  let elements ← fold pull (fun (elements : Array α) x => return elements.push x) budget #[]
    traversal
  return elements.toList

def reverse (pull : Pull ω τ α) (budget : Nat) (traversal : τ) : Run ω (List α) := do
  let elements ← materialize pull budget traversal
  return elements.reverse

def count (pull : Pull ω τ α) (budget : Nat) (traversal : τ) : Run ω Nat :=
  fold pull (fun n _ => return n + 1) budget 0 traversal

def last (pull : Pull ω τ α) (budget : Nat) (traversal : τ) : Run ω (Option α) :=
  fold pull (fun _ x => return some x) budget none traversal

/-- A fold that starts from the first element, if there is one. -/
def reduce (pull : Pull ω τ α) (combine : α → α → Run ω α) (budget : Nat) (traversal : τ) :
    Run ω (Option α) := do
  let (element, traversal) ← pull traversal
  match element with
  | none => return none
  | some x =>
      let result ← fold pull combine budget x traversal
      return some result

/-- The elements that pass the test and those that do not, each in order. -/
def partition (pull : Pull ω τ α) (test : π → α → Run ω (Bool × π)) (budget : Nat)
    (predicate : π) (traversal : τ) : Run ω (List α × List α) := do
  let (_, passed, failed) ← fold pull
    (fun ((predicate, passed, failed) : π × Array α × Array α) x => do
      let (accepted, predicate) ← test predicate x
      if accepted then return (predicate, passed.push x, failed)
      else return (predicate, passed, failed.push x))
    budget (predicate, #[], #[]) traversal
  return (passed.toList, failed.toList)

/-- The texts of the elements, set apart by a separator. -/
def join (pull : Pull ω τ α) (display : α → String) (separator : String) (budget : Nat)
    (traversal : τ) : Run ω String := do
  let (joined, _) ← fold pull
    (fun ((joined, isFirst) : String × Bool) x =>
      return ((if isFirst then joined else joined ++ separator) ++ display x, false))
    budget ("", true) traversal
  return joined

/-- The last element that passes the test, by way of the filtered traversal. -/
def lastMatching (pull : Pull ω τ α) (test : π → α → Run ω (Bool × π)) (budget : Nat)
    (predicate : π) (traversal : τ) : Run ω (Option α) :=
  last (Filtered.next pull test budget) budget ⟨traversal, predicate⟩

end Traversals.Eager
