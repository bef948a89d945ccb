import Traversals.Run

/-!
# Searching a traversal

Queries that stop at the element that decides them, so that they also serve
traversals without end.
-/

namespace Traversals.Eager

variable {ω τ π α : Type}

def first (pull : Pull ω τ α) (traversal : τ) : Run ω (Option α) := do
  let (element, _) ← pull traversal
  return element

def elementAt (pull : Pull ω τ α) (index : Nat) (traversal : τ) : Run ω (Option α) := do
  let (element, _) ← nth pull index traversal
  return element

def firstMatching (pull : Pull ω τ α) (test : π → α → Run ω (Bool × π)) :
    Nat → π → τ → Run ω (Option α)
  | 0, _, _ => Run.outOfBudget
  | budget + 1, predicate, traversal => do
      let (element, traversal) ← pull traversal
      match element with
      | none => return none
      | some x =>
          let (found, predicate) ← test predicate x
          if found then return some x
          else firstMatching pull test budget predicate traversal

/-- Whether any element passes the test. -/
def any (pull : Pull ω τ α) (test : π → α → Run ω (Bool × π)) : Nat → π → τ → Run ω Bool
  | 0, _, _ => Run.outOfBudget
  | budget + 1, predicate, traversal => do
      let (element, traversal) ← pull traversal
      match element with
      | none => return false
      | some x =>
          let (passed, predicate) ← test predicate x
          if passed then return true
          else any pull test budget predicate traversal

/-- Whether every element passes the test. -/
def all (pull : Pull ω τ α) (test : π → α → Run ω (Bool × π)) : Nat → π → τ → Run ω Bool
  | 0, _, _ => Run.outOfBudget
  | budget + 1, predicate, traversal => do
      let (element, traversal) ← pull traversal
      match element with
      | none => return true
      | some x =>
          let (passed, predicate) ← test predicate x
          if passed then all pull test budget predicate traversal
          else return false

end Traversals.Eager
