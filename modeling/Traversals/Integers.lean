import Traversals.SizeHint
import Traversals.Text.Layout

/-!
# Counting numbers

The sequence of all counts from a given one up to the greatest 64-bit count.
After that one there is nothing left.
-/

namespace Traversals

structure Integers where
  next? : Option Nat
  deriving DecidableEq, Repr

namespace Integers

def startingAt (start : Nat) : Integers := ⟨some start⟩

def all : Integers := startingAt 0

def next (integers : Integers) : Option Nat × Integers :=
  match integers.next? with
  | none => (none, integers)
  | some n => (some n, ⟨if n < countCeiling then some (n + 1) else none⟩)

/-- The number left is exact, unless it is one more than can be given. -/
def hint (integers : Integers) : SizeHint :=
  match integers.next? with
  | none => .empty
  | some n =>
      if countCeiling - n < countCeiling then .exactly (countCeiling - n + 1)
      else .uncountable

def inspect (integers : Integers) : String :=
  Text.record "Integers" [("next", Text.option (integers.next?.map toString))]

end Integers

end Traversals
