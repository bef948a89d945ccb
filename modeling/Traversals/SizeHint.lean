/-!
# Size hints

A hint bounds the number of elements a traversal has left before its next end.
The lower bound saturates at the greatest 64-bit count; a missing upper bound
is unknown or greater than that.
-/

namespace Traversals

/-- The greatest count that can be given. -/
def countCeiling : Nat := 0xFFFFFFFFFFFFFFFF

structure SizeHint where
  lower : Nat
  upper : Option Nat
  deriving DecidableEq, Repr

namespace SizeHint

/-- Nothing is known. -/
def unknown : SizeHint := ⟨0, none⟩

def empty : SizeHint := ⟨0, some 0⟩

def exactly (n : Nat) : SizeHint := ⟨n, some n⟩

/-- More elements than can be counted. -/
def uncountable : SizeHint := ⟨countCeiling, none⟩

/-- What is known when any number of the elements may be dropped. -/
def thinned (hint : SizeHint) : SizeHint := ⟨0, hint.upper⟩

/-- The sum of two upper bounds, if both are known and the sum can be given. -/
def upperSum : Option Nat → Option Nat → Option Nat
  | some m, some n => if m + n ≤ countCeiling then some (m + n) else none
  | _, _ => none

def followedBy (first second : SizeHint) : SizeHint where
  lower := min (first.lower + second.lower) countCeiling
  upper := upperSum first.upper second.upper

/-- The smaller of two upper bounds, where an unknown one does not count. -/
def upperMin : Option Nat → Option Nat → Option Nat
  | some m, some n => some (min m n)
  | some m, none => some m
  | none, other => other

end SizeHint

end Traversals
