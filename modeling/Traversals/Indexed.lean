import Traversals.Text.Layout

/-!
# Numbered elements

An element together with its position. Numbered elements are ordered by
position first and by element second.
-/

namespace Traversals

structure Indexed (α : Type) where
  index : Nat
  value : α
  deriving DecidableEq, Repr

namespace Indexed

variable {α : Type}

def toPair (element : Indexed α) : Nat × α :=
  (element.index, element.value)

/-- The text of a numbered element, given the text of its value. -/
def display (show' : α → String) (element : Indexed α) : String :=
  toString element.index ++ ": " ++ show' element.value

def inspect (show' : α → String) (element : Indexed α) : String :=
  Text.record "Indexed" [("index", toString element.index), ("value", show' element.value)]

def compare [Ord α] (a b : Indexed α) : Ordering :=
  (Ord.compare a.index b.index).then (Ord.compare a.value b.value)

end Indexed

end Traversals
