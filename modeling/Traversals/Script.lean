import Traversals.SizeHint

/-!
# Scripted sources

A script says what is answered at each position. An answer may be an end in
the middle of the script, so a scripted source can resume after it has ended.
Past the length of the script every answer is an end and the position stays.
-/

namespace Traversals

structure Script (α : Type) where
  answer : Nat → Option α
  length : Option Nat
  hint : Nat → SizeHint
  position : Nat := 0

namespace Script

variable {α : Type}

def isOver (script : Script α) : Bool :=
  match script.length with
  | none => false
  | some length => length ≤ script.position

def next (script : Script α) : Option α × Script α :=
  if script.isOver then (none, script)
  else (script.answer script.position, { script with position := script.position + 1 })

/-- A finite script with gaps. Its own hint counts the elements left. -/
def ofAnswers (answers : Array (Option α)) (hint : Option SizeHint) : Script α where
  answer position := answers[position]?.join
  length := some answers.size
  hint position :=
    hint.getD (.exactly ((answers.toList.drop position).countP Option.isSome))

/-- A script without gaps, finite if its length is given. -/
def ofFunction (element : Nat → α) (length : Option Nat) (hint : Option SizeHint) :
    Script α where
  answer position := some (element position)
  length := length
  hint position :=
    hint.getD (match length with
      | none => .uncountable
      | some length => .exactly (length - position))

def currentHint (script : Script α) : SizeHint :=
  script.hint script.position

end Script

end Traversals
