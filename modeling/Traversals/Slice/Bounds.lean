import Traversals.Error

/-!
# Slice bounds

A slice is asked for by a start, a stop and a step, each of which may be
absent. Against a known length they resolve to concrete numbers: negative
bounds count from the end, and bounds outside the length are drawn to its
edge. All arithmetic is on 64-bit words.
-/

namespace Traversals

namespace Slice

/-- Addition that stops at the ends of the word range. -/
def saturatingAdd (a b : Int64) : Int64 :=
  let sum := a.toInt + b.toInt
  if sum > Int64.maxValue.toInt then Int64.maxValue
  else if sum < Int64.minValue.toInt then Int64.minValue
  else a + b

/-- An absent start, or one before the first element, is the first index; a
start past the end is drawn back to the last index. -/
def resolveStart (start : Option Int64) (length : Int64) : Int64 :=
  match start with
  | none => 0
  | some start =>
      if saturatingAdd start length < 0 then 0
      else if start < 0 then start + length
      else if start > length then length - 1
      else start

/-- An absent stop, or one past the end, is the length; a stop before the
first element is `-1`, which only a backward walk can reach. -/
def resolveStop (stop : Option Int64) (length : Int64) : Int64 :=
  match stop with
  | none => length
  | some stop =>
      if stop > length then length
      else if saturatingAdd stop length < 0 then -1
      else if stop < 0 then stop + length
      else stop

/-- The step is one unless given, and never zero. -/
def resolveStep (step : Option Int64) : Except BuildError Int64 :=
  match step with
  | none => .ok 1
  | some step =>
      if step = 0 then .error (.invalidArgument "step" "must not be zero") else .ok step

/-- A length as a word; longer ones count as the greatest word. -/
def lengthWord (length : Nat) : Int64 :=
  if length ≤ Int64.maxValue.toInt.toNat then Int64.ofNat length else Int64.maxValue

end Slice

def inspectWord (word : Int64) : String := toString word.toInt

def inspectBound (bound : Option Int64) : String :=
  Text.option (bound.map inspectWord)

/-- A start, a stop and a step as the caller gives them. -/
structure SliceBounds where
  start : Option Int64 := none
  stop : Option Int64 := none
  step : Option Int64 := none
  deriving DecidableEq, Repr, Inhabited

/-- A start, a stop and a step made concrete for a source of known length. -/
structure ResolvedSlice where
  start : Int64
  stop : Int64
  step : Int64
  length : Int64
  deriving DecidableEq, Repr

/-- A walk over the indices of a resolved slice. -/
structure SliceIndices where
  current : Int64
  stop : Int64
  step : Int64
  length : Int64
  deriving DecidableEq, Repr

namespace SliceBounds

def resolve (bounds : SliceBounds) (length : Nat) : Except BuildError ResolvedSlice :=
  match Slice.resolveStep bounds.step with
  | .error refusal => .error refusal
  | .ok step =>
      .ok {
        start := Slice.resolveStart bounds.start (Slice.lengthWord length)
        stop := Slice.resolveStop bounds.stop (Slice.lengthWord length)
        step := step
        length := Slice.lengthWord length }

def inspect (bounds : SliceBounds) : String :=
  Text.record "SliceBounds"
    [("start", inspectBound bounds.start), ("stop", inspectBound bounds.stop),
      ("step", inspectBound bounds.step)]

end SliceBounds

namespace ResolvedSlice

def indices (slice : ResolvedSlice) : SliceIndices where
  current := slice.start
  stop := slice.stop
  step := slice.step
  length := slice.length

def inspect (slice : ResolvedSlice) : String :=
  Text.record "ResolvedSlice"
    [("start", inspectWord slice.start), ("stop", inspectWord slice.stop),
      ("step", inspectWord slice.step), ("length", inspectWord slice.length)]

end ResolvedSlice

namespace SliceIndices

/-- Where the walk stands: a backward walk that starts at or past the length
begins at the last index. -/
def here (walk : SliceIndices) : Int64 :=
  if walk.step < 0 ∧ walk.length ≤ walk.current then walk.length - 1 else walk.current

/-- The walk has not reached its stop, seen in the direction of the step. -/
def beforeStop (walk : SliceIndices) (position : Int64) : Bool :=
  if walk.step > 0 then position < walk.stop else position > walk.stop

/-- The next index, if the walk stands on one before its stop. -/
def next (walk : SliceIndices) : Option Nat × SliceIndices :=
  let position := walk.here
  if !walk.beforeStop position || position < 0 || walk.length ≤ position then
    (none, { walk with current := position })
  else
    (some position.toInt.toNat,
      { walk with current := Slice.saturatingAdd position walk.step })

/-- The next `limit` indices, or fewer if the walk ends before. -/
def advance : Nat → SliceIndices → List Nat × SliceIndices
  | 0, walk => ([], walk)
  | limit + 1, walk =>
      match walk.next with
      | (none, walk) => ([], walk)
      | (some index, walk) =>
          let (indices, walk) := advance limit walk
          (index :: indices, walk)

def inspect (walk : SliceIndices) : String :=
  Text.record "SliceIndices"
    [("current", inspectWord walk.current), ("stop", inspectWord walk.stop),
      ("step", inspectWord walk.step), ("length", inspectWord walk.length)]

end SliceIndices

end Traversals
