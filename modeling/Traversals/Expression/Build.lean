import Traversals.Expression.Basic
import Traversals.Pipeline.Next

/-!
# Building expressions

An expression becomes a pipeline over the shared store. Its parts are built in
the order written, and the first refusal is the result. Building adds memos
and predicates to the store, and pulls nothing.
-/

namespace Traversals

/-- What a name can stand for. -/
inductive Slot where
  | pipeline (pipeline : Pipeline)
  | memo (place : Nat)
  | batches (place : Nat)
  /-- A batch cut from the batches at a place. -/
  | batch (place : Nat) (batch : Batch Value)

abbrev Slots : Type := List (String × Slot)

inductive Refusal where
  /-- A name that stands for nothing suitable. -/
  | absent
  | invalid (error : BuildError)

abbrev Building : Type → Type := StateT Store (Except Refusal)

namespace Building

variable {α : Type}

def refuse (refusal : Refusal) : Building α := throw refusal

def ofExcept : Except BuildError α → Building α
  | .ok x => return x
  | .error error => refuse (.invalid error)

def addMemo (source : Pipeline) : Building Nat :=
  modifyGet fun store => store.addMemo (.make source)

def addBatches (batches : Batches Pipeline) : Building Nat :=
  modifyGet fun store => store.addBatches batches

def addPredicates (predicates : List Predicate) : Building (List Nat) :=
  modifyGet fun store => store.addPredicates predicates

end Building

namespace Slots

def find (slots : Slots) (name : String) : Option Slot := slots.lookup name

def set (slots : Slots) (name : String) (slot : Slot) : Slots :=
  (name, slot) :: slots.filter fun entry => entry.1 != name

def erase (slots : Slots) (name : String) : Slots :=
  slots.filter fun entry => entry.1 != name

end Slots

/-- A traversal of a memo from its first element. -/
def Pipeline.ofMemo (memo : Nat) : Pipeline :=
  .memoized { memo, position := 0, title := "memo" }

def Slots.pipeline (slots : Slots) (name : String) : Building Pipeline :=
  match slots.find name with
  | some (.pipeline pipeline) => return pipeline
  | some (.memo place) => return .ofMemo place
  | _ => Building.refuse .absent

/-- A range counts up from its start, up to its stop if there is one. -/
def rangeScript (start : Int) (stop : Option Int) (hint : Option SizeHint) : Script Value :=
  Script.ofFunction (fun position => .int (start + position))
    (stop.map fun stop => (stop - start).toNat) hint

def mappedTimes (mapper : Mapper) : Nat → Pipeline → Pipeline
  | 0, pipeline => pipeline
  | times + 1, pipeline => mappedTimes mapper times (.mapped ⟨pipeline, mapper⟩)

/-- A comprehension whose predicates live in the store. -/
def comprehensionOver (mapper : Mapper) (predicates : List Predicate) (input : Pipeline) :
    Building (Comprehension Pipeline Mapper Nat) := do
  let places ← Building.addPredicates predicates
  Building.ofExcept (Comprehension.make input mapper places)

/-- A memo of the batches of a pipeline, each drained. -/
def batchedOver (size : Nat) (input : Pipeline) : Building Pipeline := do
  let batches ← Building.ofExcept (Batches.make input size)
  let memo ← Building.addMemo (.chunked batches)
  return .memoized { memo, position := 0, title := "batched" }

namespace Expression

mutual

def build (slots : Slots) : Expression → Building Pipeline
  | list answers tag hint => return .source tag (Script.ofAnswers answers.toArray hint)
  | range start stop tag hint => return .source tag (rangeScript start stop hint)
  | reference slot => slots.pipeline slot
  | integers start => return .integers (.startingAt start)
  | map mapper source => do
      let input ← source.build slots
      return .mapped ⟨input, mapper⟩
  | mapTimes times mapper source => do
      let input ← source.build slots
      return mappedTimes mapper times input
  | filter predicate source => do
      let input ← source.build slots
      return .filtered ⟨input, predicate⟩
  | each tag source => do
      let input ← source.build slots
      return .tapped ⟨input, tag⟩
  | take count source => do
      let input ← source.build slots
      return .subSequence (.take input count)
  | drop count source => do
      let input ← source.build slots
      return .subSequence (.drop input count)
  | rest source => do
      let input ← source.build slots
      return .subSequence (.rest input)
  | subSequence dropped taken stride source => do
      let input ← source.build slots
      let stage ← Building.ofExcept (SubSequence.make input dropped taken stride)
      return .subSequence stage
  | slice start stop step source => do
      let input ← source.build slots
      let stage ← Building.ofExcept (SubSequence.slice input start stop step)
      return .subSequence stage
  | cycle source => do
      let input ← source.build slots
      return .cycle (.unbounded input)
  | repeated passes source => do
      let input ← source.build slots
      return .cycle (.bounded input passes)
  | enumerate source => do
      let input ← source.build slots
      return .enumerate (.ofTraversal input)
  | comprehension mapper predicates source => do
      let input ← source.build slots
      let stage ← comprehensionOver mapper predicates input
      return .comprehension stage
  | takeWhile predicate source => do
      let input ← source.build slots
      return .takeWhile { input, predicate }
  | dropWhile predicate source => do
      let input ← source.build slots
      return .dropWhile { input, predicate }
  | concat first second => do
      let first ← first.build slots
      let second ← second.build slots
      return .concat ⟨.live first, second⟩
  | flatten source => do
      let input ← source.build slots
      return .flattened ⟨.live input, []⟩
  | zip sources => do
      let traversals ← buildAll slots sources
      return .zip traversals false
  | zipAll sources => do
      let traversals ← buildAll slots sources
      return .zipAll (.ofList traversals)
  | product sources => do
      let sources ← buildAll slots sources
      return .product (.ofSources sources)
  | nestedProduct first others => do
      let head ← first.build slots
      let others ← buildAll slots others
      return .nested (others.length + 1) (.ofSources head others)
  | memoize source => do
      let input ← source.build slots
      let memo ← Building.addMemo input
      return .ofMemo memo
  | batched size source => do
      let input ← source.build slots
      batchedOver size input

def buildAll (slots : Slots) : List Expression → Building (List Pipeline)
  | [] => return []
  | expression :: others => do
      let pipeline ← expression.build slots
      let pipelines ← buildAll slots others
      return pipeline :: pipelines

end

end Expression

end Traversals
