import Traversals.Closure.Mapper
import Traversals.Closure.Predicate
import Traversals.Product.Nested
import Traversals.Product.Rows
import Traversals.Script
import Traversals.Stage.Batches
import Traversals.Stage.Chained
import Traversals.Stage.Comprehension
import Traversals.Stage.Cycle
import Traversals.Stage.Elementwise
import Traversals.Stage.SubSequence
import Traversals.Stage.While
import Traversals.Zip.All
import Traversals.Zip.Enumerate

/-!
# Pipelines

A pipeline is a traversal assembled from stages over values. It is a plain
value: a copy continues from the same state, so a pipeline is also a source
that can be traversed again. Memos and the predicates of comprehensions live
outside it and are named by their places, so copies share them.
-/

namespace Traversals

/-- A position in a memo that lives outside the pipeline. -/
structure MemoTraversal where
  memo : Nat
  position : Nat
  /-- The name it is shown by. -/
  title : String

inductive Pipeline where
  | source (tag : Option String) (script : Script Value)
  | integers (integers : Integers)
  | mapped (stage : Mapped Pipeline Mapper)
  | filtered (stage : Filtered Pipeline Predicate)
  | tapped (stage : Tapped Pipeline (Option String))
  | comprehension (stage : Comprehension Pipeline Mapper Nat)
  | subSequence (stage : SubSequence Pipeline)
  | takeWhile (stage : TakeWhile Pipeline Predicate)
  | dropWhile (stage : DropWhile Pipeline Predicate)
  | concat (stage : Concat Pipeline Pipeline)
  | flattened (stage : Flattened Pipeline Value)
  | cycle (cycle : Cycle Pipeline Pipeline)
  | enumerate (stage : Enumerate Pipeline)
  | zipAll (zip : ZipAll Pipeline)
  /-- A zip of fixed width; the width is the number of traversals. -/
  | zip (traversals : List Pipeline) (exhausted : Bool)
  | product (product : CartesianProduct Pipeline Pipeline Value)
  /-- A nested product; the width is kept to be shown. -/
  | nested (width : Nat) (product : Nested Pipeline Pipeline Value)
  | memoized (traversal : MemoTraversal)
  /-- Batches, each drained before it is answered. -/
  | chunked (batches : Batches Pipeline)

namespace Pipeline

def nameOnly (name : String) : String := "<" ++ name ++ ">"

mutual

/-- The text of a pipeline in its present state. -/
def inspect : Pipeline → String
  | source tag script => "Src(" ++ tag.getD "-" ++ "@" ++ toString script.position ++ ")"
  | integers counter => counter.inspect
  | mapped ⟨input, mapper⟩ => Mapped.inspect ⟨input.inspect, mapper⟩
  | filtered ⟨input, predicate⟩ => Filtered.inspect ⟨input.inspect, predicate⟩
  | tapped ⟨input, effect⟩ => Tapped.inspect ⟨input.inspect, effect⟩
  | comprehension ⟨input, mapper, predicates, ne⟩ =>
      Comprehension.inspect ⟨input.inspect, mapper, predicates, ne⟩
  | subSequence ⟨input, gap, stride, remaining, pos⟩ =>
      SubSequence.inspect ⟨input.inspect, gap, stride, remaining, pos⟩
  | takeWhile _ => nameOnly "take_while"
  | dropWhile _ => nameOnly "drop_while"
  | concat _ => nameOnly "concat"
  | flattened _ => nameOnly "flatten"
  | cycle ⟨again, current, passesLeft, yielded⟩ =>
      Cycle.inspect ⟨again.inspect, current, passesLeft, yielded⟩
  | enumerate ⟨counter, input, exhausted⟩ =>
      Enumerate.inspect ⟨counter, input.inspect, exhausted⟩
  | zipAll ⟨traversals, exhausted⟩ => ZipAll.inspect ⟨inspectAll traversals, exhausted⟩
  | zip traversals exhausted => Zip.inspect (Zip.ofList (inspectAll traversals) exhausted)
  | product stage => stage.inspect
  | nested 2 (.pair stage) => stage.inspect
  | nested width _ => nameOnly ("product" ++ toString width)
  | memoized traversal => nameOnly traversal.title
  | chunked _ => nameOnly "batched"

def inspectAll : List Pipeline → List String
  | [] => []
  | pipeline :: rest => pipeline.inspect :: inspectAll rest

end

mutual

/-- What is known of the number of elements left before the next end. A flattened
pipeline tells nothing, not even of the list that it has at hand. -/
def hint : Pipeline → SizeHint
  | source _ script => script.currentHint
  | integers counter => counter.hint
  | mapped ⟨input, mapper⟩ => Mapped.hint id ⟨input.hint, mapper⟩
  | filtered ⟨input, predicate⟩ => Filtered.hint id ⟨input.hint, predicate⟩
  | tapped ⟨input, effect⟩ => Tapped.hint id ⟨input.hint, effect⟩
  | comprehension ⟨input, mapper, predicates, ne⟩ =>
      Comprehension.hint id ⟨input.hint, mapper, predicates, ne⟩
  | subSequence ⟨input, gap, stride, remaining, pos⟩ =>
      SubSequence.hint id ⟨input.hint, gap, stride, remaining, pos⟩
  | takeWhile ⟨input, predicate, finished⟩ =>
      TakeWhile.hint id ⟨input.hint, predicate, finished⟩
  | dropWhile ⟨input, predicate, started⟩ =>
      DropWhile.hint id ⟨input.hint, predicate, started⟩
  | concat ⟨⟨some first⟩, second⟩ => Concat.hint id id ⟨.live first.hint, second.hint⟩
  | concat ⟨⟨none⟩, second⟩ => Concat.hint id id ⟨.ended, second.hint⟩
  | enumerate ⟨counter, input, exhausted⟩ =>
      Enumerate.hint id ⟨counter, input.hint, exhausted⟩
  | zipAll ⟨traversals, exhausted⟩ => ZipAll.hint id ⟨hintAll traversals, exhausted⟩
  | zip traversals exhausted => Zip.hint id (Zip.ofList (hintAll traversals) exhausted)
  | flattened _ => .unknown
  | cycle _ => .unknown
  | product _ => .unknown
  | nested _ _ => .unknown
  | memoized _ => .unknown
  | chunked _ => .unknown

def hintAll : List Pipeline → List SizeHint
  | [] => []
  | pipeline :: rest => pipeline.hint :: hintAll rest

end

end Pipeline

end Traversals
