import Traversals.Eager.Checked
import Traversals.Pipeline.Store

/-!
# Pulling a pipeline

Each pull of a pipeline is the pull of its outermost stage over the pulls of
the pipelines below, which have a smaller budget. A new traversal of a
pipeline is a copy of it. A pipeline promises nothing of its ends: a script may
go on after one.
-/

namespace Traversals

def pullSource (tag : Option String) : Pull Store (Script Value) Value := fun script => do
  let (answer, script) := script.next
  match answer with
  | none => report tag .ended
  | some value => report tag fun tag => .pulled tag value
  return (answer, script)

/-- Pulls the memo at a place for the element at a position of it. -/
def pullMemo (pull : Pull Store Pipeline Value) : Pull Store MemoTraversal Value :=
  fun traversal => do
    let store ← get
    match store.memos[traversal.memo]? with
    | none => return (none, traversal)
    | some memo =>
        let (answer, memo) ← memo.fetch .nothing pull traversal.position
        modify fun store => store.setMemo traversal.memo memo
        return (answer, { traversal with position := advanced answer traversal.position })

/-- Pulls a batch by way of the batches at a place. -/
def pullBatch (pull : Pull Store Pipeline Value) (place : Nat) : Pull Store (Batch Value) Value :=
  fun batch => do
    let store ← get
    match store.batches[place]? with
    | none => return (none, batch)
    | some batches =>
        let (answer, batch, batches) ← Batch.next .nothing pull (batch, batches)
        modify fun store => store.setBatches place batches
        return (answer, batch)

/-- Makes the next batch of the batches at a place. -/
def nextBatch (pull : Pull Store Pipeline Value) (place : Nat) :
    Run Store (Option (Batch Value)) := do
  let store ← get
  match store.batches[place]? with
  | none => return none
  | some batches =>
      let (batch, batches) ← batches.next .nothing pull
      modify fun store => store.setBatches place batches
      return batch

namespace Pipeline

/-- A copy. -/
def restart : Start Store Pipeline Pipeline := pure

def next : Nat → Pull Store Pipeline Value
  | 0, _ => Run.outOfBudget
  | _ + 1, source tag script => do
      let (answer, script) ← pullSource tag script
      return (answer, source tag script)
  | _ + 1, integers counter =>
      match counter.next with
      | (n, counter) => return (n.map fun n => .int n, integers counter)
  | budget + 1, mapped stage => do
      let (answer, stage) ← Mapped.next (next budget) Mapper.apply stage
      return (answer, mapped stage)
  | budget + 1, filtered stage => do
      let (answer, stage) ← Filtered.next (next budget) Predicate.ask budget stage
      return (answer, filtered stage)
  | budget + 1, tapped stage => do
      let (answer, stage) ← Tapped.next (next budget) visit stage
      return (answer, tapped stage)
  | budget + 1, comprehension stage => do
      let (answer, stage) ←
        Comprehension.next (next budget) Store.ask Mapper.apply budget stage
      return (answer, comprehension stage)
  | budget + 1, subSequence stage => do
      let (answer, stage) ← SubSequence.next (next budget) stage
      return (answer, subSequence stage)
  | budget + 1, takeWhile stage => do
      let (answer, stage) ← TakeWhile.next (next budget) Predicate.ask stage
      return (answer, takeWhile stage)
  | budget + 1, dropWhile stage => do
      let (answer, stage) ← DropWhile.next (next budget) Predicate.ask budget stage
      return (answer, dropWhile stage)
  | budget + 1, concat stage => do
      let (answer, stage) ← Concat.next (next budget) (next budget) stage
      return (answer, concat stage)
  | budget + 1, flattened stage => do
      let (answer, stage) ← Flattened.next .nothing (next budget) Value.elements budget stage
      return (answer, flattened stage)
  | budget + 1, cycle stage => do
      let (answer, stage) ← Cycle.next restart (next budget) stage
      return (answer, cycle stage)
  | budget + 1, enumerate stage => do
      let (answer, stage) ← Enumerate.next (next budget) stage
      return (answer.map fun element => .indexed element.index element.value, enumerate stage)
  | budget + 1, zipAll stage => do
      let (row, stage) ← ZipAll.next (next budget) stage
      return (row.map .list, zipAll stage)
  | budget + 1, zip traversals exhausted => do
      let (row, stage) ← Zip.next (next budget) (Zip.ofList traversals exhausted)
      return (row.map fun row => .list row.toList, zip stage.toList stage.exhausted)
  | budget + 1, product stage => do
      let (row, stage) ← CartesianProduct.next restart (next budget) budget stage
      return (row.map .list, product stage)
  | budget + 1, nested width stage => do
      let (row, stage) ← Nested.next restart (next budget) budget stage
      return (row.map .list, nested width stage)
  | budget + 1, memoized traversal => do
      let (answer, traversal) ← pullMemo (next budget) traversal
      return (answer, memoized traversal)
  | budget + 1, chunked batches => do
      let (chunk, batches) ← Batches.nextDrained .nothing (next budget) budget batches
      return (chunk.map .list, chunked batches)

end Pipeline

end Traversals
