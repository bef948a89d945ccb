import Traversals.Closure.Mapper
import Traversals.Closure.Predicate
import Traversals.SizeHint

/-!
# Expressions

A written description of a pipeline: a source, or a stage over further
expressions. A reference stands for the pipeline in a named slot.
-/

namespace Traversals

inductive Expression where
  /-- Answers in order, where a gap is an end in the middle. -/
  | list (answers : List (Option Value)) (tag : Option String) (hint : Option SizeHint)
  | range (start : Int) (stop : Option Int) (tag : Option String) (hint : Option SizeHint)
  | reference (slot : String)
  | integers (start : Nat)
  | map (mapper : Mapper) (source : Expression)
  /-- So many mapped stages on top of each other. -/
  | mapTimes (times : Nat) (mapper : Mapper) (source : Expression)
  | filter (predicate : Predicate) (source : Expression)
  | each (tag : Option String) (source : Expression)
  | take (count : Nat) (source : Expression)
  | drop (count : Nat) (source : Expression)
  | rest (source : Expression)
  | subSequence (dropped : Nat) (taken : Option Nat) (stride : Nat) (source : Expression)
  | slice (start : Nat) (stop : Option Nat) (step : Nat) (source : Expression)
  | cycle (source : Expression)
  | repeated (passes : Nat) (source : Expression)
  | enumerate (source : Expression)
  | comprehension (mapper : Mapper) (predicates : List Predicate) (source : Expression)
  | takeWhile (predicate : Predicate) (source : Expression)
  | dropWhile (predicate : Predicate) (source : Expression)
  | concat (first second : Expression)
  | flatten (source : Expression)
  | zip (sources : List Expression)
  | zipAll (sources : List Expression)
  | product (sources : List Expression)
  | nestedProduct (first : Expression) (others : List Expression)
  | memoize (source : Expression)
  | batched (size : Nat) (source : Expression)

end Traversals
