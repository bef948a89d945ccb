import Mathlib.Tactic.Lemma
import Traversals.Expression.Builder

/-!
# What the calls of a builder come to

Of the mappers the last one counts, and of the predicates all count, in the
order they were added. So a builder comes to the same comprehension as a mapper
and a list of predicates that are given at once, and is refused for the same
lack of predicates; but the lack of a mapper is reported first. Nothing else is
touched by building, in particular not the input.
-/

namespace Traversals

variable {τ φ π : Type}

namespace ComprehensionBuilder

namespace Call

/-- The mapper that a call sets. -/
def mapper? : Call φ π → Option φ
  | mapper f => some f
  | predicate _ => none
  | sharedPredicate _ => none

/-- The predicate that a call adds. -/
def predicate? : Call φ π → Option π
  | mapper _ => none
  | predicate p => some p
  | sharedPredicate p => some p

end Call

/-- The mapper of the last call that sets one. -/
def lastMapper (calls : List (Call φ π)) : Option φ := (calls.filterMap Call.mapper?).getLast?

/-- The predicates that are added, in order. -/
def added (calls : List (Call φ π)) : List π := calls.filterMap Call.predicate?

section Calls

variable (call : Call φ π) (calls : List (Call φ π))

lemma lastMapper_cons : lastMapper (call :: calls) = (lastMapper calls).or call.mapper? := by
  cases call with
  | mapper f => simp [lastMapper, Call.mapper?, List.getLast?_cons]
  | predicate p => simp [lastMapper, Call.mapper?]
  | sharedPredicate p => simp [lastMapper, Call.mapper?]

lemma added_cons : added (call :: calls) = call.predicate?.toList ++ added calls := by
  cases call <;> rfl

lemma call_eq (builder : ComprehensionBuilder φ π) : builder.call call =
    ⟨call.mapper?.or builder.mapper, builder.predicates ++ call.predicate?.toList⟩ := by
  cases call with
  | mapper f => simp [ComprehensionBuilder.call, setMapper, Call.mapper?, Call.predicate?]
  | predicate p => rfl
  | sharedPredicate p => rfl

/-- Later mappers take the place of earlier ones, and later predicates follow
on earlier ones. -/
lemma foldl_call (builder : ComprehensionBuilder φ π) :
    calls.foldl ComprehensionBuilder.call builder =
      ⟨(lastMapper calls).or builder.mapper, builder.predicates ++ added calls⟩ := by
  induction calls generalizing builder with
  | nil => simp [lastMapper, added]
  | cons call calls ih =>
    rw [List.foldl_cons, ih, call_eq, lastMapper_cons, added_cons, Option.or_assoc,
      List.append_assoc]

end Calls

/-- What a builder builds if it has come to a mapper and predicates. -/
structure Builds (builder : ComprehensionBuilder φ π) (mapper : Option φ) (predicates : List π) :
    Prop where
  without_mapper : mapper = none → ∀ {τ : Type} (input : τ),
    builder.build input = .error (.missingArgument "mapper")
  without_predicate : ∀ f, mapper = some f → predicates = [] → ∀ {τ : Type} (input : τ),
    builder.build input = .error (.missingArgument "predicates")
  positional : ∀ f, mapper = some f → predicates ≠ [] → ∀ {τ : Type} (input : τ),
    ∃ stage, builder.build input = .ok stage ∧ Comprehension.make input f predicates = .ok stage ∧
      stage.input = input ∧ stage.predicateCount = predicates.length

lemma builds (mapper : Option φ) (predicates : List π) :
    Builds ⟨mapper, predicates⟩ mapper predicates where
  without_mapper := by
    rintro rfl τ input
    rfl
  without_predicate := by
    rintro f rfl rfl τ input
    rfl
  positional := by
    rintro f rfl some_predicate τ input
    have hmake : Comprehension.make input f predicates =
        .ok ⟨input, f, predicates, some_predicate⟩ := dif_neg some_predicate
    exact ⟨⟨input, f, predicates, some_predicate⟩, hmake, hmake, rfl, rfl⟩

/-- The calls as they are performed, with the places of their predicates. -/
lemma performAll_eq (builder : ComprehensionBuilder Mapper Nat) (calls : List BuilderCall)
    (store : Store) : ∃ texts placed,
      builder.performAll calls store =
        ((texts, placed.foldl call builder), (store.addPredicates (added calls)).2) ∧
      lastMapper placed = lastMapper calls ∧
      added placed = (store.addPredicates (added calls)).1 := by
  induction calls generalizing builder store with
  | nil => exact ⟨[builder.inspect], [], rfl, rfl, rfl⟩
  | cons call calls ih =>
    obtain ⟨texts, placed, hperform, hmapper, hadded⟩ :=
      ih (builder.perform store call).1 (builder.perform store call).2
    refine ⟨builder.inspect :: texts, (store.placeCall call).1 :: placed, ?_, ?_, ?_⟩
    · simp only [performAll, hperform]
      cases call <;> rfl
    · rw [lastMapper_cons, lastMapper_cons, hmapper]
      cases call <;> rfl
    · rw [added_cons, hadded]
      cases call <;> rfl

end ComprehensionBuilder

namespace Store

/-- Predicates are added behind those that are there, and nothing else is. -/
lemma addPredicates_eq (store : Store) (predicates : List Predicate) :
    store.addPredicates predicates =
      (List.range' store.predicates.size predicates.length,
        { store with predicates := store.predicates ++ predicates }) := by
  induction predicates generalizing store with
  | nil => simp [addPredicates]
  | cons predicate predicates ih => simp [addPredicates, addPredicate, ih, List.range'_succ]

end Store

open ComprehensionBuilder in
/-- Whatever its calls, a builder builds what the last mapper and all predicates
would build if they were given at once: the same stage over the same input, so
all its pulls are the same. A missing mapper is reported before a missing
predicate. Over a store the predicates have places, and the stage and the store
are those of the comprehension with the same mapper and predicates. The store
has changed by the predicates alone, so nothing has been pulled. -/
theorem builder_is_positional :
    (∀ calls : List (Call φ π), Builds (calls.foldl call {}) (lastMapper calls) (added calls)) ∧
    ∀ (calls : List BuilderCall) (store : Store), ∃ texts builder store',
      ComprehensionBuilder.performAll {} calls store = ((texts, builder), store') ∧
      Builds builder (lastMapper calls) (store.addPredicates (added calls)).1 ∧
      (∀ f, lastMapper calls = some f → ∀ input,
        Building.ofExcept (builder.build input) store' =
          comprehensionOver f (added calls) input store) ∧
      store' = { store with predicates := store.predicates ++ added calls } := by
  have built : ∀ {φ π : Type} (calls : List (Call φ π)),
      calls.foldl call {} = ⟨lastMapper calls, added calls⟩ := by
    intro φ π calls
    rw [foldl_call, Option.or_none, List.nil_append]
  constructor
  · intro calls
    rw [built]
    exact builds _ _
  · intro calls store
    obtain ⟨texts, placed, hperform, hmapper, hadded⟩ :=
      ComprehensionBuilder.performAll_eq {} calls store
    rw [built, hmapper, hadded] at hperform
    refine ⟨texts, _, _, hperform, builds _ _, fun f hf input => ?_, ?_⟩
    · rw [hf]
      rfl
    · rw [Store.addPredicates_eq]

end Traversals
