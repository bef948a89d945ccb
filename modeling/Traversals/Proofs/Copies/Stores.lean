import Traversals.Proofs.Comparison.Pipelines

/-!
# What a store tells

Copies of a pipeline share a store. All that they learn from it is what its
predicates answer and what its memos deliver. A memo is known by the elements
that a new traversal of it would be given, however far its cache has got, so
stores with different caches can tell the same. The log is not read.

Memos are made one after the other, so the source of a memo only has traversals
of earlier ones in it.
-/

namespace Traversals

open Filter
open Comparison (FusedFits PipelineFits)

namespace Predicate

/-- The answer and the predicate after it, without the reports. -/
def reply : Predicate → Value → Bool × Predicate
  | test tag memory step, argument =>
      let (answer, memory) := step memory argument
      (answer, test tag memory step)
  | negated tag inner, argument =>
      let (answer, inner) := inner.reply argument
      (!answer, negated tag inner)

lemma ask_reply (predicate : Predicate) (argument : Value) (store : Store) :
    ∃ log, predicate.ask argument store =
      some (predicate.reply argument, { store with log }) := by
  induction predicate generalizing store with
  | test tag memory step =>
    cases tag with
    | none => exact ⟨store.log, rfl⟩
    | some tag => exact ⟨_, rfl⟩
  | negated tag inner ih =>
    obtain ⟨log, hinner⟩ := ih store
    cases tag with
    | none =>
      refine ⟨log, ?_⟩
      rw [ask, Run.bind_apply, hinner]
      rfl
    | some tag =>
      refine ⟨log.push (.tested tag argument !(inner.reply argument).1), ?_⟩
      rw [ask, Run.bind_apply, hinner]
      rfl

/-- The answers depend on the argument alone, whatever was asked before. -/
def AnswersBy (verdict : Value → Bool) (predicate : Predicate) : Prop :=
  ∀ (asked : List Value) (argument : Value),
    ((asked.foldl (fun predicate earlier => (predicate.reply earlier).2) predicate).reply
      argument).1 = verdict argument

lemma AnswersBy.answer_eq {verdict : Value → Bool} {predicate : Predicate}
    (answers : predicate.AnswersBy verdict) (argument : Value) :
    (predicate.reply argument).1 = verdict argument :=
  answers [] argument

lemma AnswersBy.next {verdict : Value → Bool} {predicate : Predicate}
    (answers : predicate.AnswersBy verdict) (argument : Value) :
    (predicate.reply argument).2.AnswersBy verdict :=
  fun asked => answers (argument :: asked)

lemma AnswersBy.unique {verdict verdict' : Value → Bool} {predicate : Predicate}
    (answers : predicate.AnswersBy verdict) (answers' : predicate.AnswersBy verdict') :
    verdict = verdict' :=
  funext fun argument => (answers.answer_eq argument).symm.trans (answers'.answer_eq argument)

end Predicate

namespace Memo

variable {τ α : Type}

/-- The memo after its source has answered. -/
def resumed (memo : Memo τ α) (source : Fused τ) : Option α → Memo τ α
  | none => { memo with source }
  | some x => ⟨source, memo.cache.push x⟩

lemma le_resumed (memo : Memo τ α) (source : Fused τ) (answer : Option α) :
    memo.cache.size ≤ (memo.resumed source answer).cache.size := by
  cases answer <;> simp [resumed]

lemma resumed_source (memo : Memo τ α) (source : Fused τ) (answer : Option α) :
    (memo.resumed source answer).source = source := by
  cases answer <;> rfl

end Memo

section Pulls

variable (pull : Pull Store Pipeline Value) {traversal : MemoTraversal} {store : Store}
  {memo : Memo Pipeline Value}

/-- Inside the cache nothing is pulled and nothing changes. -/
lemma pullMemo_hit (held : store.memos[traversal.memo]? = some memo) {x : Value}
    (hx : memo.cache[traversal.position]? = some x) :
    pullMemo pull traversal store =
      some ((some x, { traversal with position := traversal.position + 1 }), store) := by
  have hset : store.setMemo traversal.memo memo = store := by
    obtain ⟨inside, hget⟩ := Array.getElem?_eq_some_iff.mp held
    simp [Store.setMemo, Array.setIfInBounds_def, inside, ← hget]
  simp [pullMemo, Memo.fetch, Run.bind_apply, Run.map_apply, Run.get_apply, Run.modify_apply, held,
    hx, advanced, hset]

/-- At its edge the source is asked. -/
lemma pullMemo_miss (held : store.memos[traversal.memo]? = some memo)
    (edge : memo.cache.size ≤ traversal.position) :
    pullMemo pull traversal store =
      (Fused.next .nothing pull memo.source store).map fun result =>
        ((result.1.1, { traversal with position := advanced result.1.1 traversal.position }),
          result.2.setMemo traversal.memo (memo.resumed result.1.2 result.1.1)) := by
  have hx : memo.cache[traversal.position]? = none := Array.getElem?_eq_none edge
  cases hnext : Fused.next .nothing pull memo.source store with
  | none => simp [pullMemo, Memo.fetch, Run.bind_apply, Run.get_apply, held, hx, hnext]
  | some result =>
    obtain ⟨⟨_ | x, source⟩, store'⟩ := result
    · simp [pullMemo, Memo.fetch, Run.bind_apply, Run.map_apply, Run.get_apply, Run.modify_apply,
        held, hx, hnext, Memo.resumed]
    · simp [pullMemo, Memo.fetch, Run.bind_apply, Run.map_apply, Run.get_apply, Run.modify_apply,
        held, hx, hnext, Memo.resumed]

/-- Elements in the cache can be skipped. -/
lemma nth_pullMemo_skip {place position : ℕ} {title : String}
    (held : store.memos[place]? = some memo) (skipped n : ℕ)
    (inside : position + skipped ≤ memo.cache.size) :
    nth (pullMemo pull) (skipped + n) ⟨place, position, title⟩ store =
      nth (pullMemo pull) n ⟨place, position + skipped, title⟩ store := by
  induction skipped generalizing position with
  | zero => simp
  | succ skipped ih =>
    have hposition : position < memo.cache.size := by omega
    have hx : memo.cache[position]? = some memo.cache[position] :=
      Array.getElem?_eq_getElem hposition
    have hpull : pullMemo pull ⟨place, position, title⟩ store = _ := pullMemo_hit pull held hx
    rw [Nat.add_right_comm, nth, Run.bind_apply, hpull, Option.bind_some]
    have hrest : position + 1 + skipped ≤ memo.cache.size := by omega
    exact (ih hrest).trans (by rw [Nat.add_right_comm, Nat.add_assoc])

end Pulls

namespace Store

/-- The predicate at a place answers by a verdict on the element. -/
def Judges (store : Store) (place : ℕ) (verdict : Value → Bool) : Prop :=
  ∃ predicate : Predicate, store.predicates[place]? = some predicate ∧ predicate.AnswersBy verdict

/-- What a new traversal of the memo at a place is answered by at position `n`. -/
def Tells (store : Store) (place n : ℕ) (answer : Option Value) : Prop :=
  ∀ᶠ budget in atTop,
    (nth (pullMemo (Pipeline.next budget)) n ⟨place, 0, ""⟩ store).map (·.1.1) = some answer

/-- A traversal of an earlier memo, somewhere in its cache or at the edge of it. -/
def Fits (level : ℕ) (traversal : MemoTraversal) (store : Store) : Prop :=
  traversal.memo < level ∧ ∃ memo, store.memos[traversal.memo]? = some memo ∧
    traversal.position ≤ memo.cache.size

/-- Memos have sources over earlier memos, and predicates answer by the element. -/
structure Sound (store : Store) : Prop where
  sources : ∀ (place : ℕ) (memo : Memo Pipeline Value), store.memos[place]? = some memo →
    FusedFits (PipelineFits (Fits place)) memo.source store
  predicates : ∀ (place : ℕ) (predicate : Predicate), store.predicates[place]? = some predicate →
    ∃ verdict, predicate.AnswersBy verdict

/-- No pull of a pipeline over the memos below a level can tell the stores apart. -/
structure Similar (level : ℕ) (store other : Store) : Prop where
  tells : ∀ place < level, ∀ n answer, store.Tells place n answer ↔ other.Tells place n answer
  judges : ∀ place verdict, store.Judges place verdict ↔ other.Judges place verdict

/-- No memo is removed and no cache shrinks. -/
def Grows (store later : Store) : Prop :=
  ∀ (place : ℕ) (memo : Memo Pipeline Value), store.memos[place]? = some memo →
    ∃ memo', later.memos[place]? = some memo' ∧ memo.cache.size ≤ memo'.cache.size

/-- A store after pulls of pipelines over the memos below a level. -/
structure Continues (level : ℕ) (store later : Store) : Prop where
  similar : Similar level store later
  grows : store.Grows later
  above : ∀ place, level ≤ place → later.memos[place]? = store.memos[place]?

variable {level : ℕ} {store other third : Store}

namespace Similar

lemma refl (level : ℕ) (store : Store) : Similar level store store :=
  ⟨fun _ _ _ _ => Iff.rfl, fun _ _ => Iff.rfl⟩

lemma symm (similar : Similar level store other) : Similar level other store :=
  ⟨fun place h n answer => (similar.tells place h n answer).symm,
    fun place verdict => (similar.judges place verdict).symm⟩

lemma trans (similar : Similar level store other) (similar' : Similar level other third) :
    Similar level store third :=
  ⟨fun place h n answer => (similar.tells place h n answer).trans (similar'.tells place h n answer),
    fun place verdict => (similar.judges place verdict).trans (similar'.judges place verdict)⟩

/-- At level zero only the predicates are compared. -/
lemma zero (judges : ∀ place verdict, store.Judges place verdict ↔ other.Judges place verdict) :
    Similar 0 store other :=
  ⟨fun place h => absurd h place.not_lt_zero, judges⟩

lemma below {lower : ℕ} (similar : Similar level store other) (h : lower ≤ level) :
    Similar lower store other :=
  ⟨fun place hplace => similar.tells place (hplace.trans_le h), similar.judges⟩

end Similar

lemma Grows.refl (store : Store) : store.Grows store := fun _ memo h => ⟨memo, h, le_rfl⟩

lemma Grows.trans (grows : store.Grows other) (grows' : other.Grows third) :
    store.Grows third := by
  intro place memo held
  obtain ⟨memo', held', hsize⟩ := grows place memo held
  obtain ⟨memo'', held'', hsize'⟩ := grows' place memo' held'
  exact ⟨memo'', held'', hsize.trans hsize'⟩

lemma Fits.grows {traversal : MemoTraversal} (fits : Fits level traversal store)
    (grows : store.Grows other) : Fits level traversal other := by
  obtain ⟨below, memo, held, hposition⟩ := fits
  obtain ⟨memo', held', hsize⟩ := grows _ memo held
  exact ⟨below, memo', held', hposition.trans hsize⟩

namespace Continues

lemma refl (level : ℕ) (store : Store) : Continues level store store :=
  ⟨.refl level store, .refl store, fun _ _ => rfl⟩

lemma trans (continues : Continues level store other) (continues' : Continues level other third) :
    Continues level store third :=
  ⟨continues.similar.trans continues'.similar, continues.grows.trans continues'.grows,
    fun place h => (continues'.above place h).trans (continues.above place h)⟩

end Continues

/-- Sound stores that tell the same of the memos below a level. -/
def comparison (level : ℕ) : Comparison Store where
  Same store other := (store.Sound ∧ other.Sound) ∧ Similar level store other
  Later := Continues level
  later_refl := .refl level
  later_trans := .trans

lemma Fits.lasting (level : ℕ) (traversal : MemoTraversal) {upper : ℕ} :
    (comparison upper).Lasting (Fits level traversal) :=
  fun _ _ later fits => fits.grows later.grows

section Changes

variable {place : ℕ} {memo memo' : Memo Pipeline Value}

lemma setMemo_held (held : store.memos[place]? = some memo) (memo' : Memo Pipeline Value) :
    (store.setMemo place memo').memos[place]? = some memo' := by
  obtain ⟨inside, -⟩ := Array.getElem?_eq_some_iff.mp held
  exact Array.getElem?_setIfInBounds_self_of_lt inside

lemma setMemo_apart {place' : ℕ} (apart : place ≠ place') (memo' : Memo Pipeline Value) :
    (store.setMemo place memo').memos[place']? = store.memos[place']? :=
  Array.getElem?_setIfInBounds_ne apart

lemma grows_setMemo (held : store.memos[place]? = some memo)
    (hsize : memo.cache.size ≤ memo'.cache.size) : store.Grows (store.setMemo place memo') := by
  intro place' memo'' held'
  by_cases h : place = place'
  · subst h
    obtain rfl := Option.some.inj (held.symm.trans held')
    exact ⟨memo', setMemo_held held memo', hsize⟩
  · exact ⟨memo'', (setMemo_apart h memo').trans held', le_rfl⟩

/-- A memo that grows, and whose source goes on to fit, leaves the store sound. -/
lemma Sound.setMemo (sound : store.Sound) (held : store.memos[place]? = some memo)
    (hsize : memo.cache.size ≤ memo'.cache.size)
    (fits : FusedFits (PipelineFits (Fits place)) memo'.source store) :
    (store.setMemo place memo').Sound := by
  refine ⟨fun place' memo'' held' traversal h => ?_, sound.predicates⟩
  have grows := grows_setMemo held hsize
  by_cases hplace : place = place'
  · subst hplace
    obtain rfl := Option.some.inj ((setMemo_held held memo').symm.trans held')
    exact (fits traversal h).mono fun t ht => ht.grows grows
  · rw [setMemo_apart hplace memo'] at held'
    exact (sound.sources place' memo'' held' traversal h).mono fun t ht => ht.grows grows

/-- A store in which the log and the memories of predicates may be other ones. -/
structure Unchanged (store later : Store) : Prop where
  memos : later.memos = store.memos
  sound : later.Sound
  judges : ∀ place verdict, store.Judges place verdict ↔ later.Judges place verdict

lemma Sound.unchanged (sound : store.Sound) : Unchanged store store :=
  ⟨rfl, sound, fun _ _ => Iff.rfl⟩

lemma Sound.withLog (sound : store.Sound) (log : Array Event) :
    Unchanged store { store with log } :=
  ⟨rfl, ⟨sound.sources, sound.predicates⟩, fun _ _ => Iff.rfl⟩

lemma Sound.report (sound : store.Sound) (tag : Option String) (event : String → Event) :
    Unchanged store (store.report tag event) := by
  cases tag with
  | none => exact sound.unchanged
  | some tag => exact sound.withLog _

/-- A predicate that has been asked answers by the same verdict as before. -/
lemma Sound.asked (sound : store.Sound) {predicate : Predicate}
    (held : store.predicates[place]? = some predicate) (argument : Value) (log : Array Event) :
    Unchanged store { store with
      log, predicates := store.predicates.setIfInBounds place (predicate.reply argument).2 } := by
  obtain ⟨inside, -⟩ := Array.getElem?_eq_some_iff.mp held
  obtain ⟨verdict, answers⟩ := sound.predicates place predicate held
  have hset : (store.predicates.setIfInBounds place (predicate.reply argument).2)[place]? =
      some (predicate.reply argument).2 := Array.getElem?_setIfInBounds_self_of_lt inside
  refine ⟨rfl, ⟨sound.sources, fun place' predicate' held' => ?_⟩, fun place' verdict' => ?_⟩
  · by_cases h : place = place'
    · subst h
      obtain rfl := Option.some.inj (hset.symm.trans held')
      exact ⟨verdict, answers.next argument⟩
    · exact sound.predicates place' predicate'
        ((Array.getElem?_setIfInBounds_ne h).symm.trans held')
  · by_cases h : place = place'
    · subst h
      constructor
      · rintro ⟨predicate', held', answers'⟩
        obtain rfl := Option.some.inj (held.symm.trans held')
        exact ⟨_, hset, answers'.next argument⟩
      · rintro ⟨predicate', held', answers'⟩
        obtain rfl := Option.some.inj (hset.symm.trans held')
        obtain rfl := answers'.unique (answers.next argument)
        exact ⟨predicate, held, answers⟩
    · simp only [Judges, Array.getElem?_setIfInBounds_ne h]

lemma ask_absent {argument : Value} (absent : store.predicates[place]? = none) :
    Store.ask place argument store = some (false, store) := by
  simp [Store.ask, Run.bind_apply, Run.get_apply, absent]

lemma ask_held {predicate : Predicate} (held : store.predicates[place]? = some predicate)
    (argument : Value) :
    ∃ log, Store.ask place argument store = some ((predicate.reply argument).1, { store with
      log, predicates := store.predicates.setIfInBounds place (predicate.reply argument).2 }) := by
  obtain ⟨log, hask⟩ := predicate.ask_reply argument store
  refine ⟨log, ?_⟩
  simp [Store.ask, Run.bind_apply, Run.map_apply, Run.get_apply, Run.modify_apply, held, hask,
    setPredicate]

end Changes

end Store

end Traversals
