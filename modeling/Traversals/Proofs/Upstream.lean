import Mathlib.Data.Seq.Basic
import Traversals.Script
import Traversals.Stage.Fused

/-!
# Upstream traversals

A stage knows what it stands on by the answers alone. A history lists them,
ends included, so it serves finite traversals, traversals without end and
traversals that resume. What is delivered are the elements before the first end.
A fused cursor passes the first request past them on, and the later ones only to
an input that promises to stay ended. Schedules perform steps in any order over
one shared state.
-/

namespace Traversals

open Stream' (Seq)

variable {ω τ α : Type}

lemma length'_ofList (xs : List α) : (Seq.ofList xs).length' = xs.length := by
  induction xs with
  | nil => exact Seq.length'_nil
  | cons x xs ih => rw [Seq.ofList_cons, Seq.length'_cons, ih, List.length_cons, Nat.cast_succ]

/-- A traversal pulled again and again. After `n` pulls the traversal and the
store are `state n`, and the pull after them is answered by `answer n`. -/
structure History (pull : Pull ω τ α) where
  state : Nat → τ × ω
  answer : Nat → Option α
  pulled : ∀ n, pull (state n).1 (state n).2 =
    some ((answer n, (state (n + 1)).1), (state (n + 1)).2)

/-- A traversal that is a plain value, stepped by a function, has a history. -/
def History.ofStep (step : τ → Option α × τ) (traversal : τ) (store : ω) :
    History (fun t => return step t : Pull ω τ α) where
  state n := ((fun t => (step t).2)^[n] traversal, store)
  answer n := (step ((fun t => (step t).2)^[n] traversal)).1
  pulled n := by simp [Function.iterate_succ_apply']

section Stepped

variable (step : τ → Option α × τ) (traversal : τ) (store : ω) (n : Nat)

lemma History.ofStep_state_succ : ((ofStep step traversal store).state (n + 1)).1 =
    (step ((ofStep step traversal store).state n).1).2 :=
  Function.iterate_succ_apply' _ n traversal

lemma History.ofStep_answer : (ofStep step traversal store).answer n =
    (step ((ofStep step traversal store).state n).1).1 := rfl

end Stepped

/-- What can be pulled again and again has a history, by the states it is led
through. Their property holds all along it. -/
lemma exists_history {pull : Pull ω τ α} {State : Nat → τ → ω → Prop} {answer : Nat → Option α}
    (step : ∀ {n traversal store}, State n traversal store →
      ∃ reply traversal' store', pull traversal store = some ((reply, traversal'), store') ∧
        reply = answer n ∧ State (n + 1) traversal' store')
    {traversal : τ} {store : ω} (start : State 0 traversal store) :
    ∃ history : History pull, history.state 0 = (traversal, store) ∧ history.answer = answer ∧
      ∀ n, State n (history.state n).1 (history.state n).2 := by
  have next : ∀ n (current : { s : τ × ω // State n s.1 s.2 }),
      ∃ later : { s : τ × ω // State (n + 1) s.1 s.2 },
        pull current.1.1 current.1.2 = some ((answer n, later.1.1), later.1.2) := by
    rintro n ⟨⟨traversal, store⟩, state⟩
    obtain ⟨reply, traversal', store', hpull, rfl, state'⟩ := step state
    exact ⟨⟨(traversal', store'), state'⟩, hpull⟩
  choose later hlater using next
  let states : ∀ n, { s : τ × ω // State n s.1 s.2 } :=
    fun n => Nat.rec ⟨(traversal, store), start⟩ later n
  exact ⟨⟨fun n => (states n).1, answer, fun n => hlater n (states n)⟩, rfl, rfl,
    fun n => (states n).2⟩

/-- What always answers has a history from anywhere. -/
lemma exists_history_of_returns {pull : Pull ω τ α}
    (returns : ∀ traversal store, (pull traversal store).isSome) (traversal : τ) (store : ω) :
    ∃ history : History pull, history.state 0 = (traversal, store) := by
  have answers : ∀ current : τ × ω, ∃ reply : Option α × (τ × ω),
      pull current.1 current.2 = some ((reply.1, reply.2.1), reply.2.2) := by
    intro current
    obtain ⟨⟨⟨answer, later⟩, store'⟩, hpull⟩ :=
      Option.isSome_iff_exists.mp (returns current.1 current.2)
    exact ⟨(answer, (later, store')), hpull⟩
  choose reply hreply using answers
  let states : ℕ → τ × ω := fun n => (fun current => (reply current).2)^[n] (traversal, store)
  refine ⟨⟨states, fun n => (reply (states n)).1, fun n => ?_⟩, rfl⟩
  have later : states (n + 1) = (reply (states n)).2 := Function.iterate_succ_apply' _ n _
  rw [later]
  exact hreply (states n)

/-- A pull that counts its calls beside the store. -/
def counted (pull : Pull ω τ α) : Pull (ω × Nat) τ α := fun traversal (store, calls) =>
  (pull traversal store).map fun (result, store) => (result, (store, calls + 1))

lemma counted_eq_some_iff {pull : Pull ω τ α} {traversal : τ} {store store' : ω × Nat}
    {result : Option α × τ} : counted pull traversal store = some (result, store') ↔
      pull traversal store.1 = some (result, store'.1) ∧ store'.2 = store.2 + 1 := by
  rcases store with ⟨store, calls⟩
  rcases store' with ⟨store', calls'⟩
  rcases result with ⟨answer, later⟩
  simp only [counted, Option.map_eq_some_iff, Prod.mk.injEq]
  constructor
  · rintro ⟨⟨⟨_, _⟩, _⟩, hpull, hresult, rfl, rfl⟩
    cases hresult
    exact ⟨hpull, rfl⟩
  · rintro ⟨hpull, rfl⟩
    exact ⟨((answer, later), store'), hpull, rfl, rfl, rfl⟩

/-- How many of so many requests past the end a fused cursor passes on. -/
def Promise.passedOn : Promise → Nat → Nat
  | .nothing, past => min past 1
  | .staysEnded, past => past

section PassedOn

variable (promise : Promise) (past : Nat)

@[simp] lemma Promise.passedOn_zero : promise.passedOn 0 = 0 := by
  cases promise <;> rfl

@[simp] lemma Promise.passedOn_one : promise.passedOn 1 = 1 := by
  cases promise <;> rfl

/-- Of what has promised nothing the end is asked for once. -/
lemma Promise.passedOn_nothing {past : Nat} (met : 0 < past) :
    Promise.nothing.passedOn past = 1 :=
  Nat.min_eq_right met

/-- A request past the end is passed on if it is the first one or the input has
promised to stay ended. -/
def Promise.PassesOn : Prop := promise = .staysEnded ∨ past = 0

lemma Promise.passedOn_succ :
    promise.PassesOn past ∧ promise.passedOn (past + 1) = promise.passedOn past + 1 ∨
      ¬ promise.PassesOn past ∧ promise.passedOn (past + 1) = promise.passedOn past := by
  cases promise with
  | staysEnded => exact .inl ⟨.inl rfl, rfl⟩
  | nothing =>
    cases past with
    | zero => exact .inl ⟨.inr rfl, rfl⟩
    | succ past => exact .inr ⟨by simp [Promise.PassesOn], by simp [Promise.passedOn]⟩

end PassedOn

namespace History

variable {pull : Pull ω τ α}

/-- The history keeps what is promised of its ends. -/
def Keeps (history : History pull) : Promise → Prop
  | .nothing => True
  | .staysEnded => ∀ n, history.answer n = none → history.answer (n + 1) = none

lemma Keeps.answer_eq_none {history : History pull} (keeps : history.Keeps .staysEnded) {n : Nat}
    (hn : history.answer n = none) (past : Nat) : history.answer (n + past) = none := by
  induction past with
  | zero => exact hn
  | succ past ih => exact keeps (n + past) ih

/-- The elements before the first end. -/
def elements (history : History pull) : Seq α :=
  ⟨fun n => if ∀ m < n, (history.answer m).isSome then history.answer n else none, by
    intro n hn
    have hlast : ¬ ∀ m < n + 1, (history.answer m).isSome := by
      intro h
      have hold : ∀ m < n, (history.answer m).isSome := fun m hm => h m (by omega)
      have hsome := h n (by omega)
      simp only [if_pos hold] at hn
      simp [hn] at hsome
    simp only [if_neg hlast]⟩

lemma elements_get? (history : History pull) (n : Nat) : history.elements.get? n =
    if ∀ m < n, (history.answer m).isSome then history.answer n else none := rfl

/-- The first `n` pulls were all answered by elements. -/
def Reached (history : History pull) (n : Nat) : Prop :=
  ∀ m < n, (history.elements.get? m).isSome

lemma reached_zero (history : History pull) : history.Reached 0 := by
  intro m hm
  omega

lemma Reached.succ {history : History pull} {n : Nat} {x : α}
    (reached : history.Reached n) (hx : history.elements.get? n = some x) :
    history.Reached (n + 1) := by
  intro m hm
  by_cases h : m = n
  · simp [h, hx]
  · exact reached m (by omega)

/-- What has been reached lies before any place without an element. -/
lemma Reached.le {history : History pull} {n m : Nat} (reached : history.Reached n)
    (hm : history.elements.get? m = none) : n ≤ m := by
  by_contra h
  have hsome := reached m (by omega)
  simp [hm] at hsome

/-- What has been reached is no more than there is. -/
lemma Reached.le_length' {history : History pull} {n : Nat} (reached : history.Reached n) :
    (n : ℕ∞) ≤ history.elements.length' := by
  cases n with
  | zero => simp
  | succ n =>
    obtain ⟨x, hx⟩ := Option.isSome_iff_exists.mp (reached n (Nat.lt_succ_self n))
    exact_mod_cast Order.add_one_le_of_lt (Seq.lt_length'_iff.mpr ⟨x, hx⟩)

lemma Reached.answer_eq {history : History pull} {n : Nat} (reached : history.Reached n) :
    history.answer n = history.elements.get? n := by
  have all : ∀ m < n, (history.answer m).isSome := by
    intro m hm
    have hsome := reached m hm
    rw [elements_get?] at hsome
    split at hsome
    · exact hsome
    · simp at hsome
  rw [elements_get?, if_pos all]

/-- Nothing that is answered after the first end counts. -/
lemma elements_eq_ofList {history : History pull} {xs : List α}
    (h : ∀ n ≤ xs.length, history.answer n = xs[n]?) :
    history.elements = Seq.ofList xs := by
  refine Seq.ext fun n => ?_
  rw [elements_get?, Seq.ofList_get?]
  by_cases hn : n ≤ xs.length
  · rw [if_pos, h n hn]
    intro m hm
    rw [h m (by omega), List.getElem?_eq_getElem (by omega)]
    rfl
  · rw [if_neg, List.getElem?_eq_none (by omega)]
    intro all
    have hlast := all xs.length (by omega)
    rw [h _ le_rfl, List.getElem?_eq_none le_rfl] at hlast
    cases hlast

/-- Where nothing comes after an end, all that is answered counts. -/
lemma elements_get?_of_stable (history : History pull)
    (stays : ∀ m n, m ≤ n → history.answer m = none → history.answer n = none) (n : Nat) :
    history.elements.get? n = history.answer n := by
  rw [elements_get?]
  split
  · rfl
  · rename_i notAll
    push Not at notAll
    obtain ⟨m, hm, hnone⟩ := notAll
    exact (stays m n hm.le (by simpa using hnone)).symm

/-- The same history seen through the count of its pulls. -/
def counting (history : History pull) : History (counted pull) where
  state n := ((history.state n).1, ((history.state n).2, n))
  answer := history.answer
  pulled n := by simp [counted, history.pulled n]

lemma Keeps.counting {history : History pull} {promise : Promise} (keeps : history.Keeps promise) :
    history.counting.Keeps promise := by
  cases promise <;> exact keeps

/-- A cursor that has taken `taken` elements of a history and has been asked
`past` times for what comes after the last of them. -/
structure Reads (history : History pull) (promise : Promise) (taken past : Nat)
    (cursor : Fused τ) (store : ω) : Prop where
  keeps : history.Keeps promise
  reached : history.Reached taken
  cursor_eq : cursor = if past = 0 then .live (history.state taken).1 else
    .afterEnd promise (history.state (taken + promise.passedOn past)).1
  store_eq : store = (history.state (taken + promise.passedOn past)).2
  at_end : 0 < past → history.elements.get? taken = none

namespace Reads

variable {history : History pull} {promise : Promise} {taken past : Nat} {cursor : Fused τ}
  {store : ω}

/-- Where a cursor has met the end, the elements are counted. -/
lemma length'_eq (reads : history.Reads promise taken past cursor store) (met : 0 < past) :
    history.elements.length' = taken :=
  le_antisymm (Seq.length'_le_iff.mpr (reads.at_end met)) reads.reached.le_length'

lemma past_eq_zero (reads : history.Reads promise taken past cursor store) {x : α}
    (hx : history.elements.get? taken = some x) : past = 0 := by
  by_contra met
  rw [reads.at_end (Nat.pos_of_ne_zero met)] at hx
  cases hx

/-- While there are elements, each pull of the cursor takes the next one. -/
lemma next_some (reads : history.Reads promise taken past cursor store) {x : α}
    (hx : history.elements.get? taken = some x) :
    ∃ cursor' store', Fused.next promise pull cursor store =
        some ((some x, cursor'), store') ∧
      history.Reads promise (taken + 1) 0 cursor' store' := by
  obtain rfl := reads.past_eq_zero hx
  obtain rfl := reads.cursor_eq
  obtain rfl := reads.store_eq
  have hanswer := reads.reached.answer_eq.trans hx
  refine ⟨.live (history.state (taken + 1)).1, (history.state (taken + 1)).2, ?_,
    reads.keeps, reads.reached.succ hx, rfl, by simp, by simp⟩
  simp [Fused.next, Fused.live, Run.bind_apply, history.pulled, hanswer]

/-- From the end on, the cursor answers ends. The first of them is asked for,
and so are the later ones if the input has promised to stay ended. -/
lemma next_none (reads : history.Reads promise taken past cursor store)
    (hx : history.elements.get? taken = none) :
    ∃ cursor' store', Fused.next promise pull cursor store =
        some ((none, cursor'), store') ∧
      history.Reads promise taken (past + 1) cursor' store' := by
  have hanswer := reads.reached.answer_eq.trans hx
  obtain rfl := reads.cursor_eq
  obtain rfl := reads.store_eq
  refine ⟨.afterEnd promise (history.state (taken + promise.passedOn (past + 1))).1,
    (history.state (taken + promise.passedOn (past + 1))).2, ?_, reads.keeps, reads.reached, rfl,
    rfl, fun _ => hx⟩
  cases past with
  | zero => simp [Fused.next, Fused.live, Run.bind_apply, history.pulled, hanswer]
  | succ past =>
    cases promise with
    | nothing => simp [Fused.afterEnd, Promise.passedOn]
    | staysEnded =>
      have hlater : history.answer (taken + past + 1) = none :=
        reads.keeps.answer_eq_none hanswer (past + 1)
      simp [Fused.next, Fused.afterEnd, Fused.live, Promise.passedOn, Run.bind_apply,
        history.pulled, hlater, ← Nat.add_assoc]

/-- What has promised nothing is left alone once its end was met. -/
lemma store_of_met {past' : Nat} {cursor' : Fused τ} {store' : ω}
    (reads : history.Reads .nothing taken past cursor store)
    (reads' : history.Reads .nothing taken past' cursor' store') (met : 0 < past)
    (met' : 0 < past') : store' = store := by
  rw [reads.store_eq, reads'.store_eq, Promise.passedOn_nothing met,
    Promise.passedOn_nothing met']

/-- The count beside the store is that of the elements taken and of the requests
past them that were passed on. -/
lemma calls_eq {cursor : Fused τ} {store : ω × Nat}
    (reads : history.counting.Reads promise taken past cursor store) :
    store.2 = taken + promise.passedOn past :=
  congrArg Prod.snd reads.store_eq

/-- The pull that takes an element reaches the upstream. -/
lemma calls_some {cursor cursor' : Fused τ} {store store' : ω × Nat}
    (reads : history.counting.Reads promise taken past cursor store)
    (reads' : history.counting.Reads promise (taken + 1) 0 cursor' store') {x : α}
    (hx : history.elements.get? taken = some x) :
    promise.PassesOn past ∧ store'.2 = store.2 + 1 := by
  obtain rfl := reads.past_eq_zero hx
  rw [reads.calls_eq, reads'.calls_eq, promise.passedOn_zero]
  exact ⟨.inr rfl, rfl⟩

/-- A pull past the end reaches the upstream if it is passed on. -/
lemma calls_none {cursor cursor' : Fused τ} {store store' : ω × Nat}
    (reads : history.counting.Reads promise taken past cursor store)
    (reads' : history.counting.Reads promise taken (past + 1) cursor' store') :
    promise.PassesOn past ∧ store'.2 = store.2 + 1 ∨
      ¬ promise.PassesOn past ∧ store'.2 = store.2 := by
  rw [reads.calls_eq, reads'.calls_eq]
  rcases promise.passedOn_succ past with ⟨passes, hcalls⟩ | ⟨kept, hcalls⟩
  · exact .inl ⟨passes, by rw [hcalls, Nat.add_assoc]⟩
  · exact .inr ⟨kept, by rw [hcalls]⟩

lemma store_at_calls {cursor : Fused τ} {store : ω × Nat}
    (reads : history.counting.Reads promise taken past cursor store) :
    store.1 = (history.state store.2).2 := by
  rw [reads.calls_eq]
  exact congrArg Prod.fst reads.store_eq

end Reads

end History

section Schedule

variable {ι σ ρ : Type}

/-- The steps of a schedule one after the other. The log has the steps with the
replies to them. -/
def performAll (perform : ι → σ → Run ω (ρ × σ)) : List ι → σ → Run ω (List (ι × ρ) × σ)
  | [], state => return ([], state)
  | step :: steps, state => do
      let (reply, state) ← perform step state
      let (log, state) ← performAll perform steps state
      return ((step, reply) :: log, state)

end Schedule

end Traversals
