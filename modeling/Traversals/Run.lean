/-!
# Runs

A traversal is a state that answers pulls. A pull may also read and change a
store that several traversals share, and it may use up its budget, in which
case there is no answer at all. Nor is there one where an index lies outside of
what it points into. Stages are built from the pulls of what they stand on, so
each stage is one function from pulls to a pull.
-/

namespace Traversals

/-- A computation over a shared store; `none` when it has no result. -/
abbrev Run (ω : Type) : Type → Type := StateT ω Option

/-- One request to a traversal: an element or the end, and the state after it. -/
abbrev Pull (ω τ α : Type) : Type := τ → Run ω (Option α × τ)

/-- The start of a new traversal of a source that can be traversed again. -/
abbrev Start (ω σ τ : Type) : Type := σ → Run ω τ

namespace Run

variable {ω α β : Type}

def outOfBudget : Run ω α := fun _ => none

/-- An index has been used that points nowhere. -/
def outOfRange : Run ω α := fun _ => none

@[simp] theorem outOfBudget_apply (w : ω) : (outOfBudget : Run ω α) w = none := rfl

@[simp] theorem pure_apply (x : α) (w : ω) : (pure x : Run ω α) w = some (x, w) := rfl

theorem bind_apply (run : Run ω α) (next : α → Run ω β) (w : ω) :
    (run >>= next) w = (run w).bind fun result => next result.1 result.2 := rfl

/-- A composed run has a result when its parts have one. -/
theorem bind_eq_some_iff {run : Run ω α} {next : α → Run ω β} {w : ω} {result : β × ω} :
    (run >>= next) w = some result ↔ ∃ x w', run w = some (x, w') ∧ next x w' = some result := by
  rw [bind_apply, Option.bind_eq_some_iff]
  exact ⟨fun ⟨⟨x, w'⟩, h⟩ => ⟨x, w', h⟩, fun ⟨x, w', h⟩ => ⟨(x, w'), h⟩⟩

theorem map_apply (f : α → β) (run : Run ω α) (w : ω) :
    (f <$> run) w = (run w).map fun result => (f result.1, result.2) := by
  cases h : run w <;> simp [Functor.map, StateT.map, h]

theorem get_apply (w : ω) : (get : Run ω ω) w = some (w, w) := rfl

theorem modify_apply (f : ω → ω) (w : ω) :
    (modify f : Run ω PUnit) w = some (PUnit.unit, f w) := rfl

end Run

section Position

variable {ω τ α : Type}

/-- The element `n` places ahead. The pulls stop at the first end. -/
def nth (pull : Pull ω τ α) : Nat → τ → Run ω (Option α × τ)
  | 0, traversal => pull traversal
  | n + 1, traversal => do
      let (element, traversal) ← pull traversal
      match element with
      | none => return (none, traversal)
      | some _ => nth pull n traversal

/-- The answers to exactly `n` pulls, ends included. -/
def pulls (pull : Pull ω τ α) : Nat → τ → Run ω (List (Option α) × τ)
  | 0, traversal => return ([], traversal)
  | n + 1, traversal => do
      let (answer, traversal) ← pull traversal
      let (answers, traversal) ← pulls pull n traversal
      return (answer :: answers, traversal)

theorem pulls_succ_eq_some_iff {pull : Pull ω τ α} {count : Nat} {traversal last : τ}
    {store store' : ω} {answers : List (Option α)} :
    pulls pull (count + 1) traversal store = some ((answers, last), store') ↔
      ∃ answer traversal₁ store₁ others,
        pull traversal store = some ((answer, traversal₁), store₁) ∧
        pulls pull count traversal₁ store₁ = some ((others, last), store') ∧
        answers = answer :: others := by
  constructor
  · intro h
    obtain ⟨⟨answer, traversal₁⟩, store₁, hpull, h⟩ := Run.bind_eq_some_iff.mp h
    obtain ⟨⟨others, last'⟩, store₂, hrest, h⟩ := Run.bind_eq_some_iff.mp h
    cases h
    exact ⟨answer, traversal₁, store₁, others, hpull, hrest, rfl⟩
  · rintro ⟨answer, traversal₁, store₁, others, hpull, hrest, rfl⟩
    simp [pulls, Run.bind_apply, Run.map_apply, hpull, hrest]

/-- What holds of every single answer, from one state to the next, holds of any
number of answers in a row. -/
theorem pulls_of_step {pull : Pull ω τ α} {State : Nat → τ → ω → Prop}
    {Answer : Nat → Option α → Prop}
    (step : ∀ {n traversal store}, State n traversal store →
      ∃ answer traversal' store', pull traversal store = some ((answer, traversal'), store') ∧
        Answer n answer ∧ State (n + 1) traversal' store')
    {n : Nat} {traversal : τ} {store : ω} (state : State n traversal store) (count : Nat) :
    ∃ answers traversal' store',
      pulls pull count traversal store = some ((answers, traversal'), store') ∧
      answers.length = count ∧
      (∀ i answer, answers[i]? = some answer → Answer (n + i) answer) ∧
      State (n + count) traversal' store' := by
  induction count generalizing n traversal store with
  | zero => exact ⟨[], traversal, store, rfl, rfl, fun i answer h => by simp at h, state⟩
  | succ count ih =>
    obtain ⟨first, traversal₁, store₁, hpull, hfirst, state₁⟩ := step state
    obtain ⟨answers, traversal₂, store₂, hrest, hlength, hanswers, state₂⟩ := ih state₁
    rw [Nat.add_assoc, Nat.add_comm 1] at state₂
    refine ⟨first :: answers, traversal₂, store₂, ?_, by simp [hlength], ?_, state₂⟩
    · simp [pulls, Run.bind_apply, Run.map_apply, hpull, hrest]
    · intro i answer h
      cases i with
      | zero =>
        obtain rfl : first = answer := by simpa using h
        exact hfirst
      | succ i =>
        have hi := hanswers i answer (by simpa using h)
        rwa [Nat.add_assoc, Nat.add_comm 1 i] at hi

/-- A pull that answers with the end and changes nothing can be repeated. -/
theorem pulls_idle {pull : Pull ω τ α} {traversal : τ} {store : ω}
    (idle : pull traversal store = some ((none, traversal), store)) (count : Nat) :
    pulls pull count traversal store = some ((List.replicate count none, traversal), store) := by
  induction count with
  | zero => rfl
  | succ count ih => simp [pulls, Run.bind_apply, Run.map_apply, idle, ih, List.replicate_succ]

/-- After an end that such a pull follows nothing changes any more. -/
theorem pulls_end {pull : Pull ω τ α} {traversal ended : τ} {store store' : ω}
    (last : pull traversal store = some ((none, ended), store'))
    (idle : pull ended store' = some ((none, ended), store')) (later : Nat) :
    pulls pull (later + 1) traversal store =
      some ((List.replicate (later + 1) none, ended), store') :=
  pulls_succ_eq_some_iff.mpr ⟨none, ended, store', _, last, pulls_idle idle later, rfl⟩

end Position

end Traversals
