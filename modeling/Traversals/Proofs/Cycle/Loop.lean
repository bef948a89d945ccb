import Traversals.Proofs.Cycle.Ending
import Traversals.Proofs.Product.Watched

/-!
# A call of a cycle as a loop

Round by round, a cycle asks the traversal at hand and starts another one for
the next round if that has ended. Without a limit on the passes nothing falls
from round to round. But a traversal that was started in this call has yielded
nothing yet, so its end is the end of the call: whatever the source does, the
second round is the last one.
-/

namespace Traversals

variable {ω σ τ α : Type}

namespace Note

def isStart : Note → Bool
  | .started _ => true
  | .asked _ _ _ => false

end Note

namespace Cycle

/-- The first half of a round asks the traversal at hand, if there is one. It
decides the call unless the traversal has ended after an element. -/
def askCurrent (pull : Pull ω τ α) (cycle : Cycle σ τ) :
    Run ω (Option (Option α) × Cycle σ τ) :=
  match cycle.current with
  | none => return (none, cycle)
  | some traversal => do
      let (element, traversal) ← pull traversal
      match element with
      | some x =>
          return (some (some x), { cycle with current := some traversal, yieldedThisPass := true })
      | none =>
          if cycle.yieldedThisPass then return (none, { cycle with current := none })
          else return (some none, { cycle with current := some traversal })

/-- The second half starts the next traversal, if a pass is left. -/
def startPass (start : Start ω σ τ) (cycle : Cycle σ τ) : Run ω (Option (Cycle σ τ)) :=
  match cycle.passesLeft with
  | some 0 => return none
  | some (left + 1) => do
      let traversal ← start cycle.source
      return some { cycle with
        current := some traversal, passesLeft := some left, yieldedThisPass := false }
  | none => do
      let traversal ← start cycle.source
      return some { cycle with current := some traversal, yieldedThisPass := false }

/-- Rounds until one of them decides the call. -/
def loop (start : Start ω σ τ) (pull : Pull ω τ α) : ℕ → Pull ω (Cycle σ τ) α
  | 0, _ => Run.outOfBudget
  | rounds + 1, cycle => do
      let (decided, cycle) ← askCurrent pull cycle
      match decided with
      | some answer => return (answer, cycle)
      | none =>
          match ← startPass start cycle with
          | none => return (none, cycle)
          | some cycle => loop start pull rounds cycle

section Loop

variable {start : Start ω σ τ} {pull : Pull ω τ α} {cycle cycle' : Cycle σ τ} {store store' : ω}
  {answer : Option α} (rounds : ℕ)

/-- A traversal without elements behind it decides the round. -/
lemma loop_started {traversal : τ} (hcurrent : cycle.current = some traversal)
    (hyielded : cycle.yieldedThisPass = false) :
    loop start pull (rounds + 1) cycle = do
      let (element, traversal) ← pull traversal
      return (element, { cycle with
        current := some traversal, yieldedThisPass := element.isSome }) := by
  obtain ⟨source, _, passesLeft, _⟩ := cycle
  obtain rfl := hcurrent
  obtain rfl := hyielded
  simp only [loop, askCurrent, bind_assoc]
  refine bind_congr ?_
  rintro ⟨_ | x, traversal⟩
  · rfl
  · rfl

/-- Without a traversal at hand the call begins with the start of a pass. -/
lemma loop_newPass (hcurrent : cycle.current = none) :
    loop start pull (rounds + 2) cycle = newPass start pull cycle := by
  obtain ⟨source, _, passesLeft, yieldedThisPass⟩ := cycle
  obtain rfl := hcurrent
  rw [loop, askCurrent, pure_bind]
  rcases passesLeft with _ | _ | left
  · simp [startPass, newPass, loop_started]
  · simp [startPass, newPass]
  · simp [startPass, newPass, loop_started]

/-- Two rounds are enough, and more make no difference. -/
lemma loop_eq_next : loop start pull (rounds + 2) = (next start pull : Pull ω (Cycle σ τ) α) := by
  funext cycle
  cases hcurrent : cycle.current with
  | none => rw [loop_newPass rounds hcurrent, next, hcurrent]
  | some traversal =>
    have again : loop start pull (rounds + 2) { cycle with current := none } =
        newPass start pull cycle := loop_newPass rounds rfl
    rw [loop, askCurrent, pure_bind] at again
    rw [loop, askCurrent, next, hcurrent]
    simp only [bind_assoc]
    refine bind_congr ?_
    rintro ⟨_ | x, traversal⟩
    · by_cases hyielded : cycle.yieldedThisPass = true
      · simp only [hyielded, if_true, pure_bind] at again ⊢
        exact again
      · simp only [hyielded]
        rfl
    · rfl

end Loop

section Calls

variable {start : Start ω σ τ} {pull : Pull ω τ α} {cycle cycle' : Cycle σ τ} {store store' : ω}
  {answer : Option α}

/-- A new pass is not asked for, or it is started and first asked with success. -/
def PassReturns (start : Start ω σ τ) (pull : Pull ω τ α) (cycle : Cycle σ τ) (store : ω) : Prop :=
  cycle.passesLeft = some 0 ∨ ∃ traversal store₁,
    start cycle.source store = some (traversal, store₁) ∧ (pull traversal store₁).isSome

/-- The calls that one call of a cycle makes of its source and its traversals return. -/
def CallsReturn (start : Start ω σ τ) (pull : Pull ω τ α) (cycle : Cycle σ τ) (store : ω) : Prop :=
  match cycle.current with
  | none => PassReturns start pull cycle store
  | some traversal => ∃ element traversal' store₁,
      pull traversal store = some ((element, traversal'), store₁) ∧
        (element = none → cycle.yieldedThisPass = true → PassReturns start pull cycle store₁)

lemma newPass_returns_iff :
    (newPass start pull cycle store).isSome ↔ PassReturns start pull cycle store := by
  by_cases hleft : cycle.passesLeft = some 0
  · simp [newPass, PassReturns, hleft]
  · simp only [newPass, PassReturns, hleft, if_false, false_or, Run.bind_apply]
    rcases start cycle.source store with _ | ⟨traversal, store₁⟩
    · simp
    · rcases hpull : pull traversal store₁ with _ | result <;> simp [hpull]

lemma next_returns_iff :
    (next start pull cycle store).isSome ↔ CallsReturn start pull cycle store := by
  cases hcurrent : cycle.current with
  | none => simp only [next, CallsReturn, hcurrent, newPass_returns_iff]
  | some traversal =>
    simp only [next, CallsReturn, hcurrent, Run.bind_apply]
    rcases pull traversal store with _ | ⟨⟨_ | x, traversal'⟩, store₁⟩
    · simp
    · by_cases hyielded : cycle.yieldedThisPass = true
      · simp [hyielded, newPass_returns_iff]
      · simp [hyielded]
    · simp

/-- What a call has noted: two questions and one start at most. A start is taken
off the passes left, which therefore were enough for it. -/
structure Modest (cycle cycle' : Cycle σ τ) (asks : ℕ) (notes : Journal) : Prop where
  asks_le : notes.countP (fun note => !note.isStart) ≤ asks
  starts_le : notes.countP Note.isStart ≤ 1
  left_eq : cycle'.passesLeft.map (· + notes.countP Note.isStart) = cycle.passesLeft

lemma newPass_modest (tally : Tally start pull)
    (hnext : newPass start pull cycle store = some ((answer, cycle'), store')) :
    ∃ notes, tally.journal store' = notes ++ tally.journal store ∧ Modest cycle cycle' 1 notes := by
  by_cases hleft : cycle.passesLeft = some 0
  · simp only [newPass, hleft, if_true] at hnext
    cases hnext
    exact ⟨[], rfl, Nat.zero_le _, Nat.zero_le _, by simp [hleft]⟩
  · simp only [newPass, hleft, if_false] at hnext
    obtain ⟨traversal, store₁, hstart, hnext⟩ := Run.bind_eq_some_iff.mp hnext
    obtain ⟨⟨element, traversal'⟩, store₂, hpull, hnext⟩ := Run.bind_eq_some_iff.mp hnext
    cases hnext
    refine ⟨[_, _], by rw [(tally.pull_eq hpull).2, (tally.start_eq hstart).2]; rfl, ?_⟩
    constructor
    · simp [Note.isStart]
    · simp [Note.isStart]
    · rcases hpasses : cycle.passesLeft with _ | _ | left
      · rfl
      · exact absurd hpasses hleft
      · rfl

lemma next_modest (tally : Tally start pull)
    (hnext : next start pull cycle store = some ((answer, cycle'), store')) :
    ∃ notes, tally.journal store' = notes ++ tally.journal store ∧ Modest cycle cycle' 2 notes := by
  cases hcurrent : cycle.current with
  | none =>
    simp only [next, hcurrent] at hnext
    obtain ⟨notes, hjournal, modest⟩ := newPass_modest tally hnext
    exact ⟨notes, hjournal, modest.asks_le.trans (Nat.le_succ 1), modest.starts_le, modest.left_eq⟩
  | some traversal =>
    simp only [next, hcurrent] at hnext
    obtain ⟨⟨element, traversal'⟩, store₁, hpull, hnext⟩ := Run.bind_eq_some_iff.mp hnext
    obtain ⟨-, hasked⟩ := tally.pull_eq hpull
    have asked_only : cycle'.passesLeft = cycle.passesLeft → Modest cycle cycle' 2
        [.asked (tally.component traversal) (tally.number traversal) element.isSome] := by
      intro left_eq
      constructor
      · simp [Note.isStart]
      · simp [Note.isStart]
      · simp [Note.isStart, left_eq]
    cases element with
    | some x =>
      cases hnext
      exact ⟨_, hasked, asked_only rfl⟩
    | none =>
      by_cases hyielded : cycle.yieldedThisPass = true
      · simp only [hyielded, if_true] at hnext
        obtain ⟨notes, hjournal, modest⟩ := newPass_modest tally hnext
        refine ⟨notes ++ [_], by rw [hjournal, hasked, List.append_assoc]; rfl, ?_⟩
        constructor
        · simpa [Note.isStart] using modest.asks_le
        · simpa [Note.isStart] using modest.starts_le
        · simpa [Note.isStart] using modest.left_eq
      · simp only [hyielded] at hnext
        cases hnext
        exact ⟨_, hasked, asked_only rfl⟩

/-- A pass that begins with an end ends the call. -/
lemma next_barren {traversal traversal' : τ} {store₁ store₂ : ω} (hcurrent : cycle.current = none)
    (hstart : start cycle.source store = some (traversal, store₁))
    (hpull : pull traversal store₁ = some ((none, traversal'), store₂)) :
    ∃ cycle' store', next start pull cycle store = some ((none, cycle'), store') := by
  by_cases hleft : cycle.passesLeft = some 0
  · exact ⟨_, _, next_used_up hcurrent hleft store⟩
  · simp [next, hcurrent, newPass, hleft, Run.bind_apply, Run.map_apply, hstart, hpull]

end Calls

end Cycle

/-- A call of a cycle is decided in two rounds, whatever the source delivers and
in whatever state the cycle is: more rounds make no difference. It returns just
when the calls return that it makes of the source and of its traversals. It asks
two traversals at most and starts one at most, and what it starts is taken off
the passes left. A source without elements ends the call. -/
theorem cycle_call_is_bounded (start : Start ω σ τ) (pull : Pull ω τ α) (rounds : ℕ) :
    Cycle.loop start pull (rounds + 2) = (Cycle.next start pull : Pull ω (Cycle σ τ) α) ∧
    (∀ cycle store, (Cycle.loop start pull (rounds + 2) cycle store).isSome ↔
      Cycle.CallsReturn start pull cycle store) ∧
    (∀ cycle store journal answer cycle' store' journal',
      Cycle.loop (watchStart start) (watchPull pull) (rounds + 2) cycle (store, journal) =
          some ((answer, cycle'), (store', journal')) →
        ∃ notes, journal' = notes ++ journal ∧ Cycle.Modest cycle cycle' 2 notes) ∧
    ∀ (cycle : Cycle σ τ) traversal traversal' store store₁ store₂, cycle.current = none →
      start cycle.source store = some (traversal, store₁) →
      pull traversal store₁ = some ((none, traversal'), store₂) →
      ∃ cycle' store',
        Cycle.loop start pull (rounds + 2) cycle store = some ((none, cycle'), store') := by
  simp only [Cycle.loop_eq_next]
  refine ⟨trivial, fun cycle store => Cycle.next_returns_iff, ?_, ?_⟩
  · intro cycle store journal answer cycle' store' journal' hnext
    exact Cycle.next_modest (Tally.watched start pull) hnext
  · intro cycle traversal traversal' store store₁ store₂ hcurrent hstart hpull
    exact Cycle.next_barren hcurrent hstart hpull

end Traversals
