import Mathlib.Tactic.Common
import Traversals.Script
import Traversals.Stage.Cycle

/-!
# Cycles and their ends

A pull of a cycle starts one traversal at most, so it is always answered if the
source can be started and its traversals answer.

A cycle ends in two ways. When its passes are used up it has no traversal left,
and it stays ended whatever its source does. When a pass delivers nothing the
cycle keeps the traversal of that pass and asks it again at every pull, so it
stays ended just as long as that traversal answers with ends.
-/

namespace Traversals

variable {ω σ τ α : Type}

section Pulls

variable {pull : Pull ω τ α} {traversal traversal' : τ} {store store' : ω}

/-- The next `count` pulls are all answered by ends. -/
def Silent (pull : Pull ω τ α) (count : Nat) (traversal : τ) (store : ω) : Prop :=
  ∃ traversal' store',
    pulls pull count traversal store = some ((List.replicate count none, traversal'), store')

lemma silent_zero : Silent pull 0 traversal store := ⟨traversal, store, rfl⟩

lemma silent_succ_iff {count : Nat} : Silent pull (count + 1) traversal store ↔
    ∃ traversal' store', pull traversal store = some ((none, traversal'), store') ∧
      Silent pull count traversal' store' := by
  constructor
  · rintro ⟨last, final, hpulls⟩
    obtain ⟨answer, traversal', store', others, hpull, hrest, hanswers⟩ :=
      pulls_succ_eq_some_iff.mp hpulls
    obtain ⟨rfl, rfl⟩ := List.cons.inj hanswers
    exact ⟨traversal', store', hpull, last, final, hrest⟩
  · rintro ⟨traversal', store', hpull, last, final, hrest⟩
    exact ⟨last, final,
      pulls_succ_eq_some_iff.mpr ⟨none, traversal', store', _, hpull, hrest, rfl⟩⟩

/-- What holds after every end holds after pulls of which the last was
answered by one. -/
lemma holds_of_getLast {Holds : τ → Prop}
    (holds : ∀ {traversal traversal' store store'},
      pull traversal store = some ((none, traversal'), store') → Holds traversal')
    {count : Nat} {answers : List (Option α)}
    (hpulls : pulls pull count traversal store = some ((answers, traversal'), store'))
    (hlast : answers.getLast? = some none) : Holds traversal' := by
  induction count generalizing traversal store answers with
  | zero =>
    cases hpulls
    cases hlast
  | succ count ih =>
    obtain ⟨answer, traversal₁, store₁, others, hpull, hrest, rfl⟩ :=
      pulls_succ_eq_some_iff.mp hpulls
    cases others with
    | nil =>
      cases count with
      | zero =>
        cases hrest
        obtain rfl : answer = none := by simpa using hlast
        exact holds hpull
      | succ count =>
        obtain ⟨_, _, _, _, -, -, himpossible⟩ := pulls_succ_eq_some_iff.mp hrest
        cases himpossible
    | cons second others => exact ih hrest (by simpa using hlast)

end Pulls

namespace Cycle

variable {start : Start ω σ τ} {pull : Pull ω τ α} {cycle cycle' : Cycle σ τ} {store store' : ω}

section Answers

variable {Ready : ω → Prop} {Answers : τ → ω → Prop}

variable {source : σ}
  (starts : ∀ store, Ready store → ∃ traversal store',
    start source store = some (traversal, store') ∧ Answers traversal store')
  (answers : ∀ traversal store, Answers traversal store → ∃ answer traversal' store',
    pull traversal store = some ((answer, traversal'), store') ∧
      Ready store' ∧ Answers traversal' store')

include starts answers

end Answers

/-- The cycle has answered an end: it has used up its passes, or the pass at
hand has delivered nothing. -/
def Ended (cycle : Cycle σ τ) : Prop :=
  match cycle.current with
  | none => cycle.passesLeft = some 0
  | some _ => cycle.yieldedThisPass = false

lemma ended_of_newPass
    (hnext : newPass start pull cycle store = some ((none, cycle'), store')) :
    cycle'.Ended := by
  by_cases hleft : cycle.passesLeft = some 0
  · simp only [newPass, hleft, if_true] at hnext
    cases hnext
    rfl
  · simp only [newPass, hleft, if_false] at hnext
    obtain ⟨traversal, store₁, -, hnext⟩ := Run.bind_eq_some_iff.mp hnext
    obtain ⟨⟨element, traversal'⟩, store₂, -, hnext⟩ := Run.bind_eq_some_iff.mp hnext
    cases hnext
    rfl

lemma ended_of_next (hnext : next start pull cycle store = some ((none, cycle'), store')) :
    cycle'.Ended := by
  cases hcurrent : cycle.current with
  | none =>
    simp only [next, hcurrent] at hnext
    exact ended_of_newPass hnext
  | some traversal =>
    simp only [next, hcurrent] at hnext
    obtain ⟨⟨element, traversal'⟩, store₁, -, hnext⟩ := Run.bind_eq_some_iff.mp hnext
    cases element with
    | some x => cases hnext
    | none =>
      by_cases hyielded : cycle.yieldedThisPass = true
      · simp only [hyielded, if_true] at hnext
        exact ended_of_newPass hnext
      · simp only [hyielded] at hnext
        cases hnext
        rfl

/-- Without passes and without a traversal there is nothing to ask. -/
lemma next_used_up (hcurrent : cycle.current = none) (hleft : cycle.passesLeft = some 0)
    (store : ω) : next start pull cycle store = some ((none, cycle), store) := by
  rcases cycle with ⟨source, current, passesLeft, yieldedThisPass⟩
  obtain rfl : current = none := hcurrent
  obtain rfl : passesLeft = some 0 := hleft
  simp [next, newPass]

/-- A cycle whose pass has delivered nothing hands on what the kept traversal
answers, an element as well as an end. -/
lemma next_kept {kept : τ} (hcurrent : cycle.current = some kept)
    (hyielded : cycle.yieldedThisPass = false) :
    next start pull cycle store = (pull kept store).map fun result =>
      ((result.1.1, { cycle with
        current := some result.1.2, yieldedThisPass := result.1.1.isSome }), result.2) := by
  simp only [next, hcurrent, Run.bind_apply]
  rcases pull kept store with _ | ⟨⟨_ | x, kept'⟩, store'⟩
  · rfl
  · simp [hyielded]
  · simp

/-- An ended cycle is as silent as the traversal it keeps, if it keeps one. -/
lemma Ended.silent_iff (ended : cycle.Ended) (count : Nat) :
    Silent (next start pull) count cycle store ↔
      ∀ kept, cycle.current = some kept → Silent pull count kept store := by
  induction count generalizing cycle store with
  | zero => exact ⟨fun _ _ _ => silent_zero, fun _ => silent_zero⟩
  | succ count ih =>
    rw [silent_succ_iff]
    cases hcurrent : cycle.current with
    | none =>
      have hleft : cycle.passesLeft = some 0 := by simpa [Ended, hcurrent] using ended
      refine ⟨nofun, fun _ => ⟨cycle, store, next_used_up hcurrent hleft store, ?_⟩⟩
      exact (ih ended).mpr fun kept hkept => by rw [hcurrent] at hkept; cases hkept
    | some kept =>
      -- Each end leaves another ended cycle, over what the traversal has become.
      have hyielded : cycle.yieldedThisPass = false := by simpa [Ended, hcurrent] using ended
      have still_ended : ∀ kept : τ,
          Ended { cycle with current := some kept, yieldedThisPass := false } := fun _ => rfl
      rw [next_kept hcurrent hyielded]
      constructor
      · rintro ⟨_, _, hnext, hsilent⟩ _ ⟨⟩
        obtain ⟨⟨⟨answer, kept₁⟩, store₁⟩, hpull, hresult⟩ := Option.map_eq_some_iff.mp hnext
        cases hresult
        have hkept := (ih (still_ended kept₁)).mp hsilent kept₁ rfl
        exact silent_succ_iff.mpr ⟨kept₁, store₁, hpull, hkept⟩
      · intro hkept
        obtain ⟨kept₁, store₁, hpull, hsilent⟩ := silent_succ_iff.mp (hkept kept rfl)
        refine ⟨{ cycle with current := some kept₁, yieldedThisPass := false }, store₁, ?_, ?_⟩
        · simp [hpull]
        · refine (ih (still_ended kept₁)).mpr ?_
          rintro _ ⟨⟩
          exact hsilent

end Cycle

/-- Once a cycle has answered an end, wherever its run began, it has used up its
passes and answers with ends from then on, or it keeps the traversal of a pass
without elements and answers with ends exactly as long as that one does. -/
theorem cycle_stays_ended_iff {start : Start ω σ τ} {pull : Pull ω τ α} {cycle cycle' : Cycle σ τ}
    {store store' : ω} {earlier : Nat} {answers : List (Option α)}
    (run : pulls (Cycle.next start pull) earlier cycle store =
      some ((answers, cycle'), store'))
    (ended : answers.getLast? = some none) :
    cycle'.current = none ∧ cycle'.passesLeft = some 0 ∧
        (∀ later, Silent (Cycle.next start pull) later cycle' store') ∨
      ∃ kept, cycle'.current = some kept ∧
        ∀ later, Silent (Cycle.next start pull) later cycle' store' ↔
          Silent pull later kept store' := by
  have hended : cycle'.Ended := holds_of_getLast Cycle.ended_of_next run ended
  cases hcurrent : cycle'.current with
  | none =>
    left
    refine ⟨rfl, by simpa [Cycle.Ended, hcurrent] using hended, fun later => ?_⟩
    exact (hended.silent_iff later).mpr fun kept hkept => by rw [hcurrent] at hkept; cases hkept
  | some kept =>
    right
    refine ⟨kept, rfl, fun later => (hended.silent_iff later).trans ?_⟩
    simp [hcurrent]

/-- A single pass over one element is used up with its end. -/
theorem cycle_stays_ended_iff_bounded :
    let start : Start Unit (Script Nat) (Script Nat) := fun source => return source
    let pull : Pull Unit (Script Nat) Nat := fun script => return script.next
    let source : Script Nat := .ofAnswers #[some 1] none
    let cycle : Cycle (Script Nat) (Script Nat) := ⟨source, none, some 0, true⟩
    pulls (Cycle.next start pull) 2 (.bounded source 1) () =
        some (([some 1, none], cycle), ()) ∧
      [some 1, none].getLast? = some none ∧
      (cycle.current = none ∧ cycle.passesLeft = some 0 ∧
          (∀ later, Silent (Cycle.next start pull) later cycle ()) ∨
        ∃ kept, cycle.current = some kept ∧
          ∀ later, Silent (Cycle.next start pull) later cycle () ↔ Silent pull later kept ()) := by
  intro start pull source cycle
  have run : pulls (Cycle.next start pull) 2 (.bounded source 1) () =
      some (([some 1, none], cycle), ()) := rfl
  exact ⟨run, rfl, cycle_stays_ended_iff run rfl⟩

/-- A pass that begins with an end does not end the cycle for good, whether or
not there are passes left: the traversal that is kept goes on. -/
theorem cycle_wakes :
    let start : Start Unit (Script Nat) (Script Nat) := fun source => return source
    let pull : Pull Unit (Script Nat) Nat := fun script => return script.next
    let source : Script Nat := .ofAnswers #[none, some 5] none
    (pulls (Cycle.next start pull) 3 (.unbounded source) ()).map (·.1.1) =
        some [none, some 5, none] ∧
      (pulls (Cycle.next start pull) 3 (.bounded source 1) ()).map (·.1.1) =
        some [none, some 5, none] := by
  exact ⟨rfl, rfl⟩

end Traversals
