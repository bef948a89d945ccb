import Traversals.Proofs.Cycle.Ending
import Traversals.Proofs.Product.RowMajor
import Traversals.Proofs.Product.Watched

/-!
# Passes over a source

A cycle over a source that can be traversed again delivers the elements of its
passes one pass after the other. What a cycle is to deliver next lies at the
remainder by the number of elements, and the quotient is the number of passes
behind it. As in row-major order an endless number of elements divides like
zero, since its first pass is never left. A limit on the passes is a limit on
the traversals that are started, whatever the source does.
-/

namespace Traversals

open Stream' (Seq)

variable {ω σ τ α : Type} {start : Start ω σ τ} {pull : Pull ω τ α}

/-- A cycle for the given number of passes, or for ever. -/
def Cycle.ofPasses (source : σ) : Option ℕ → Cycle σ τ
  | none => .unbounded source
  | some passes => .bounded source passes

lemma Cycle.ofPasses_eq (source : σ) (passes : Option ℕ) :
    (ofPasses source passes : Cycle σ τ) = ⟨source, none, passes, false⟩ := by
  cases passes <;> rfl

namespace Passes

variable {X : Seq α} {passes : Option ℕ} {k : ℕ}

/-- The number of elements of a pass, zero if the pass is endless. -/
noncomputable abbrev size (X : Seq α) : ℕ := X.length'.toNat

/-- The passes over a sequence have an element for call `k`. -/
def Within (X : Seq α) (passes : Option ℕ) (k : ℕ) : Prop :=
  ∀ limit ∈ passes, (k : ℕ∞) < limit * X.length'

/-- What call `k` of a cycle is to be answered by. -/
def IsAnswer (X : Seq α) (passes : Option ℕ) (k : ℕ) (answer : Option α) : Prop :=
  (Within X passes k → ∃ x, answer = some x ∧ X.get? (k % size X) = some x) ∧
  (¬ Within X passes k → answer = none)

/-- Each pass has all the elements, so the quotient decides. -/
lemma within_iff (nonempty : X.length' ≠ 0) :
    Within X passes k ↔ passes.map (· - k / size X) ≠ some 0 := by
  cases passes with
  | none => simp [Within]
  | some limit =>
    simp only [Within, size, Option.mem_some_iff, forall_eq', RowMajor.lt_mul_iff nonempty,
      Nat.cast_lt, Option.map_some, ne_eq, Option.some.injEq]
    omega

lemma Within.of_succ (within : Within X passes (k + 1)) : Within X passes k := by
  intro limit hlimit
  have hlt : (k : ℕ∞) < (k + 1 : ℕ) := by exact_mod_cast Nat.lt_succ_self k
  exact hlt.trans (within limit hlimit)

lemma isAnswer_some {x : α} (within : Within X passes k)
    (hx : X.get? (k % size X) = some x) : IsAnswer X passes k (some x) :=
  ⟨fun _ => ⟨x, rfl, hx⟩, fun outside => absurd within outside⟩

lemma isAnswer_none (outside : ¬ Within X passes k) :
    IsAnswer X passes k (none : Option α) :=
  ⟨fun within => absurd within outside, fun _ => rfl⟩

section Finite

/-- A list over and over, place by place. -/
lemma getElem?_flatten_replicate (xs : List α) (n k : ℕ) (hk : k < n * xs.length) :
    (List.replicate n xs).flatten[k]? = xs[k % xs.length]? := by
  induction n generalizing k with
  | zero => omega
  | succ n ih =>
    rw [List.replicate_succ, List.flatten_cons, List.getElem?_append]
    rw [Nat.succ_mul] at hk
    split
    · rw [Nat.mod_eq_of_lt ‹_›]
    · rw [ih (k - xs.length) (by omega), Nat.mod_eq_sub_mod (by omega : k ≥ xs.length)]

/-- A list is answered element by element, once for each pass, and then by an end. -/
lemma answers_ofList {xs : List α} {limit : ℕ} {answers : List (Option α)}
    (hlength : answers.length = limit * xs.length + 1)
    (isAnswer : ∀ k answer, answers[k]? = some answer →
      IsAnswer (Seq.ofList xs) (some limit) k answer) :
    answers = (List.replicate limit xs).flatten.map some ++ [none] := by
  have hwithin (k : ℕ) : Within (Seq.ofList xs) (some limit) k ↔ k < limit * xs.length := by
    simp only [Within, Option.mem_some_iff, forall_eq', length'_ofList]
    exact_mod_cast Iff.rfl
  have hflatten : ((List.replicate limit xs).flatten.map some).length = limit * xs.length := by
    simp
  refine List.ext_getElem (by simp [hlength]) fun k hk hk' => ?_
  obtain ⟨inside, outside⟩ := isAnswer k _ (List.getElem?_eq_getElem hk)
  rw [hwithin] at inside outside
  by_cases hlt : k < limit * xs.length
  · obtain ⟨x, hanswer, hx⟩ := inside hlt
    rw [size, length'_ofList, ENat.toNat_natCast, Seq.ofList_get?] at hx
    have hplace := getElem?_flatten_replicate xs limit k hlt
    rw [hanswer, List.getElem_append_left (by omega), List.getElem_map]
    rw [hx, List.getElem?_eq_some_iff] at hplace
    obtain ⟨_, hplace⟩ := hplace
    rw [hplace]
  · rw [outside hlt, List.getElem_append_right (by omega)]
    simp

end Finite

end Passes

/-- A source that can be traversed again once a traversal has ended. All
traversals deliver the same elements up to their first end. -/
structure Rounds (start : Start ω σ τ) (pull : Pull ω τ α) (source : σ) (X : Seq α) where
  Idle : ω → Prop
  Behind : ω → τ → ℕ → Prop
  starts : ∀ {store}, Idle store →
    ∃ traversal store', start source store = some (traversal, store') ∧ Behind store' traversal 0
  answers : ∀ {store traversal n}, Behind store traversal n →
    ∃ traversal' store', pull traversal store = some ((X.get? n, traversal'), store') ∧
      ((X.get? n).isSome → Behind store' traversal' (n + 1)) ∧ (X.get? n = none → Idle store')

/-- Where several traversals may be in use, one at a time may be as well. -/
def Replay.rounds {sources : List σ} {elements : σ → Seq α}
    (replay : Replay start pull sources elements) {source : σ} (known : source ∈ sources) :
    Rounds start pull source (elements source) where
  Idle store := ∃ frame, replay.Holds store frame
  Behind store traversal n :=
    ∃ frame, replay.Holds store ((traversal, (elements source).drop n) ::ₘ frame)
  starts := by
    rintro store ⟨frame, holds⟩
    obtain ⟨traversal, store', hstart, holds'⟩ := replay.starts known holds
    exact ⟨traversal, store', hstart, frame, by simpa using holds'⟩
  answers := by
    rintro store traversal n ⟨frame, holds⟩
    cases hx : (elements source).get? n with
    | some x =>
      obtain ⟨traversal', store', hpull, holds'⟩ := replay.pull_some holds hx
      exact ⟨traversal', store', hpull, fun _ => ⟨frame, holds'⟩, nofun⟩
    | none =>
      obtain ⟨traversal', store', hpull, holds'⟩ := replay.pull_none holds hx
      exact ⟨traversal', store', hpull, nofun, fun _ => ⟨frame, holds'⟩⟩

namespace Rounds

open Passes (size Within IsAnswer)

variable {source : σ} {X : Seq α}

/-- A watched source answers as it does unwatched. -/
def watched (rounds : Rounds start pull source X) (component : ℕ) :
    Rounds (watchStart start) (watchPull pull) (source, component) X where
  Idle store := rounds.Idle store.1
  Behind store watched n := rounds.Behind store.1 watched.traversal n
  starts := by
    rintro ⟨store, journal⟩ idle
    obtain ⟨traversal, store', hstart, behind⟩ := rounds.starts idle
    exact ⟨_, _, by rw [watchStart, hstart]; rfl, behind⟩
  answers := by
    rintro ⟨store, journal⟩ watched n behind
    obtain ⟨traversal', store', hpull, hbehind, hidle⟩ := rounds.answers behind
    exact ⟨_, _, by rw [watchPull, hpull]; rfl, hbehind, hidle⟩

/-- A cycle over a source with elements after `n` calls. It is in the pass of
its last element and has started that one and those before it. -/
inductive Laps (rounds : Rounds start pull source X) (tally : Tally start pull)
    (passes : Option ℕ) : ℕ → Cycle σ τ → ω → Prop
  | fresh {store : ω} (idle : rounds.Idle store)
      (started : (tally.journal store).started (tally.componentOf source) = 0) :
      Laps rounds tally passes 0 ⟨source, none, passes, false⟩ store
  | within {k : ℕ} {traversal : τ} {store : ω} (within : Within X passes k)
      (behind : rounds.Behind store traversal (k % size X + 1))
      (started : (tally.journal store).started (tally.componentOf source) = k / size X + 1) :
      Laps rounds tally passes (k + 1)
        ⟨source, some traversal, passes.map (· - (k / size X + 1)), true⟩ store
  | spent {k : ℕ} {cycle : Cycle σ τ} {store : ω} (outside : ¬ Within X passes k)
      (hcurrent : cycle.current = none) (hleft : cycle.passesLeft = some 0) :
      Laps rounds tally passes (k + 1) cycle store

variable {rounds : Rounds start pull source X} {tally : Tally start pull} {passes : Option ℕ}
  {k : ℕ} {cycle : Cycle σ τ} {store : ω}

/-- A new pass begins with the first element, or with the end if there is none. -/
lemma newPass_first (rounds : Rounds start pull source X) (tally : Tally start pull)
    (cycle : Cycle σ τ) (source_eq : cycle.source = source) (left : cycle.passesLeft ≠ some 0)
    (idle : rounds.Idle store) :
    ∃ traversal store', Cycle.newPass start pull cycle store =
        some ((X.get? 0, ⟨source, some traversal, cycle.passesLeft.map (· - 1),
          (X.get? 0).isSome⟩), store') ∧
      ((X.get? 0).isSome → rounds.Behind store' traversal 1) ∧
      (tally.journal store').started (tally.componentOf source) =
        (tally.journal store).started (tally.componentOf source) + 1 := by
  subst source_eq
  obtain ⟨traversal, store₁, hstart, behind⟩ := rounds.starts idle
  obtain ⟨traversal', store₂, hpull, behind', -⟩ := rounds.answers behind
  refine ⟨traversal', store₂, ?_, behind', ?_⟩
  · simp [Cycle.newPass, left, Run.bind_apply, Run.map_apply, hstart, hpull]
  · rw [(tally.pull_eq hpull).2, Journal.started_asked, (tally.start_eq hstart).2,
      Journal.started_started, if_pos rfl]

/-- Between two passes the next one is begun if it is left. -/
lemma newPass_laps (cycle : Cycle σ τ) (nonempty : X.length' ≠ 0)
    (source_eq : cycle.source = source)
    (left_eq : cycle.passesLeft = passes.map (· - k / size X)) (boundary : k % size X = 0)
    (idle : rounds.Idle store)
    (started : (tally.journal store).started (tally.componentOf source) = k / size X) :
    ∃ answer cycle' store', Cycle.newPass start pull cycle store =
        some ((answer, cycle'), store') ∧ IsAnswer X passes k answer ∧
      rounds.Laps tally passes (k + 1) cycle' store' := by
  by_cases hleft : cycle.passesLeft = some 0
  · have outside : ¬ Within X passes k := fun within =>
      (Passes.within_iff nonempty).mp within (left_eq ▸ hleft)
    exact ⟨none, { cycle with current := none }, store, by simp [Cycle.newPass, hleft],
      Passes.isAnswer_none outside, .spent outside rfl hleft⟩
  · have within : Within X passes k := (Passes.within_iff nonempty).mpr (left_eq ▸ hleft)
    obtain ⟨x, hx⟩ := Seq.lt_length'_iff.mp (RowMajor.mod_lt (r := k) nonempty)
    obtain ⟨traversal, store', hpass, behind, hstarted⟩ :=
      rounds.newPass_first tally cycle source_eq hleft idle
    have left_succ : cycle.passesLeft.map (· - 1) = passes.map (· - (k / size X + 1)) := by
      rw [left_eq, Option.map_map]
      rfl
    have hfirst : X.get? 0 = some x := boundary ▸ hx
    rw [hfirst, left_succ] at hpass
    rw [hfirst] at behind
    refine ⟨some x, _, store', hpass, Passes.isAnswer_some within hx, .within within ?_ ?_⟩
    · rw [boundary]
      exact behind rfl
    · rw [hstarted, started]

lemma Laps.next (nonempty : X.length' ≠ 0) (laps : rounds.Laps tally passes k cycle store) :
    ∃ answer cycle' store', Cycle.next start pull cycle store =
        some ((answer, cycle'), store') ∧ IsAnswer X passes k answer ∧
      rounds.Laps tally passes (k + 1) cycle' store' := by
  cases laps with
  | fresh idle started =>
    have left_eq : passes = passes.map (· - 0 / size X) := by simp
    exact newPass_laps _ nonempty rfl left_eq (Nat.zero_mod _) idle
      (started.trans (Nat.zero_div _).symm)
  | @within k traversal store within behind started =>
    obtain ⟨traversal', store', hpull, hbehind, hidle⟩ := rounds.answers behind
    have hstarted : (tally.journal store').started (tally.componentOf source) =
        k / size X + 1 := by
      rw [(tally.pull_eq hpull).2, Journal.started_asked, started]
    cases hx : X.get? (k % size X + 1) with
    | some x =>
      obtain ⟨hdiv, hmod⟩ := RowMajor.succ_inside (Seq.lt_length'_iff.mpr ⟨x, hx⟩)
      have within' : Within X passes (k + 1) := by
        rwa [Passes.within_iff nonempty, hdiv, ← Passes.within_iff nonempty]
      have behind' := hbehind (by rw [hx]; rfl)
      rw [hx] at hpull
      rw [← hmod] at hx behind'
      rw [← hdiv] at hstarted ⊢
      refine ⟨some x, ⟨source, some traversal', _, true⟩, store', ?_,
        Passes.isAnswer_some within' hx, .within within' behind' hstarted⟩
      simp [Cycle.next, Run.bind_apply, hpull]
    | none =>
      have last : ¬ ((k % size X + 1 : ℕ) : ℕ∞) < X.length' := by
        rw [Seq.lt_length'_iff, hx]
        simp
      obtain ⟨hdiv, hmod⟩ := RowMajor.succ_carry nonempty last
      have left_eq : passes.map (· - (k / size X + 1)) = passes.map (· - (k + 1) / size X) :=
        congrArg (fun q => passes.map (· - q)) hdiv.symm
      obtain ⟨answer, cycle', store₂, hpass, isAnswer, laps⟩ :=
        newPass_laps ⟨source, some traversal, _, true⟩ nonempty rfl left_eq hmod
          (hidle hx) (hstarted.trans hdiv.symm)
      rw [hx] at hpull
      refine ⟨answer, cycle', store₂, ?_, isAnswer, laps⟩
      simp only [Cycle.next, Run.bind_apply, hpull]
      exact hpass
  | spent outside hcurrent hleft =>
    have outside' : ¬ Within X passes (_ + 1) := fun h => outside h.of_succ
    exact ⟨none, cycle, store, Cycle.next_used_up hcurrent hleft store,
      Passes.isAnswer_none outside', .spent outside' hcurrent hleft⟩

/-- A source without elements ends the cycle with the first pass, if there is one. -/
lemma next_empty (rounds : Rounds start pull source X) (tally : Tally start pull)
    (empty : X = Seq.nil) (idle : rounds.Idle store) (passes : Option ℕ) :
    ∃ cycle store', Cycle.next start pull ⟨source, none, passes, false⟩ store =
      some ((none, cycle), store') := by
  by_cases hleft : passes = some 0
  · exact ⟨_, store, Cycle.next_used_up rfl hleft store⟩
  · obtain ⟨traversal, store', hpass, -⟩ :=
      rounds.newPass_first tally ⟨source, none, passes, false⟩ rfl hleft idle
    rw [empty] at hpass
    exact ⟨_, store', hpass⟩

end Rounds

namespace Cycle

/-- What has been started and what is left are the passes of a cycle. -/
def Spends (tally : Tally start pull) (source : σ) (passes : ℕ) (cycle : Cycle σ τ)
    (store : ω) : Prop :=
  cycle.source = source ∧ ∃ left, cycle.passesLeft = some left ∧
    (tally.journal store).started (tally.componentOf source) + left = passes

namespace Spends

variable {tally : Tally start pull} {source : σ} {passes : ℕ} {cycle cycle' : Cycle σ τ}
  {store store' : ω} {answer : Option α}

lemma pulled (spends : Spends tally source passes cycle store) {traversal traversal' : τ}
    (hpull : pull traversal store = some ((answer, traversal'), store'))
    (source_eq : cycle'.source = cycle.source) (left_eq : cycle'.passesLeft = cycle.passesLeft) :
    Spends tally source passes cycle' store' := by
  obtain ⟨hsource, left, hleft, hstarted⟩ := spends
  refine ⟨source_eq.trans hsource, left, left_eq.trans hleft, ?_⟩
  rw [(tally.pull_eq hpull).2, Journal.started_asked, hstarted]

lemma newPass (spends : Spends tally source passes cycle store)
    (hnext : Cycle.newPass start pull cycle store = some ((answer, cycle'), store')) :
    Spends tally source passes cycle' store' := by
  obtain ⟨rfl, left, hleft, hstarted⟩ := spends
  by_cases hzero : cycle.passesLeft = some 0
  · simp only [Cycle.newPass, hzero, if_true] at hnext
    cases hnext
    exact ⟨rfl, left, hzero.symm.trans hleft, hstarted⟩
  · simp only [Cycle.newPass, hzero, if_false] at hnext
    obtain ⟨traversal, store₁, hstart, hnext⟩ := Run.bind_eq_some_iff.mp hnext
    obtain ⟨⟨element, traversal'⟩, store₂, hpull, hnext⟩ := Run.bind_eq_some_iff.mp hnext
    cases hnext
    have hpos : left ≠ 0 := fun h => hzero (h ▸ hleft)
    refine ⟨rfl, left - 1, by rw [hleft]; rfl, ?_⟩
    rw [(tally.pull_eq hpull).2, Journal.started_asked, (tally.start_eq hstart).2,
      Journal.started_started, if_pos rfl]
    omega

lemma next (spends : Spends tally source passes cycle store)
    (hnext : Cycle.next start pull cycle store = some ((answer, cycle'), store')) :
    Spends tally source passes cycle' store' := by
  cases hcurrent : cycle.current with
  | none =>
    simp only [Cycle.next, hcurrent] at hnext
    exact spends.newPass hnext
  | some traversal =>
    simp only [Cycle.next, hcurrent] at hnext
    obtain ⟨⟨element, traversal'⟩, store₁, hpull, hnext⟩ := Run.bind_eq_some_iff.mp hnext
    cases element with
    | some x =>
      cases hnext
      exact spends.pulled hpull rfl rfl
    | none =>
      by_cases hyielded : cycle.yieldedThisPass = true
      · simp only [hyielded, if_true] at hnext
        exact (spends.pulled hpull rfl rfl).newPass hnext
      · simp only [hyielded] at hnext
        cases hnext
        exact spends.pulled hpull rfl rfl

/-- No traversal is started beyond the passes, whatever the source does. -/
lemma pulls_started_le (spends : Spends tally source passes cycle store) {count : ℕ}
    {answers : List (Option α)}
    (run : pulls (Cycle.next start pull) count cycle store = some ((answers, cycle'), store')) :
    (tally.journal store').started (tally.componentOf source) ≤ passes := by
  induction count generalizing cycle store answers with
  | zero =>
    cases run
    obtain ⟨-, left, -, hstarted⟩ := spends
    omega
  | succ count ih =>
    obtain ⟨answer, cycle₁, store₁, others, hnext, hrest, -⟩ := pulls_succ_eq_some_iff.mp run
    exact ih (spends.next hnext) hrest

end Spends

end Cycle

/-- Each call is answered by its element of the passes, and the last element
needed the traversals of its pass and of those before it. -/
def Replays {π : Type} (X : Seq α) (passes : Option ℕ)
    (run : ℕ → Run (ω × Journal) (List (Option α) × π)) (store : ω) : Prop :=
  ∀ calls, ∃ answers cycle store' journal,
    run calls (store, []) = some ((answers, cycle), (store', journal)) ∧
    answers.length = calls ∧
    (∀ k answer, answers[k]? = some answer → Passes.IsAnswer X passes k answer) ∧
    ∀ k, calls = k + 1 → Passes.Within X passes k →
      journal.started 0 = k / Passes.size X + 1

namespace Rounds

variable {source : σ} {X : Seq α} (rounds : Rounds start pull source X) {store : ω}
  (idle : rounds.Idle store)

include idle

lemma replays (nonempty : X ≠ Seq.nil) (passes : Option ℕ) :
    Replays X passes (pulls (Cycle.next (watchStart start) (watchPull pull)) ·
      (.ofPasses (source, 0) passes)) store := by
  intro calls
  have hlength : X.length' ≠ 0 := fun h => nonempty ((Seq.length'_eq_zero_iff_nil X).mp h)
  have laps : (rounds.watched 0).Laps (Tally.watched start pull) passes 0
      (.ofPasses (source, 0) passes) (store, []) := by
    rw [Cycle.ofPasses_eq]
    exact .fresh idle rfl
  obtain ⟨answers, cycle, ⟨store', journal⟩, hpulls, hanswers_length, hanswers, laps⟩ :=
    pulls_of_step (fun laps => laps.next hlength) laps calls
  simp only [Nat.zero_add] at hanswers laps
  refine ⟨answers, cycle, store', journal, hpulls, hanswers_length, hanswers, ?_⟩
  rintro k rfl within
  cases laps with
  | within within behind started => exact started
  | spent outside => exact absurd within outside

lemma ends (empty : X = Seq.nil) (passes : Option ℕ) :
    ∃ cycle store', Cycle.next (watchStart start) (watchPull pull)
      (.ofPasses (source, 0) passes) (store, []) = some ((none, cycle), store') := by
  have idle' : (rounds.watched 0).Idle (store, []) := idle
  rw [Cycle.ofPasses_eq]
  exact (rounds.watched 0).next_empty (Tally.watched start pull) empty idle' passes

lemma pulls_ofList {xs : List α} (finite : X = Seq.ofList xs) (passes : ℕ) :
    ∃ cycle store', pulls (Cycle.next (watchStart start) (watchPull pull))
        (passes * xs.length + 1) (.bounded (source, 0) passes) (store, []) =
      some (((List.replicate passes xs).flatten.map some ++ [none], cycle), store') := by
  cases xs with
  | nil =>
    obtain ⟨cycle, store', hnext⟩ := rounds.ends idle (finite.trans Seq.ofList_nil) (some passes)
    have hflatten : (List.replicate passes ([] : List α)).flatten = [] := by simp
    rw [hflatten]
    exact ⟨cycle, store', pulls_succ_eq_some_iff.mpr ⟨none, cycle, store', [], hnext, rfl, rfl⟩⟩
  | cons x xs =>
    have nonempty : X ≠ Seq.nil := by
      rw [finite, Seq.ofList_cons]
      exact Seq.cons_ne_nil
    obtain ⟨answers, cycle, store', journal, hpulls, hlength, hanswers, -⟩ :=
      rounds.replays idle nonempty (some passes) (passes * (x :: xs).length + 1)
    rw [finite] at hanswers
    rw [Passes.answers_ofList hlength hanswers] at hpulls
    exact ⟨cycle, (store', journal), hpulls⟩

end Rounds

/-- A cycle replays its source pass by pass, for ever or for the passes it is
given, and starts a traversal with the first element of each pass. A list is
delivered once for each pass. A source without elements ends the cycle at the
first call. -/
theorem cycle_replays {source : σ} {X : Seq α} (rounds : Rounds start pull source X) {store : ω}
    (idle : rounds.Idle store) :
    (X ≠ Seq.nil → ∀ passes, Replays X passes
        (pulls (Cycle.next (watchStart start) (watchPull pull)) ·
          (.ofPasses (source, 0) passes)) store) ∧
      (X = Seq.nil → ∀ passes, ∃ cycle store',
        Cycle.next (watchStart start) (watchPull pull) (.ofPasses (source, 0) passes) (store, []) =
          some ((none, cycle), store')) ∧
      (∀ xs, X = Seq.ofList xs → ∀ passes, ∃ cycle store',
        pulls (Cycle.next (watchStart start) (watchPull pull)) (passes * xs.length + 1)
            (.bounded (source, 0) passes) (store, []) =
          some (((List.replicate passes xs).flatten.map some ++ [none], cycle), store')) ∧
      ∀ passes calls answers cycle store' journal,
        pulls (Cycle.next (watchStart start) (watchPull pull)) calls
            (.bounded (source, 0) passes) (store, []) =
          some ((answers, cycle), (store', journal)) → journal.started 0 ≤ passes := by
  refine ⟨rounds.replays idle, rounds.ends idle, fun xs finite => rounds.pulls_ofList idle finite,
    fun passes calls answers cycle store' journal run => ?_⟩
  have spends : Cycle.Spends (Tally.watched start pull) (source, 0) passes
      (.bounded (source, 0) passes) (store, []) := ⟨rfl, passes, rfl, Nat.zero_add _⟩
  exact spends.pulls_started_le run

/-- Two elements over and over, whatever their source goes on with: two passes
are four elements and an end, and the sixth element needs a third traversal. -/
theorem cycle_replays_resuming :
    let source : Script ℕ := .ofAnswers #[some 1, some 2, none, some 9] none
    let rounds := (Replay.ofStep id Script.next [source]).rounds List.mem_cons_self
    let next := Cycle.next (watchStart pure) (watchPull fun script => return script.next)
    rounds.Idle () ∧
      (∃ cycle store', pulls next 5 (.bounded (source, 0) 2) ((), []) =
        some (([some 1, some 2, some 1, some 2, none], cycle), store')) ∧
      ∃ answers cycle store' journal, pulls next 6 (.unbounded (source, 0)) ((), []) =
        some ((answers, cycle), (store', journal)) ∧
        answers[5]? = some (some 2) ∧ journal.started 0 = 3 := by
  intro source rounds next
  have idle : rounds.Idle () := ⟨0, fun entry h => by simp at h⟩
  have hX : (History.ofStep Script.next source ()).elements = Seq.ofList [1, 2] :=
    History.elements_eq_ofList (by decide)
  obtain ⟨replays, -, finite, -⟩ := cycle_replays rounds idle
  have nonempty : (History.ofStep Script.next source ()).elements ≠ Seq.nil := by
    rw [hX, Seq.ofList_cons]
    exact Seq.cons_ne_nil
  obtain ⟨answers, cycle, store', journal, hpulls, hlength, hanswers, hstarted⟩ :=
    replays nonempty none 6
  have hsize : Passes.size (History.ofStep Script.next source ()).elements = 2 := by
    rw [Passes.size, hX, length'_ofList]
    rfl
  have within : Passes.Within (History.ofStep Script.next source ()).elements none 5 := by
    simp [Passes.Within]
  have hanswer := List.getElem?_eq_getElem (show 5 < answers.length by omega)
  obtain ⟨x, hlast, hx⟩ := (hanswers 5 _ hanswer).1 within
  rw [hlast] at hanswer
  have hsecond : (History.ofStep Script.next source ()).elements.get? (5 % 2) = some x :=
    hsize ▸ hx
  rw [hX] at hsecond
  obtain rfl : 2 = x := Option.some.inj hsecond
  refine ⟨idle, finite [1, 2] hX 2, answers, cycle, store', journal, hpulls, hanswer, ?_⟩
  exact (hstarted 5 rfl within).trans (congrArg (5 / · + 1) hsize)

end Traversals
