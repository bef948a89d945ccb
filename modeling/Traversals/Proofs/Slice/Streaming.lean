import Mathlib.Data.Nat.ModEq
import Traversals.Proofs.Selection

/-!
# Streaming slices

A streaming slice is a sub-sequence whose stop has been turned into a number of
answers. The places of that many answers are exactly the positions of the slice,
so it answers with the elements at these positions, in order. The places of the
answers that are left lie below the stop at any time, whatever the input
answers, so nothing is pulled at the stop or behind it.
-/

namespace Traversals

open Stream' (Seq)

variable {ω τ α : Type}

namespace SubSequence

/-- The positions of a slice: from the start on, whole steps apart, below the stop. -/
structure InSlice (start : ℕ) (stop : Option ℕ) (step position : ℕ) : Prop where
  from_start : start ≤ position
  on_step : position ≡ start [MOD step]
  below_stop : ∀ limit ∈ stop, position < limit

/-- The number of answers that a stop leaves room for. -/
def room (start : ℕ) (stop : Option ℕ) (step : ℕ) : Option ℕ :=
  stop.map fun stop => divideUp (stop - start) step

section Places

variable {start step : ℕ} {stop : Option ℕ}

lemma lt_divideUp_iff (step_pos : 0 < step) {n k : ℕ} : k < divideUp n step ↔ k * step < n := by
  rw [divideUp, ← Nat.succ_le_iff, Nat.le_div_iff_mul_le step_pos, Nat.succ_mul]
  omega

/-- The division is undone by the steps: an answer is allowed if its place lies
below the stop. -/
lemma within_room_iff (step_pos : 0 < step) {k : ℕ} :
    (∀ limit ∈ room start stop step, k < limit) ↔ ∀ limit ∈ stop, start + k * step < limit := by
  cases stop with
  | none => simp [room]
  | some stop =>
    simp only [room, Option.map_some, Option.mem_some_iff, forall_eq', lt_divideUp_iff step_pos]
    omega

/-- The positions of a slice are the places of the answers it has room for. -/
lemma inSlice_iff (step_pos : 0 < step) {position : ℕ} :
    InSlice start stop step position ↔
      ∃ k, position = start + k * step ∧ ∀ limit ∈ room start stop step, k < limit := by
  constructor
  · rintro ⟨from_start, on_step, below_stop⟩
    obtain ⟨k, hk⟩ := (Nat.modEq_iff_dvd' from_start).mp on_step.symm
    have hplace : position = start + k * step := by
      rw [Nat.mul_comm k]
      omega
    refine ⟨k, hplace, (within_room_iff step_pos).mpr ?_⟩
    rwa [← hplace]
  · rintro ⟨k, rfl, within⟩
    refine ⟨Nat.le_add_right _ _, ?_, (within_room_iff step_pos).mp within⟩
    simp [Nat.ModEq]

end Places

section Positions

variable {elements : Seq α} {start step count : ℕ} {stop : Option ℕ} {yielded : List α}

/-- The elements that a slice has answered with, by their positions. What it has
not answered with comes later, unless it has ended. -/
lemma exists_positions (step_pos : 0 < step)
    (hyielded : ∀ k x, yielded[k]? = some x ↔
      k < count ∧ selected elements start (room start stop step) step k = some x) :
    ∃ positions : List ℕ, yielded.map some = positions.map elements.get? ∧
      positions.Pairwise (· < ·) ∧ (∀ position ∈ positions, InSlice start stop step position) ∧
      ∀ position, InSlice start stop step position → (elements.get? position).isSome →
        position ∈ positions ∨
          count ≤ yielded.length ∧ ∀ earlier ∈ positions, earlier < position := by
  have hplaces : ∀ i j, i < j → start + i * step < start + j * step := fun i j hlt =>
    Nat.add_lt_add_left (Nat.mul_lt_mul_of_pos_right hlt step_pos) start
  have hselected : ∀ k (hk : k < yielded.length),
      (∀ limit ∈ room start stop step, k < limit) ∧
        elements.get? (start + k * step) = some yielded[k] := by
    intro k hk
    have hx := (hyielded k yielded[k]).mp (List.getElem?_eq_getElem hk)
    exact selected_eq_some_iff.mp hx.2
  refine ⟨(List.range yielded.length).map fun k => start + k * step, ?_, ?_, ?_, ?_⟩
  · refine List.ext_getElem (by simp) ?_
    intro k hk _
    simp [(hselected k (by simpa using hk)).2]
  · exact List.pairwise_map.mpr (List.pairwise_lt_range.imp (hplaces _ _))
  · intro position hmem
    obtain ⟨k, hk, rfl⟩ := List.mem_map.mp hmem
    exact (inSlice_iff step_pos).mpr ⟨k, rfl, (hselected k (List.mem_range.mp hk)).1⟩
  · intro position inSlice hsome
    obtain ⟨k, rfl, within⟩ := (inSlice_iff step_pos).mp inSlice
    obtain ⟨x, hx⟩ := Option.isSome_iff_exists.mp hsome
    rcases Nat.lt_or_ge k yielded.length with hlt | hge
    · exact .inl (List.mem_map.mpr ⟨k, List.mem_range.mpr hlt, rfl⟩)
    · refine .inr ⟨?_, ?_⟩
      · -- otherwise this would have been the answer to an earlier pull
        by_contra hlt
        have hnone : yielded[k]? = none := List.getElem?_eq_none hge
        have hend : selected elements start (room start stop step) step yielded.length = none := by
          refine Option.eq_none_iff_forall_not_mem.mpr ?_
          intro y hy
          have hlast := (hyielded yielded.length y).mpr ⟨by omega, hy⟩
          rw [List.getElem?_eq_none le_rfl] at hlast
          cases hlast
        have hlater := selected_eq_none_of_le hge hend
        rw [selected_eq_some_iff.mpr ⟨within, hx⟩] at hlater
        cases hlater
      · intro earlier hmem
        obtain ⟨i, hi, rfl⟩ := List.mem_map.mp hmem
        exact hplaces i k ((List.mem_range.mp hi).trans_le hge)

end Positions

/-- No answer that is left has its place at a limit or behind it, and nothing
was pulled there so far. -/
structure Below (limit : ℕ) (stage : SubSequence τ) (calls : ℕ) : Prop where
  calls_le : calls ≤ limit
  places_lt : ∃ left, stage.remaining = some left ∧
    ∀ k < left, calls + stage.gap + k * stage.stride < limit

section Calls

variable {pull : Pull ω τ α} {traversal traversal' : τ} {answer : Option α} {store store' : ω}
  {calls calls' : ℕ}

/-- An element so many places ahead takes so many pulls and one, an end perhaps
fewer. -/
lemma calls_of_nth {gap : ℕ} (hnth : nth (counted pull) gap traversal (store, calls) =
      some ((answer, traversal'), (store', calls'))) :
    calls' ≤ calls + gap + 1 ∧ (answer.isSome → calls' = calls + gap + 1) := by
  have counts : ∀ {traversal traversal' answer store store' calls calls'},
      counted pull traversal (store, calls) = some ((answer, traversal'), (store', calls')) →
        calls' = calls + 1 := by
    intro traversal traversal' answer store store' calls calls' hpull
    obtain ⟨⟨⟨_, _⟩, _⟩, -, hresult⟩ := Option.map_eq_some_iff.mp hpull
    cases hresult
    rfl
  induction gap generalizing traversal store calls with
  | zero =>
    have hcalls := counts hnth
    exact ⟨hcalls.le, fun _ => hcalls⟩
  | succ gap ih =>
    obtain ⟨⟨element, traversal₁⟩, ⟨store₁, calls₁⟩, hpull, hrest⟩ := Run.bind_eq_some_iff.mp hnth
    have hcalls := counts hpull
    cases element with
    | none =>
      cases hrest
      refine ⟨by omega, ?_⟩
      intro hsome
      cases hsome
    | some x =>
      obtain ⟨hle, heq⟩ := ih hrest
      refine ⟨by omega, ?_⟩
      intro hsome
      have hlast := heq hsome
      omega

/-- A pull leads to the first of the places that are left, or ends before it. -/
lemma Below.next {limit : ℕ} {stage stage' : SubSequence τ} (below : stage.Below limit calls)
    (hnext : SubSequence.next (counted pull) stage (store, calls) =
      some ((answer, stage'), (store', calls'))) : stage'.Below limit calls' := by
  unfold SubSequence.next at hnext
  split at hnext
  · cases hnext
    exact below
  · rename_i unspent
    obtain ⟨calls_le, left, remaining_eq, places_lt⟩ := below
    obtain ⟨⟨element, input⟩, ⟨store₁, calls₁⟩, hnth, hrest⟩ := Run.bind_eq_some_iff.mp hnext
    obtain ⟨hle, heq⟩ := calls_of_nth hnth
    obtain ⟨left, rfl⟩ : ∃ n, left = n + 1 := Nat.exists_eq_succ_of_ne_zero fun hzero =>
      unspent (hzero ▸ remaining_eq)
    have hfirst := places_lt 0 left.succ_pos
    cases element with
    | none =>
      cases hrest
      refine ⟨by omega, 0, rfl, ?_⟩
      intro k hk
      exact absurd hk k.not_lt_zero
    | some x =>
      cases hrest
      have hcalls := heq rfl
      refine ⟨by omega, left, by simp [remaining_eq], ?_⟩
      intro k hk
      have hplace := places_lt (k + 1) (Nat.succ_lt_succ hk)
      have stride_pos := stage.stride_pos
      rw [Nat.succ_mul] at hplace
      simp only
      omega

end Calls

section Slicing

variable {pull : Pull ω τ α}

/-- A slice selects the elements at its places, and has those left that come
before the stop. -/
structure Slicing (history : History pull) (start : ℕ) (stop : Option ℕ) (step k : ℕ)
    (stage : SubSequence τ) (last : ω × ℕ) : Prop where
  selecting : Selecting history.counting start (room start stop step) step k stage last
  below : ∀ limit ∈ stop, stage.Below limit last.2

lemma Slicing.start (history : History pull) (start : ℕ) (stop : Option ℕ) {step : ℕ}
    (step_pos : 0 < step) :
    Slicing history start stop step 0
      ⟨(history.state 0).1, start, step, room start stop step, step_pos⟩
      ((history.state 0).2, 0) where
  selecting := .going history.counting.reached_zero rfl (by simp [needed]) rfl (by simp) (by simp)
  below := by
    rintro limit rfl
    refine ⟨Nat.zero_le _, _, rfl, ?_⟩
    intro k hk
    have hplace : ∀ bound ∈ some limit, start + k * step < bound :=
      (within_room_iff step_pos).mp fun _ hroom => Option.some.inj hroom ▸ hk
    simpa using hplace limit rfl

lemma Slicing.next {history : History pull} {start : ℕ} {stop : Option ℕ} {step k : ℕ}
    {stage : SubSequence τ} {last : ω × ℕ}
    (slicing : Slicing history start stop step k stage last) :
    ∃ answer stage' last', SubSequence.next (counted pull) stage last =
        some ((answer, stage'), last') ∧
      answer = selected history.elements start (room start stop step) step k ∧
      Slicing history start stop step (k + 1) stage' last' := by
  obtain ⟨store, calls⟩ := last
  obtain ⟨answer, stage', last', hnext, hanswer, selecting⟩ := slicing.selecting.next
  have below : ∀ limit ∈ stop, stage'.Below limit last'.2 :=
    fun limit hlimit => (slicing.below limit hlimit).next hnext
  exact ⟨answer, stage', last', hnext, hanswer, selecting, below⟩

end Slicing

end SubSequence

open SubSequence in
/-- A streaming slice answers with the elements at the positions of the slice,
in order and each once: those it has answered with come before all others, and
it ends only when there are no others. It never pulls at the stop or behind it,
and pulls nothing if the stop is not behind the start. -/
theorem slice_streams {pull : Pull ω τ α} (history : History pull) (start : ℕ)
    (stop : Option ℕ) {step : ℕ} (step_pos : 0 < step) (count : ℕ) :
    ∃ stage, SubSequence.slice (history.state 0).1 start stop step = .ok stage ∧
    ∃ (yielded : List α) (positions : List ℕ) (ends : ℕ) (stage' : SubSequence τ) (store : ω)
      (calls : ℕ),
      pulls (SubSequence.next (counted pull)) count stage ((history.state 0).2, 0) =
        some ((yielded.map some ++ List.replicate ends none, stage'), (store, calls)) ∧
      yielded.length + ends = count ∧
      yielded.map some = positions.map history.elements.get? ∧
      positions.Pairwise (· < ·) ∧
      (∀ position ∈ positions, InSlice start stop step position) ∧
      (∀ position, InSlice start stop step position → (history.elements.get? position).isSome →
        position ∈ positions ∨ ends = 0 ∧ ∀ earlier ∈ positions, earlier < position) ∧
      store = (history.state calls).2 ∧
      (∀ limit ∈ stop, calls ≤ limit) ∧
      ∀ limit ∈ stop, limit ≤ start → calls = 0 := by
  have slicing := Slicing.start history start stop step_pos
  obtain ⟨answers, stage', last, hrun, hlength, hanswers, selecting, below⟩ :=
    pulls_of_step Slicing.next slicing count
  simp only [Nat.zero_add] at hanswers selecting
  obtain ⟨yielded, ends, rfl, hyielded⟩ :=
    exists_yielded hanswers fun _ _ => selected_eq_none_of_le
  rw [hlength] at hyielded
  have hcount : yielded.length + ends = count := by simpa using hlength
  obtain ⟨positions, hpositions, ordered, inSlice, complete⟩ := exists_positions step_pos hyielded
  refine ⟨⟨(history.state 0).1, start, step, room start stop step, step_pos⟩,
    by simp [SubSequence.slice, positive, step_pos, room], yielded, positions, ends, stage',
    last.1, last.2, hrun, hcount, hpositions, ordered, inSlice, ?_, selecting.store_eq,
    fun limit hlimit => (below limit hlimit).calls_le, ?_⟩
  · intro position hslice hsome
    rcases complete position hslice hsome with hmem | ⟨hall, hbefore⟩
    · exact .inl hmem
    · exact .inr ⟨by omega, hbefore⟩
  · rintro limit rfl hle
    have hzero : divideUp (limit - start) step = 0 := by
      by_contra hpos
      have hroom := (lt_divideUp_iff step_pos).mp (Nat.pos_of_ne_zero hpos)
      omega
    exact selecting.calls_eq_zero (.inr (congrArg some hzero))

/-- Every third number from the second on below nine, of all numbers. -/
theorem slice_streams_numbers :
    let numbers := History.ofStep (fun n : ℕ => (some n, n + 1)) 0 ()
    0 < 3 ∧ ∃ stage, SubSequence.slice 0 2 (some 9) 3 = .ok stage ∧
      ∃ (yielded : List ℕ) (ends : ℕ) (stage' : SubSequence ℕ) (calls : ℕ),
        pulls (SubSequence.next (counted fun n => return (some n, n + 1))) 5 stage ((), 0) =
          some ((yielded.map some ++ List.replicate ends none, stage'), ((), calls)) ∧
        (∀ p, SubSequence.InSlice 2 (some 9) 3 p → (numbers.elements.get? p).isSome →
          numbers.elements.get? p ∈ yielded.map some ∨ ends = 0) ∧
        calls ≤ 9 := by
  intro numbers
  obtain ⟨stage, hslice, yielded, positions, ends, stage', store, calls, hrun, -, hyielded, -, -,
    complete, -, hcalls, -⟩ := slice_streams numbers 2 (some 9) (show 0 < 3 by decide) 5
  refine ⟨by decide, stage, hslice, yielded, ends, stage', calls, hrun, ?_, hcalls 9 rfl⟩
  intro p inSlice hsome
  rcases complete p inSlice hsome with hmem | ⟨hends, -⟩
  · exact .inl (hyielded ▸ List.mem_map_of_mem hmem)
  · exact .inr hends

end Traversals
