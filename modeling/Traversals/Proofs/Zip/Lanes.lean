import Mathlib.Data.ENat.Lattice
import Mathlib.Data.List.FinRange
import Traversals.Proofs.Upstream
import Traversals.Proofs.Zip.Rows

/-!
# Zips in step

The traversals of a zip are lanes that do not disturb one another, whatever
store they share. A row asks each lane once, from the left, up to the first that
has ended. So all lanes have been asked once a row, and the call that finds the
end leaves the lanes before the one that has ended an element ahead of those
behind it. From then on no lane is asked.
-/

namespace Traversals

open Stream' (Seq)

variable {ω τ α : Type} {k : ℕ}

/-- Traversals that give the answers they would give alone, in whatever order
they are pulled. What holds of the store goes by the pulls of each lane so far. -/
structure Lanes (pull : Pull ω τ α) (k : ℕ) where
  Holds : ω → (Fin k → ℕ) → Prop
  state : Fin k → ℕ → τ
  answer : Fin k → ℕ → Option α
  pulled : ∀ {store calls}, Holds store calls → ∀ i, ∃ store',
    pull (state i (calls i)) store = some ((answer i (calls i), state i (calls i + 1)), store') ∧
      Holds store' (Function.update calls i (calls i + 1))

/-- A pull of a lane that counts the pulls of each lane beside the store. -/
def tallied (pull : Pull ω τ α) : Pull (ω × (Fin k → ℕ)) (Fin k × τ) α :=
  fun (i, traversal) (store, calls) =>
    (pull traversal store).map fun ((answer, traversal), store) =>
      ((answer, (i, traversal)), (store, Function.update calls i (calls i + 1)))

/-- The row that some answers make, if no end is among them. -/
def rowOf (answers : List (Option α)) : Option (List α) := answers.mapM id

@[simp] lemma rowOf_nil : rowOf ([] : List (Option α)) = some [] := by
  simp [rowOf]

@[simp] lemma rowOf_cons_none (answers : List (Option α)) : rowOf (none :: answers) = none := by
  simp [rowOf]

@[simp] lemma rowOf_cons_some (x : α) (answers : List (Option α)) :
    rowOf (some x :: answers) = (rowOf answers).map (x :: ·) := by
  cases h : answers.mapM id <;> simp [rowOf, h]

lemma rowOf_eq_some_iff {answers : List (Option α)} {row : List α} :
    rowOf answers = some row ↔ row.map some = answers := by
  induction answers generalizing row with
  | nil => cases row <;> simp
  | cons answer answers ih =>
    cases answer with
    | none => cases row <;> simp
    | some x =>
      cases row with
      | nil => simp
      | cons y row => simp [ih, eq_comm (a := x), and_comm]

namespace Lanes

variable {pull : Pull ω τ α} (lanes : Lanes pull k)

/-- A lane pulled alone. -/
def history (i : Fin k) : History (fun n => return (lanes.answer i n, n + 1) : Pull Unit ℕ α) where
  state n := (n, ())
  answer := lanes.answer i
  pulled _ := rfl

/-- The elements of a lane before its first end. -/
def elements (i : Fin k) : Seq α := (lanes.history i).elements

/-- Some lanes after so many pulls of each. -/
def standing (calls : Fin k → ℕ) (among : List (Fin k)) : List (Fin k × τ) :=
  among.map fun i => (i, lanes.state i (calls i))

@[simp] lemma standing_cons (calls : Fin k → ℕ) (i : Fin k) (among : List (Fin k)) :
    lanes.standing calls (i :: among) =
      (i, lanes.state i (calls i)) :: lanes.standing calls among := rfl

/-- Traversals that are plain values do not disturb one another. -/
def ofStep (step : τ → Option α × τ) (traversals : Fin k → τ) :
    Lanes (fun t => return step t : Pull ω τ α) k where
  Holds _ _ := True
  state i n := (fun t => (step t).2)^[n] (traversals i)
  answer i n := (step ((fun t => (step t).2)^[n] (traversals i))).1
  pulled {store} _ _ i := ⟨store, by simp [Function.iterate_succ_apply'], trivial⟩

/-- A lane that a row asks: none of those before it has ended. -/
def Asked (calls : Fin k → ℕ) (among : List (Fin k)) (i : Fin k) : Prop :=
  i ∈ among ∧ ∀ earlier ∈ among, earlier < i → (lanes.answer earlier (calls earlier)).isSome

instance (calls : Fin k → ℕ) (among : List (Fin k)) (i : Fin k) :
    Decidable (lanes.Asked calls among i) :=
  inferInstanceAs (Decidable (_ ∧ _))

section Row

variable {lanes} {store : ω} {calls : Fin k → ℕ}

lemma tallied_eq (holds : lanes.Holds store calls) (i : Fin k) :
    ∃ store', tallied pull (i, lanes.state i (calls i)) (store, calls) =
        some ((lanes.answer i (calls i), (i, lanes.state i (calls i + 1))),
          (store', Function.update calls i (calls i + 1))) ∧
      lanes.Holds store' (Function.update calls i (calls i + 1)) := by
  obtain ⟨store', hpull, holds'⟩ := lanes.pulled holds i
  exact ⟨store', by simp [tallied, hpull], holds'⟩

section Asked

variable {first : Fin k} {rest : List (Fin k)}

/-- Behind a lane with an element the others are asked as without it. -/
lemma asked_going {x : α} (going : lanes.answer first (calls first) = some x) {i : Fin k}
    (hi : i ≠ first) : lanes.Asked calls (first :: rest) i ↔ lanes.Asked calls rest i := by
  rw [Asked, List.mem_cons, or_iff_right hi, List.forall_mem_cons, going]
  simp [Asked]

variable (before : ∀ i ∈ rest, first < i)

include before

lemma asked_first : lanes.Asked calls (first :: rest) first := by
  refine ⟨List.mem_cons_self, ?_⟩
  intro earlier hmem hlt
  rcases List.mem_cons.mp hmem with rfl | hrest
  · exact absurd hlt (lt_irrefl _)
  · exact absurd hlt (before earlier hrest).asymm

/-- Behind a lane that has ended no lane is asked. -/
lemma asked_ended (ended : lanes.answer first (calls first) = none) (i : Fin k) :
    lanes.Asked calls (first :: rest) i ↔ i = first := by
  constructor
  · rintro ⟨hmem, hsome⟩
    by_contra hi
    have hlt := before i ((List.mem_cons.mp hmem).resolve_left hi)
    have hfirst := hsome first List.mem_cons_self hlt
    rw [ended] at hfirst
    cases hfirst
  · rintro rfl
    exact asked_first before

/-- A lane that is not among them may be pulled. -/
lemma asked_update (n : ℕ) (i : Fin k) :
    lanes.Asked (Function.update calls first n) rest i ↔ lanes.Asked calls rest i := by
  refine and_congr_right fun _ => forall₂_congr fun earlier hearlier => ?_
  rw [Function.update_of_ne (before earlier hearlier).ne']

lemma standing_update (n : ℕ) :
    lanes.standing (Function.update calls first n) rest = lanes.standing calls rest := by
  refine List.map_congr_left fun i hi => ?_
  rw [Function.update_of_ne (before i hi).ne']

lemma answers_update (n : ℕ) :
    (rest.map fun i => lanes.answer i (Function.update calls first n i)) =
      rest.map fun i => lanes.answer i (calls i) := by
  refine List.map_congr_left fun i hi => ?_
  rw [Function.update_of_ne (before i hi).ne']

end Asked

/-- The lanes of a row are asked from the left, up to the first end. -/
lemma pullRow_standing {among : List (Fin k)} (ordered : among.Pairwise (· < ·))
    (holds : lanes.Holds store calls) :
    ∃ store' calls', ZipAll.pullRow (tallied pull) (lanes.standing calls among) (store, calls) =
        some ((rowOf (among.map fun i => lanes.answer i (calls i)), lanes.standing calls' among),
          (store', calls')) ∧
      lanes.Holds store' calls' ∧
      ∀ i, calls' i = if lanes.Asked calls among i then calls i + 1 else calls i := by
  induction among generalizing store calls with
  | nil => exact ⟨store, calls, rfl, holds, by simp [Asked]⟩
  | cons first rest ih =>
    obtain ⟨before, ordered⟩ := List.pairwise_cons.mp ordered
    obtain ⟨store₁, hpull, holds₁⟩ := tallied_eq holds first
    cases hanswer : lanes.answer first (calls first) with
    | none =>
      refine ⟨store₁, Function.update calls first (calls first + 1), ?_, holds₁, ?_⟩
      · simp only [standing_cons, ZipAll.pullRow, Run.bind_apply, hpull, hanswer,
          standing_update before, Function.update_self, List.map_cons, rowOf_cons_none]
        rfl
      · intro i
        by_cases hi : i = first
        · subst hi
          rw [Function.update_self, if_pos (asked_first before)]
        · rw [Function.update_of_ne hi, if_neg (mt (asked_ended before hanswer i).mp hi)]
    | some x =>
      obtain ⟨store', calls', hrow, holds', hcalls⟩ := ih ordered holds₁
      have hown : calls' first = calls first + 1 := by
        rw [hcalls, if_neg fun h => lt_irrefl first (before first h.1), Function.update_self]
      refine ⟨store', calls', ?_, holds', ?_⟩
      · rw [standing_update before, answers_update before] at hrow
        simp only [standing_cons, ZipAll.pullRow, Run.bind_apply, hpull, hanswer,
          Option.bind_some, hrow, hown, List.map_cons, rowOf_cons_some]
        rfl
      · intro i
        by_cases hi : i = first
        · subst hi
          rw [hown, if_pos (asked_first before)]
        · rw [hcalls, Function.update_of_ne hi]
          exact if_congr ((asked_update before _ i).trans (asked_going hanswer hi).symm) rfl rfl

end Row

/-- The rows that all lanes have an element for. -/
noncomputable def rows : ℕ∞ := ⨅ i, (lanes.elements i).length'

/-- The elements of all lanes at a place, if there are as many. -/
def rowAt (r : ℕ) : Option (List α) :=
  rowOf ((List.finRange k).map fun i => (lanes.elements i).get? r)

section Rows

variable {lanes} {r : ℕ}

lemma lt_rows_iff : (r : ℕ∞) < lanes.rows ↔ ∀ i, ((lanes.elements i).get? r).isSome := by
  rw [← ENat.add_one_le_iff (ENat.natCast_ne_top r), rows, le_iInf_iff]
  refine forall_congr' fun i => ?_
  rw [ENat.add_one_le_iff (ENat.natCast_ne_top r), Seq.lt_length'_iff, Option.isSome_iff_exists]
  rfl

lemma reached (hr : (r : ℕ∞) ≤ lanes.rows) (i : Fin k) : (lanes.history i).Reached r :=
  fun _ hm => lt_rows_iff.mp ((Nat.cast_lt.mpr hm).trans_le hr) i

lemma answer_eq (hr : (r : ℕ∞) ≤ lanes.rows) (i : Fin k) :
    lanes.answer i r = (lanes.elements i).get? r :=
  (reached hr i).answer_eq

lemma exists_rowAt (hr : (r : ℕ∞) < lanes.rows) : ∃ row, lanes.rowAt r = some row ∧
    row.map some = (List.finRange k).map fun i => (lanes.elements i).get? r := by
  have hall := lt_rows_iff.mp hr
  have hrow : ((List.finRange k).map fun i => ((lanes.elements i).get? r).get (hall i)).map some =
      (List.finRange k).map fun i => (lanes.elements i).get? r := by
    simp
  exact ⟨_, rowOf_eq_some_iff.mpr hrow, hrow⟩

lemma rowAt_eq_none (hr : lanes.rows ≤ r) : lanes.rowAt r = none := by
  refine Option.eq_none_iff_forall_ne_some.mpr ?_
  intro row hrow
  refine absurd (lt_rows_iff.mpr fun i => ?_) (not_lt.mpr hr)
  have hmap := rowOf_eq_some_iff.mp hrow
  have hmem : (lanes.elements i).get? r ∈ row.map some :=
    hmap ▸ List.mem_map.mpr ⟨i, List.mem_finRange i, rfl⟩
  obtain ⟨x, -, hx⟩ := List.mem_map.mp hmem
  rw [← hx]
  rfl

end Rows

/-- The first lane that is as short as any. -/
def IsFirstShortest (j : Fin k) : Prop :=
  IsLeast {i | (lanes.elements i).length' = lanes.rows} j

/-- The pulls of each lane, once the first of the shortest has been asked for
its end. -/
def finalCalls (j : Fin k) (n : ℕ) : Fin k → ℕ := fun i => if i ≤ j then n + 1 else n

/-- A zip of all lanes after `r` pulls: they are in step, or an end has been found. -/
inductive InStep (r : ℕ) : ZipAll (Fin k × τ) → ω × (Fin k → ℕ) → Prop
  | going {store : ω} (reached : (r : ℕ∞) ≤ lanes.rows) (holds : lanes.Holds store fun _ => r) :
      InStep r ⟨lanes.standing (fun _ => r) (List.finRange k), false⟩ (store, fun _ => r)
  | stopped {store : ω} {n : ℕ} {j : Fin k} (before : n < r) (rows_eq : lanes.rows = n)
      (first : lanes.IsFirstShortest j) :
      InStep r ⟨lanes.standing (finalCalls j n) (List.finRange k), true⟩ (store, finalCalls j n)

section Run

variable {lanes} {r : ℕ} {store : ω}

/-- One row of lanes that are in step. -/
lemma pullRow_in_step (reached : (r : ℕ∞) ≤ lanes.rows) (holds : lanes.Holds store fun _ => r) :
    ∃ store' calls', ZipAll.pullRow (tallied pull)
        (lanes.standing (fun _ => r) (List.finRange k)) (store, fun _ => r) =
          some ((lanes.rowAt r, lanes.standing calls' (List.finRange k)), (store', calls')) ∧
      lanes.Holds store' calls' ∧
      ∀ i, calls' i = if ∀ earlier < i, ((lanes.elements earlier).get? r).isSome then r + 1
        else r := by
  obtain ⟨store', calls', hrow, holds', hcalls⟩ :=
    pullRow_standing (List.pairwise_lt_finRange k) holds
  simp only [Asked, answer_eq reached, List.mem_finRange, true_and, forall_const] at hrow hcalls
  exact ⟨store', calls', hrow, holds', hcalls⟩

/-- The lanes that are asked for the row that does not come. -/
lemma exists_first_shortest (ended : lanes.rows = r) : ∃ j, lanes.IsFirstShortest j ∧
    ∀ i, (∀ earlier < i, ((lanes.elements earlier).get? r).isSome) ↔ i ≤ j := by
  have shortest : ∀ i, (lanes.elements i).length' = lanes.rows ↔
      (lanes.elements i).get? r = none := by
    intro i
    have hle : lanes.rows ≤ (lanes.elements i).length' := iInf_le _ i
    rw [ended] at hle ⊢
    rw [← hle.ge_iff_eq', Seq.length'_le_iff]
    rfl
  have notAll : ¬ ∀ i, ((lanes.elements i).get? r).isSome := fun all =>
    (lt_rows_iff.mpr all).ne ended.symm
  push Not at notAll
  obtain ⟨i, hi⟩ := notAll
  obtain ⟨j, hj, least⟩ := WellFounded.has_min wellFounded_lt
    {i | (lanes.elements i).length' = lanes.rows} ⟨i, (shortest i).mpr (by simpa using hi)⟩
  refine ⟨j, ⟨hj, fun i hi => not_lt.mp (least i hi)⟩, ?_⟩
  intro i
  constructor
  · intro all
    by_contra hlt
    have hsome := all j (not_le.mp hlt)
    rw [(shortest j).mp hj] at hsome
    cases hsome
  · intro hle earlier hlt
    rw [Option.isSome_iff_ne_none]
    exact fun hnone => least earlier ((shortest earlier).mpr hnone) (hlt.trans_le hle)

/-- One pull of a zip. Only a zip in step asks its lanes. -/
lemma InStep.next {zip : ZipAll (Fin k × τ)} {last : ω × (Fin k → ℕ)}
    (inStep : lanes.InStep r zip last) :
    ∃ answer zip' last', ZipAll.next (tallied pull) zip last = some ((answer, zip'), last') ∧
      answer = lanes.rowAt r ∧ lanes.InStep (r + 1) zip' last' := by
  cases inStep with
  | stopped before rows_eq first =>
    have hle : lanes.rows ≤ r := by
      rw [rows_eq]
      exact Nat.cast_le.mpr before.le
    exact ⟨none, _, _, rfl, (rowAt_eq_none hle).symm, .stopped (by omega) rows_eq first⟩
  | @going store reached holds =>
    obtain ⟨store', calls', hrow, holds', hcalls⟩ := pullRow_in_step reached holds
    have hnext : ZipAll.next (tallied pull)
        ⟨lanes.standing (fun _ => r) (List.finRange k), false⟩ (store, fun _ => r) =
          some ((lanes.rowAt r,
            ⟨lanes.standing calls' (List.finRange k), (lanes.rowAt r).isNone⟩),
            (store', calls')) := by
      simp [ZipAll.next, Run.map_apply, hrow]
    refine ⟨_, _, _, hnext, rfl, ?_⟩
    rcases reached.lt_or_eq with hlt | heq
    · obtain ⟨row, hfull, -⟩ := exists_rowAt hlt
      obtain rfl : calls' = fun _ => r + 1 :=
        funext fun i => (hcalls i).trans (if_pos fun earlier _ => lt_rows_iff.mp hlt earlier)
      rw [hfull]
      exact .going (Order.add_one_le_of_lt hlt) holds'
    · obtain ⟨j, first, hasked⟩ := exists_first_shortest heq.symm
      obtain rfl : calls' = finalCalls j r :=
        funext fun i => (hcalls i).trans (if_congr (hasked i) rfl rfl)
      rw [rowAt_eq_none heq.ge]
      exact .stopped r.lt_succ_self heq.symm first

/-- Any number of pulls, from the first on. -/
lemma pulls_in_step (lanes : Lanes pull k) (holds : lanes.Holds store fun _ => 0) (count : ℕ) :
    ∃ answers zip last, pulls (ZipAll.next (tallied pull)) count
        ⟨lanes.standing (fun _ => 0) (List.finRange k), false⟩ (store, fun _ => 0) =
          some ((answers, zip), last) ∧
      answers.length = count ∧ (∀ r answer, answers[r]? = some answer → answer = lanes.rowAt r) ∧
      lanes.InStep count zip last := by
  have start : lanes.InStep 0 ⟨lanes.standing (fun _ => 0) (List.finRange k), false⟩
      (store, fun _ => 0) := .going (Nat.cast_zero.trans_le zero_le) holds
  obtain ⟨answers, zip, last, hrun, hlength, hanswers, inStep⟩ :=
    pulls_of_step InStep.next start count
  simp only [Nat.zero_add] at hanswers inStep
  exact ⟨answers, zip, last, hrun, hlength, hanswers, inStep⟩

end Run

/-- What is known of a zip of all lanes after so many pulls: its answers, where
its traversals stand, and how often each has been pulled. -/
structure Zips (count : ℕ) (answers : List (Option (List α))) (traversals : List (Fin k × τ))
    (calls : Fin k → ℕ) : Prop where
  length_eq : answers.length = count
  row : ∀ r < count, (r : ℕ∞) < lanes.rows → ∃ row, answers[r]? = some (some row) ∧
    row.map some = (List.finRange k).map fun i => (lanes.elements i).get? r
  no_row : ∀ r < count, lanes.rows ≤ r → answers[r]? = some none
  in_step : (count : ℕ∞) ≤ lanes.rows → ∀ i, calls i = count
  stopped : ∀ n : ℕ, lanes.rows = n → n < count →
    ∃ j, lanes.IsFirstShortest j ∧ ∀ i, calls i = if i ≤ j then n + 1 else n
  standing_eq : traversals = lanes.standing calls (List.finRange k)

lemma zips_of_inStep {lanes : Lanes pull k} {count : ℕ} {answers : List (Option (List α))}
    {zip : ZipAll (Fin k × τ)} {last : ω × (Fin k → ℕ)} (length_eq : answers.length = count)
    (hanswers : ∀ r answer, answers[r]? = some answer → answer = lanes.rowAt r)
    (inStep : lanes.InStep count zip last) : lanes.Zips count answers zip.traversals last.2 := by
  have hanswer : ∀ r < count, answers[r]? = some (lanes.rowAt r) := by
    intro r hr
    have hget := List.getElem?_eq_getElem (hr.trans_eq length_eq.symm)
    rw [hget, hanswers r _ hget]
  refine ⟨length_eq, ?_, ?_, ?_, ?_, ?_⟩
  · intro r hr hlt
    obtain ⟨row, hrow, hmap⟩ := exists_rowAt hlt
    exact ⟨row, hrow ▸ hanswer r hr, hmap⟩
  · intro r hr hle
    exact rowAt_eq_none hle ▸ hanswer r hr
  · intro hle
    cases inStep with
    | going _ _ => exact fun _ => rfl
    | stopped before rows_eq _ =>
      rw [rows_eq, Nat.cast_le] at hle
      omega
  · intro n hn hlt
    cases inStep with
    | going reached _ =>
      rw [hn, Nat.cast_le] at reached
      omega
    | stopped before rows_eq first =>
      obtain rfl : n = _ := Nat.cast_inj.mp (hn.symm.trans rows_eq)
      exact ⟨_, first, fun _ => rfl⟩
  · cases inStep <;> rfl

end Lanes

/-- A zip of one or more lanes has a row for each place that all lanes have an
element for, and has then pulled each of them once a row. The call that finds
the end pulls the lanes up to the first shortest once more and leaves those
behind it. No later call pulls any. The zips of fixed width are the same, and a
zip of no lanes has no rows. -/
theorem zips_in_step {pull : Pull ω τ α} (lanes : Lanes pull (k + 1)) {store : ω}
    (holds : lanes.Holds store fun _ => 0) (count : ℕ) :
    let start := lanes.standing (fun _ => 0) (List.finRange (k + 1))
    (∃ answers zip store' calls,
      pulls (ZipAll.next (tallied pull)) count (.ofList start) (store, fun _ => 0) =
        some ((answers, zip), (store', calls)) ∧
      lanes.Zips count answers zip.traversals calls) ∧
    (∃ answers zip store' calls,
      pulls (Zip.next (tallied pull)) count (.ofList start false) (store, fun _ => 0) =
        some ((answers, zip), (store', calls)) ∧
      lanes.Zips count (answers.map (Option.map Vector.toList)) zip.toList calls) ∧
    ∀ store, pulls (ZipAll.next pull) count (.ofList []) store =
      some ((List.replicate count none, .ofList []), store) := by
  intro start
  obtain ⟨answers, zip, ⟨store', calls⟩, hrun, hlength, hanswers, inStep⟩ :=
    lanes.pulls_in_step holds count
  have zips := Lanes.zips_of_inStep hlength hanswers inStep
  have hstart : ZipAll.ofList start = ⟨start, false⟩ := by
    simp [ZipAll.ofList, start, Lanes.standing, List.finRange_succ]
  rw [hstart]
  refine ⟨⟨answers, zip, store', calls, hrun, zips⟩, ?_, fun store => pulls_idle rfl count⟩
  have hfixed := congrFun (Zip.pulls_eq (tallied pull) count (.ofList start false))
    (store, fun _ => 0)
  rw [Zip.toZipAll_ofList, hrun, Run.map_apply] at hfixed
  obtain ⟨⟨⟨answers', zip'⟩, last⟩, hrun', hsame⟩ := Option.map_eq_some_iff.mp hfixed
  cases hsame
  exact ⟨answers', zip', store', calls, hrun', zips⟩

/-- Three lanes, of which the second and the third end together, and the second
would go on. -/
theorem zips_in_step_of_three :
    let sources : Fin 3 → Script ℕ := fun i => .ofAnswers ([#[some 1, some 2, some 3],
      #[some 4, some 5, none, some 6], #[some 7, some 8]].get i) none
    let lanes : Lanes (fun script => return script.next : Pull Unit (Script ℕ) ℕ) 3 :=
      .ofStep Script.next sources
    lanes.Holds () (fun _ => 0) ∧ ∃ answers zip calls,
      pulls (ZipAll.next (tallied fun script => return script.next)) 4
          (.ofList (lanes.standing (fun _ => 0) (List.finRange 3))) ((), fun _ => 0) =
        some ((answers, zip), ((), calls)) ∧
      answers.length = 4 ∧ answers[1]? = some (some [2, 5, 8]) ∧ answers[2]? = some none := by
  intro sources lanes
  have holds : lanes.Holds () fun _ => 0 := trivial
  obtain ⟨⟨answers, zip, store', calls, hrun, zips⟩, -⟩ := zips_in_step lanes holds 4
  have inside : ((1 : ℕ) : ℕ∞) < lanes.rows := Lanes.lt_rows_iff.mpr (by decide)
  have outside : lanes.rows ≤ ((2 : ℕ) : ℕ∞) := not_lt.mp (mt Lanes.lt_rows_iff.mp (by decide))
  obtain ⟨row, hrow, hmap⟩ := zips.row 1 (by decide) inside
  have hvalues : row = [2, 5, 8] := by
    have hall : row.map some = [2, 5, 8].map some := hmap.trans (by decide)
    exact List.map_injective_iff.mpr (Option.some_injective ℕ) hall
  exact ⟨holds, answers, zip, calls, hrun, zips.length_eq, hvalues ▸ hrow,
    zips.no_row 2 (by decide) outside⟩

end Traversals
