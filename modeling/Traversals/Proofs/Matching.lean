import Traversals.Eager.Drain
import Traversals.Eager.Search
import Traversals.Proofs.Upstream

/-!
# Queries with a predicate

The queries that look for an element do what a filter does for its first
answer, so they stop at the element that decides them. The queries that drain
ask about every element once. The predicate may keep a state and use the store,
and so may the input; what counts are the elements it delivers up to its first
end and the verdicts on them, in the order in which they come about.
-/

namespace Traversals

open Stream' (Seq)

variable {ω τ π α β γ : Type}

namespace Eager

section Filter

variable (pull : Pull ω τ α) (test : π → α → Run ω (Bool × π)) (budget : ℕ) (predicate : π)
  (traversal : τ)

/-- The same questions with the answers turned around. -/
def negated : π → α → Run ω (Bool × π) := fun predicate x =>
  (fun answer => (!answer.1, answer.2)) <$> test predicate x

/-- A search is the first pull of a filter. -/
lemma firstMatching_eq : firstMatching pull test budget predicate traversal =
    Prod.fst <$> Filtered.next pull test budget ⟨traversal, predicate⟩ := by
  induction budget generalizing predicate traversal with
  | zero => rfl
  | succ budget ih =>
    simp only [firstMatching, Filtered.next, map_bind]
    refine bind_congr ?_
    rintro ⟨_ | x, traversal⟩
    · rfl
    · simp only [map_bind]
      refine bind_congr ?_
      rintro ⟨_ | _, predicate⟩
      · exact ih predicate traversal
      · rfl

lemma any_eq : any pull test budget predicate traversal =
    Option.isSome <$> firstMatching pull test budget predicate traversal := by
  induction budget generalizing predicate traversal with
  | zero => rfl
  | succ budget ih =>
    simp only [any, firstMatching, map_bind]
    refine bind_congr ?_
    rintro ⟨_ | x, traversal⟩
    · rfl
    · simp only [map_bind]
      refine bind_congr ?_
      rintro ⟨_ | _, predicate⟩
      · exact ih predicate traversal
      · rfl

/-- What fails the test is what a search by the negated test finds. -/
lemma all_eq : all pull test budget predicate traversal =
    Option.isNone <$> firstMatching pull (negated test) budget predicate traversal := by
  induction budget generalizing predicate traversal with
  | zero => rfl
  | succ budget ih =>
    simp only [all, firstMatching, negated, map_bind]
    refine bind_congr ?_
    rintro ⟨_ | x, traversal⟩
    · rfl
    · simp only [map_bind, bind_map_left]
      refine bind_congr ?_
      rintro ⟨_ | _, predicate⟩
      · rfl
      · exact ih predicate traversal

/-- A fold may be read off another fold step by step. -/
lemma fold_map (step : β → α → Run ω β) (other : γ → α → Run ω γ) (f : β → γ)
    (reads : ∀ acc x, other (f acc) x = f <$> step acc x) (acc : β) :
    fold pull other budget (f acc) traversal = f <$> fold pull step budget acc traversal := by
  induction budget generalizing acc traversal with
  | zero => rfl
  | succ budget ih =>
    simp only [fold, map_bind]
    refine bind_congr ?_
    rintro ⟨_ | x, traversal⟩
    · rfl
    · simp only [reads, map_bind, bind_map_left]
      exact bind_congr fun acc => ih traversal acc

/-- What a fold does depends on the first answer, not on who gives it. -/
lemma fold_eq_of_pull_eq {pull : Pull ω τ α} {step : γ → α → Run ω γ} {budget : ℕ} {acc : γ}
    {traversal traversal' : τ} {store store' : ω}
    (h : pull traversal store = pull traversal' store') :
    fold pull step budget acc traversal store = fold pull step budget acc traversal' store' := by
  cases budget with
  | zero => rfl
  | succ budget => simp only [fold, Run.bind_apply, h]

lemma last_eq : last pull budget traversal =
    List.getLast? <$> materialize pull budget traversal := by
  have reads := fold_map pull budget traversal
    (fun (elements : Array α) x => (return elements.push x : Run ω (Array α)))
    (fun _ x => return some x) Array.back? (fun _ _ => by simp) #[]
  simp only [materialize, bind_pure_comp, Functor.map_map, Array.getLast?_toList]
  exact reads

/-- The last match is the last element of the drained filter. -/
lemma lastMatching_eq : lastMatching pull test budget predicate traversal =
    List.getLast? <$>
      materialize (Filtered.next pull test budget) budget ⟨traversal, predicate⟩ :=
  last_eq _ _ _

end Filter

section Judge

variable (pull : Pull ω τ α) (test : π → α → Run ω (Bool × π)) (budget : ℕ)

/-- A pull with the test of what it is answered by. -/
def judge : Pull ω (Filtered τ π) (α × Bool) := fun stage => do
  let (element, input) ← pull stage.input
  match element with
  | none => return (none, { stage with input })
  | some x =>
      let (accepted, predicate) ← test stage.predicate x
      return (some (x, accepted), { input, predicate })

lemma next_eq_judge (stage : Filtered τ π) : Filtered.next pull test (budget + 1) stage = (do
    let (judged, stage) ← judge pull test stage
    match judged with
    | none => return (none, stage)
    | some (x, true) => return (some x, stage)
    | some (_, false) => Filtered.next pull test budget stage) := by
  simp only [Filtered.next, judge, bind_assoc]
  refine bind_congr ?_
  rintro ⟨_ | x, input⟩
  · simp
  · simp only [bind_assoc]
    refine bind_congr ?_
    rintro ⟨_ | _, predicate⟩
    · simp
    · simp

lemma judge_none {stage stage' : Filtered τ π} {store store' : ω}
    (h : judge pull test stage store = some ((none, stage'), store')) :
    pull stage.input store = some ((none, stage'.input), store') := by
  obtain ⟨⟨_ | x, input⟩, store₁, hpull, h⟩ := Run.bind_eq_some_iff.mp h
  · cases h
    exact hpull
  · obtain ⟨answer, store₂, -, h⟩ := Run.bind_eq_some_iff.mp h
    cases h

lemma judge_some {stage stage' : Filtered τ π} {store store' : ω} {x : α} {verdict : Bool}
    (h : judge pull test stage store = some ((some (x, verdict), stage'), store')) :
    ∃ between, pull stage.input store = some ((some x, stage'.input), between) ∧
      test stage.predicate x between = some ((verdict, stage'.predicate), store') := by
  obtain ⟨⟨_ | y, input⟩, store₁, hpull, h⟩ := Run.bind_eq_some_iff.mp h
  · cases h
  · obtain ⟨answer, store₂, htest, h⟩ := Run.bind_eq_some_iff.mp h
    cases h
    exact ⟨store₁, hpull, htest⟩

lemma judge_isSome (pulls : ∀ traversal store, (pull traversal store).isSome)
    (tests : ∀ predicate x store, (test predicate x store).isSome) (stage : Filtered τ π)
    (store : ω) : (judge pull test stage store).isSome := by
  obtain ⟨⟨⟨_ | x, input⟩, store₁⟩, hpull⟩ := Option.isSome_iff_exists.mp (pulls stage.input store)
  · simp [judge, Run.bind_apply, hpull]
  · obtain ⟨answer, htest⟩ := Option.isSome_iff_exists.mp (tests stage.predicate x store₁)
    simp [judge, Run.bind_apply, Run.map_apply, hpull, htest]

lemma judge_negated (stage : Filtered τ π) : judge pull (negated test) stage =
    (fun judged => (judged.1.map fun x => (x.1, !x.2), judged.2)) <$> judge pull test stage := by
  simp only [judge, negated, map_bind]
  refine bind_congr ?_
  rintro ⟨_ | x, input⟩
  · simp
  · simp only [bind_map_left, map_bind]
    exact bind_congr fun answer => by simp

/-- One step of a partition. -/
def sortOut : π × Array α × Array α → α → Run ω (π × Array α × Array α) :=
  fun (predicate, passed, failed) x => do
    let (accepted, predicate) ← test predicate x
    if accepted then return (predicate, passed.push x, failed)
    else return (predicate, passed, failed.push x)

lemma partition_eq (predicate : π) (traversal : τ) :
    partition pull test budget predicate traversal =
      (fun result => (result.2.1.toList, result.2.2.toList)) <$>
        fold pull (sortOut test) budget (predicate, #[], #[]) traversal := by
  simp only [partition, map_eq_pure_bind]
  rfl

end Judge

end Eager

/-- A call that a query makes, with the answer. -/
inductive Act (α : Type) where
  | pulled (answer : Option α)
  | tested (x : α) (passed : Bool)

/-- A pull that is noted beside the store. -/
def notedPull (pull : Pull ω τ α) : Pull (ω × List (Act α)) τ α := fun traversal (store, acts) =>
  (pull traversal store).map fun (result, store) => (result, (store, acts ++ [.pulled result.1]))

/-- A test that is noted beside the store. -/
def notedTest (test : π → α → Run ω (Bool × π)) : π → α → Run (ω × List (Act α)) (Bool × π) :=
  fun predicate x (store, acts) => (test predicate x store).map fun (result, store) =>
    (result, (store, acts ++ [.tested x result.1]))

/-- A place is looked at by one pull, and by one test if there is an element. -/
def Act.look : Option (α × Bool) → List (Act α)
  | none => [.pulled none]
  | some (x, passed) => [.pulled (some x), .tested x passed]

lemma judge_noted {pull : Pull ω τ α} {test : π → α → Run ω (Bool × π)} {stage : Filtered τ π}
    {store : ω} {acts : List (Act α)} :
    Eager.judge (notedPull pull) (notedTest test) stage (store, acts) =
      (Eager.judge pull test stage store).map fun (result, store) =>
        (result, (store, acts ++ Act.look result.1)) := by
  simp only [Eager.judge, Run.bind_apply, notedPull]
  rcases pull stage.input store with _ | ⟨⟨_ | x, input⟩, store₁⟩
  · rfl
  · rfl
  · simp only [Option.map_some, Option.bind_some, Run.bind_apply, notedTest]
    rcases test stage.predicate x store₁ with _ | ⟨⟨passed, predicate⟩, store₂⟩
    · rfl
    · simp [Act.look]

/-- The elements with a given verdict on them. -/
def chosen (verdict : Bool) (xs : List (α × Bool)) : List α :=
  (xs.filter (·.2 == verdict)).map Prod.fst

section Chosen

variable {verdict : Bool} {x : α} {xs : List (α × Bool)}

@[simp] lemma chosen_nil : chosen verdict ([] : List (α × Bool)) = [] := rfl

@[simp] lemma chosen_cons {passed : Bool} : chosen verdict ((x, passed) :: xs) =
    if passed = verdict then x :: chosen verdict xs else chosen verdict xs := by
  by_cases h : passed = verdict <;> simp [chosen, h]

lemma chosen_sublist : (chosen verdict xs).Sublist (xs.map Prod.fst) :=
  List.filter_sublist.map _

lemma chosen_perm : (chosen true xs ++ chosen false xs).Perm (xs.map Prod.fst) := by
  have halves : (xs.filter (·.2 == true) ++ xs.filter fun x => !(x.2 == true)).Perm xs :=
    List.filter_append_perm _ _
  have rest : xs.filter (·.2 == false) = xs.filter fun x => !(x.2 == true) :=
    List.filter_congr fun x _ => by cases x.2 <;> rfl
  rw [chosen, chosen, rest, ← List.map_append]
  exact halves.map _

end Chosen

namespace History

variable {pull : Pull ω τ α} {test : π → α → Run ω (Bool × π)}
  (history : History (Eager.judge pull test)) {n m gap budget : ℕ} {x : α} {verdict : Bool}
  {xs : List (α × Bool)}

section Filter

lemma next_accepted (hx : history.answer n = some (x, true)) :
    Filtered.next pull test (budget + 1) (history.state n).1 (history.state n).2 =
      some ((some x, (history.state (n + 1)).1), (history.state (n + 1)).2) := by
  simp [Eager.next_eq_judge, Run.bind_apply, history.pulled, hx]

lemma next_rejected (hx : history.answer n = some (x, false)) :
    Filtered.next pull test (budget + 1) (history.state n).1 (history.state n).2 =
      Filtered.next pull test budget (history.state (n + 1)).1 (history.state (n + 1)).2 := by
  simp [Eager.next_eq_judge, Run.bind_apply, history.pulled, hx]

lemma next_ended (hx : history.answer n = none) :
    Filtered.next pull test (budget + 1) (history.state n).1 (history.state n).2 =
      some ((none, (history.state (n + 1)).1), (history.state (n + 1)).2) := by
  simp [Eager.next_eq_judge, Run.bind_apply, history.pulled, hx]

/-- What is rejected is passed over, at the cost of the budget. -/
lemma next_passes (budget : ℕ)
    (rejected : ∀ m, n ≤ m → m < n + gap → ∃ x, history.answer m = some (x, false)) :
    Filtered.next pull test (gap + budget) (history.state n).1 (history.state n).2 =
      Filtered.next pull test budget (history.state (n + gap)).1 (history.state (n + gap)).2 := by
  induction gap generalizing n with
  | zero => rw [Nat.zero_add, Nat.add_zero]
  | succ gap ih =>
    obtain ⟨x, hx⟩ := rejected n le_rfl (by omega)
    have later := ih (n := n + 1) fun m hle hlt => rejected m (by omega) (by omega)
    rw [Nat.add_right_comm gap, history.next_rejected hx, later, Nat.add_right_comm n 1,
      Nat.add_assoc]

end Filter

section Search

/-- The places that decide a search for a verdict: there is no element, or one
with this verdict. -/
def decisive (verdict : Bool) : Set ℕ :=
  {n | ∀ x passed, history.elements.get? n = some (x, passed) → passed = verdict}

variable {history}

lemma not_before (undecided : ∀ m < n, m ∉ history.decisive verdict) :
    ∀ m < n, ∃ x, history.elements.get? m = some (x, !verdict) := by
  intro m hm
  have hopen := undecided m hm
  simp only [decisive, Set.mem_ofPred_eq, not_forall] at hopen
  obtain ⟨x, passed, hx, hpassed⟩ := hopen
  exact ⟨x, by rw [hx, Bool.eq_not_of_ne hpassed]⟩

lemma reached_of_undecided (undecided : ∀ m < n, m ∉ history.decisive verdict) :
    history.Reached n := by
  intro m hm
  obtain ⟨x, hx⟩ := not_before undecided m hm
  exact hx ▸ rfl

/-- Up to a place that no decisive place precedes, everything is passed over. -/
lemma next_undecided (budget : ℕ) (undecided : ∀ m < n, m ∉ history.decisive true) :
    Filtered.next pull test (n + budget) (history.state 0).1 (history.state 0).2 =
      Filtered.next pull test budget (history.state n).1 (history.state n).2 := by
  have rejected : ∀ m, 0 ≤ m → m < 0 + n → ∃ x, history.answer m = some (x, false) := by
    intro m _ hm
    rw [Nat.zero_add] at hm
    obtain ⟨x, hx⟩ := not_before undecided m hm
    have reached := reached_of_undecided fun k hk => undecided k (hk.trans hm)
    exact ⟨x, reached.answer_eq.trans hx⟩
  have passes := history.next_passes budget rejected
  rwa [Nat.zero_add] at passes

lemma next_decided (decided : IsLeast (history.decisive true) n) (hbudget : n < budget) :
    Filtered.next pull test budget (history.state 0).1 (history.state 0).2 =
      some (((history.elements.get? n).map Prod.fst, (history.state (n + 1)).1),
        (history.state (n + 1)).2) := by
  have undecided : ∀ m < n, m ∉ history.decisive true :=
    fun m hm hmem => hm.not_ge (decided.2 hmem)
  have hanswer := (reached_of_undecided undecided).answer_eq
  obtain ⟨budget, rfl⟩ := Nat.exists_eq_add_of_lt hbudget
  rw [Nat.add_assoc, next_undecided _ undecided]
  rcases hx : history.elements.get? n with _ | ⟨x, passed⟩
  · exact history.next_ended (hanswer.trans hx)
  · obtain rfl := decided.1 x passed hx
    exact history.next_accepted (hanswer.trans hx)

end Search

/-- The same questions with the answers turned around. -/
def negating : History (Eager.judge pull (Eager.negated test)) where
  state := history.state
  answer n := (history.answer n).map fun x => (x.1, !x.2)
  pulled n := by simp [Eager.judge_negated, Run.map_apply, history.pulled]

lemma negating_elements : history.negating.elements.get? n =
    (history.elements.get? n).map fun x => (x.1, !x.2) := by
  simp only [elements_get?, negating, Option.isSome_map]
  split
  · rfl
  · rfl

lemma negating_decisive : history.negating.decisive verdict = history.decisive (!verdict) := by
  ext n
  simp only [decisive, Set.mem_ofPred_eq, negating_elements]
  rcases history.elements.get? n with _ | ⟨x, passed⟩
  · simp
  · cases passed <;> cases verdict <;> simp

/-- The calls that the first `n` places take. -/
def acts (n : ℕ) : List (Act α) :=
  (List.range n).flatMap fun m => Act.look (history.answer m)

/-- The same questions noted beside the store. -/
def noting : History (Eager.judge (notedPull pull) (notedTest test)) where
  state n := ((history.state n).1, ((history.state n).2, history.acts n))
  answer := history.answer
  pulled n := by simp [judge_noted, history.pulled n, acts, List.range_succ]

section Drain

/-- From a place on there are these elements and then an end. -/
def Delivers (n : ℕ) (xs : List (α × Bool)) : Prop :=
  ∀ i ≤ xs.length, history.answer (n + i) = xs[i]?

variable {history}

lemma delivers_of_elements (h : history.elements = Seq.ofList xs) : history.Delivers 0 xs := by
  intro i hi
  have reached : history.Reached i := by
    intro m hm
    rw [h, Seq.ofList_get?, List.getElem?_eq_getElem (by omega)]
    rfl
  rw [Nat.zero_add, reached.answer_eq, h, Seq.ofList_get?]

lemma Delivers.ended (delivers : history.Delivers n []) : history.answer n = none :=
  delivers 0 le_rfl

lemma Delivers.head {judged : α × Bool} (delivers : history.Delivers n (judged :: xs)) :
    history.answer n = some judged :=
  delivers 0 (Nat.zero_le _)

lemma Delivers.tail {judged : α × Bool} (delivers : history.Delivers n (judged :: xs)) :
    history.Delivers (n + 1) xs := by
  intro i hi
  have later := delivers (i + 1) (Nat.succ_le_succ hi)
  rwa [← Nat.add_assoc, Nat.add_right_comm] at later

/-- A filter that meets an end on its way needs no more than that. -/
lemma Delivers.next_eq (delivers : history.Delivers n xs) (hbudget : xs.length < budget)
    (hlarger : xs.length < m) :
    Filtered.next pull test budget (history.state n).1 (history.state n).2 =
      Filtered.next pull test m (history.state n).1 (history.state n).2 := by
  induction xs generalizing n budget m with
  | nil =>
    obtain ⟨budget, rfl⟩ := Nat.exists_eq_succ_of_ne_zero (Nat.ne_zero_of_lt hbudget)
    obtain ⟨m, rfl⟩ := Nat.exists_eq_succ_of_ne_zero (Nat.ne_zero_of_lt hlarger)
    rw [history.next_ended delivers.ended, history.next_ended delivers.ended]
  | cons judged xs ih =>
    obtain ⟨budget, rfl⟩ := Nat.exists_eq_succ_of_ne_zero (Nat.ne_zero_of_lt hbudget)
    obtain ⟨m, rfl⟩ := Nat.exists_eq_succ_of_ne_zero (Nat.ne_zero_of_lt hlarger)
    obtain ⟨x, _ | _⟩ := judged
    · rw [history.next_rejected delivers.head, history.next_rejected delivers.head]
      exact ih delivers.tail (Nat.lt_of_succ_lt_succ hbudget) (Nat.lt_of_succ_lt_succ hlarger)
    · rw [history.next_accepted delivers.head, history.next_accepted delivers.head]

/-- The filter passes on what is accepted. -/
lemma Delivers.fold_next {step : γ → α → Run ω γ} {place : γ → α → γ}
    (placed : ∀ acc x store, step acc x store = some (place acc x, store))
    (delivers : history.Delivers n xs) (hbudget : xs.length < budget) (hrounds : xs.length < m)
    (acc : γ) :
    Eager.fold (Filtered.next pull test budget) step m acc (history.state n).1
        (history.state n).2 =
      some ((chosen true xs).foldl place acc, (history.state (n + xs.length + 1)).2) := by
  induction xs generalizing n m acc with
  | nil =>
    obtain ⟨budget, rfl⟩ := Nat.exists_eq_succ_of_ne_zero (Nat.ne_zero_of_lt hbudget)
    obtain ⟨m, rfl⟩ := Nat.exists_eq_succ_of_ne_zero (Nat.ne_zero_of_lt hrounds)
    simp [Eager.fold, Run.bind_apply, history.next_ended delivers.ended]
  | cons judged xs ih =>
    obtain ⟨m, rfl⟩ := Nat.exists_eq_succ_of_ne_zero (Nat.ne_zero_of_lt hrounds)
    have hshorter : xs.length < budget := (Nat.lt_succ_self _).trans hbudget
    have hlater : n + 1 + xs.length + 1 = n + (xs.length + 1) + 1 := by omega
    obtain ⟨x, _ | _⟩ := judged
    · have hnext : Filtered.next pull test budget (history.state n).1 (history.state n).2 =
          Filtered.next pull test budget (history.state (n + 1)).1 (history.state (n + 1)).2 := by
        obtain ⟨budget, rfl⟩ := Nat.exists_eq_succ_of_ne_zero (Nat.ne_zero_of_lt hbudget)
        rw [history.next_rejected delivers.head]
        exact delivers.tail.next_eq (Nat.lt_of_succ_lt_succ hbudget) hshorter
      rw [Eager.fold_eq_of_pull_eq hnext, ih delivers.tail hshorter
        ((Nat.lt_succ_self _).trans hrounds), hlater]
      simp
    · obtain ⟨budget, rfl⟩ := Nat.exists_eq_succ_of_ne_zero (Nat.ne_zero_of_lt hbudget)
      have later := ih delivers.tail hshorter (Nat.lt_of_succ_lt_succ hrounds) (place acc x)
      rw [hlater] at later
      simp [Eager.fold, Run.bind_apply, history.next_accepted delivers.head, placed, later]

/-- The drained filter has what is accepted. -/
lemma Delivers.materialize_eq (delivers : history.Delivers 0 xs) (hbudget : xs.length < budget) :
    Eager.materialize (Filtered.next pull test budget) budget (history.state 0).1
        (history.state 0).2 =
      some (chosen true xs, (history.state (xs.length + 1)).2) := by
  have placed : ∀ (elements : Array α) x (store : ω),
      (return elements.push x : Run ω (Array α)) store = some (elements.push x, store) :=
    fun _ _ _ => rfl
  have folds := delivers.fold_next placed hbudget hbudget #[]
  rw [Nat.zero_add] at folds
  simp [Eager.materialize, Run.map_apply, folds]

/-- A partition sorts by the verdicts. -/
lemma Delivers.fold_sortOut (delivers : history.Delivers n xs) (hbudget : xs.length < budget)
    (passed failed : Array α) :
    ∃ predicate, Eager.fold pull (Eager.sortOut test) budget
        ((history.state n).1.predicate, passed, failed) (history.state n).1.input
        (history.state n).2 =
      some ((predicate, passed ++ (chosen true xs).toArray, failed ++ (chosen false xs).toArray),
        (history.state (n + xs.length + 1)).2) := by
  induction xs generalizing n budget passed failed with
  | nil =>
    obtain ⟨budget, rfl⟩ := Nat.exists_eq_succ_of_ne_zero (Nat.ne_zero_of_lt hbudget)
    have hpull := Eager.judge_none _ _ (delivers.ended ▸ history.pulled n)
    exact ⟨_, by simp [Eager.fold, Run.bind_apply, hpull]; rfl⟩
  | cons judged xs ih =>
    obtain ⟨budget, rfl⟩ := Nat.exists_eq_succ_of_ne_zero (Nat.ne_zero_of_lt hbudget)
    have hshorter : xs.length < budget := Nat.lt_of_succ_lt_succ hbudget
    have hlater : n + 1 + xs.length + 1 = n + (xs.length + 1) + 1 := by omega
    obtain ⟨x, verdict⟩ := judged
    obtain ⟨between, hpull, htest⟩ := Eager.judge_some _ _ (delivers.head ▸ history.pulled n)
    cases verdict with
    | true =>
      obtain ⟨predicate, later⟩ := ih delivers.tail hshorter (passed.push x) failed
      refine ⟨predicate, ?_⟩
      rw [hlater] at later
      simp [Eager.fold, Eager.sortOut, Run.bind_apply, hpull, htest, later]
    | false =>
      obtain ⟨predicate, later⟩ := ih delivers.tail hshorter passed (failed.push x)
      refine ⟨predicate, ?_⟩
      rw [hlater] at later
      simp [Eager.fold, Eager.sortOut, Run.bind_apply, hpull, htest, later]

/-- Every element is tested once, in order, and nothing else is. -/
lemma Delivers.acts_eq (delivers : history.Delivers 0 xs) : history.acts (xs.length + 1) =
    (xs.flatMap fun judged => Act.look (some judged)) ++ [.pulled none] := by
  have answers : (List.range (xs.length + 1)).map history.answer = xs.map some ++ [none] := by
    refine List.ext_getElem (by simp) fun i hi _ => ?_
    rw [List.length_map, List.length_range] at hi
    have hanswer := delivers i (Nat.le_of_lt_succ hi)
    rw [Nat.zero_add] at hanswer
    rcases Nat.lt_or_eq_of_le (Nat.le_of_lt_succ hi) with hlt | rfl
    · simp [hanswer, List.getElem_append_left, hlt]
    · simp [hanswer]
  rw [acts, ← List.flatMap_map, answers, List.flatMap_append, List.flatMap_map]
  rfl

end Drain

section Ask

/-- A query from the start, with its calls noted. -/
def ask (query : π → τ → Run (ω × List (Act α)) β) : Option (β × (ω × List (Act α))) :=
  query (history.state 0).1.predicate (history.state 0).1.input ((history.state 0).2, [])

/-- What looking at the first `n` places leaves behind. -/
def after (n : ℕ) : ω × List (Act α) := ((history.state n).2, history.acts n)

variable {history}

lemma ask_firstMatching (decided : IsLeast (history.decisive true) n) (hbudget : n < budget) :
    history.ask (Eager.firstMatching (notedPull pull) (notedTest test) budget) =
      some ((history.elements.get? n).map Prod.fst, history.after (n + 1)) := by
  have noted : IsLeast (history.noting.decisive true) n := decided
  have hnext := next_decided noted hbudget
  rw [ask, Eager.firstMatching_eq, Run.map_apply]
  exact congrArg (Option.map _) hnext

lemma ask_firstMatching_none (undecided : ∀ n < budget, n ∉ history.decisive true) :
    history.ask (Eager.firstMatching (notedPull pull) (notedTest test) budget) = none := by
  have noted : ∀ n < budget, n ∉ history.noting.decisive true := undecided
  have hnext := next_undecided 0 noted
  rw [ask, Eager.firstMatching_eq, Run.map_apply]
  exact congrArg (Option.map _) hnext

lemma ask_all (decided : IsLeast (history.decisive false) n) (hbudget : n < budget) :
    history.ask (Eager.all (notedPull pull) (notedTest test) budget) =
      some ((history.elements.get? n).isNone, history.after (n + 1)) := by
  have decided' : IsLeast (history.noting.negating.decisive true) n := by
    rw [negating_decisive]
    exact decided
  have hnext := next_decided decided' hbudget
  rw [negating_elements, Option.map_map] at hnext
  rw [ask, Eager.all_eq, Eager.firstMatching_eq, Functor.map_map, Run.map_apply]
  refine (congrArg (Option.map _) hnext).trans ?_
  simp only [Option.map_some, Option.isNone_map]
  rfl

lemma ask_partition (delivers : history.Delivers 0 xs) (hbudget : xs.length < budget) :
    history.ask (Eager.partition (notedPull pull) (notedTest test) budget) =
      some ((chosen true xs, chosen false xs), history.after (xs.length + 1)) := by
  have noted : history.noting.Delivers 0 xs := delivers
  obtain ⟨predicate, folds⟩ := noted.fold_sortOut hbudget #[] #[]
  rw [Nat.zero_add] at folds
  rw [ask, Eager.partition_eq, Run.map_apply]
  refine (congrArg (Option.map _) folds).trans ?_
  simp only [Option.map_some, Array.empty_append]
  rfl

lemma ask_lastMatching (delivers : history.Delivers 0 xs) (hbudget : xs.length < budget) :
    history.ask (Eager.lastMatching (notedPull pull) (notedTest test) budget) =
      some ((chosen true xs).getLast?, history.after (xs.length + 1)) := by
  have noted : history.noting.Delivers 0 xs := delivers
  rw [ask, Eager.lastMatching_eq, Run.map_apply]
  exact congrArg (Option.map _) (noted.materialize_eq hbudget)

end Ask

end History

/-- A search is the first answer of the filter, as a run and hence call by call,
for any pull and any test, and the other queries are read off it or off the
drained filter. Along a history of elements with their verdicts a search looks
at the places up to the first decisive one and leaves the rest alone, and where
none is decisive it finds nothing within any budget. Where the elements end,
what drains looks at each of them once and at the end. -/
theorem matching_queries_agree (pull : Pull ω τ α) (test : π → α → Run ω (Bool × π)) :
    (∀ budget predicate traversal,
      Eager.firstMatching pull test budget predicate traversal =
        Prod.fst <$> Filtered.next pull test budget ⟨traversal, predicate⟩ ∧
      Eager.any pull test budget predicate traversal =
        Option.isSome <$> Eager.firstMatching pull test budget predicate traversal ∧
      Eager.all pull test budget predicate traversal = Option.isNone <$>
        Eager.firstMatching pull (Eager.negated test) budget predicate traversal ∧
      Eager.lastMatching pull test budget predicate traversal = List.getLast? <$>
        Eager.materialize (Filtered.next pull test budget) budget ⟨traversal, predicate⟩) ∧
    ((∀ traversal store, (pull traversal store).isSome) →
      (∀ predicate x store, (test predicate x store).isSome) →
      ∀ start, ∃ history : History (Eager.judge pull test), history.state 0 = start) ∧
    ∀ (history : History (Eager.judge pull test)) (budget : ℕ),
      let asked : Pull (ω × List (Act α)) τ α := notedPull pull
      let tested := notedTest test
      (∀ n, IsLeast (history.decisive true) n → n < budget →
        history.ask (Eager.firstMatching asked tested budget) =
          some ((history.elements.get? n).map Prod.fst, history.after (n + 1))) ∧
      ((∀ n < budget, n ∉ history.decisive true) →
        history.ask (Eager.firstMatching asked tested budget) = none) ∧
      (∀ n, IsLeast (history.decisive false) n → n < budget →
        history.ask (Eager.all asked tested budget) =
          some ((history.elements.get? n).isNone, history.after (n + 1))) ∧
      ∀ xs, history.elements = Seq.ofList xs → xs.length < budget →
        history.ask (Eager.partition asked tested budget) =
          some ((chosen true xs, chosen false xs), history.after (xs.length + 1)) ∧
        history.ask (Eager.lastMatching asked tested budget) =
          some ((chosen true xs).getLast?, history.after (xs.length + 1)) ∧
        history.acts (xs.length + 1) =
          (xs.flatMap fun judged => Act.look (some judged)) ++ [.pulled none] ∧
        (chosen true xs).Sublist (xs.map Prod.fst) ∧ (chosen false xs).Sublist (xs.map Prod.fst) ∧
        (chosen true xs ++ chosen false xs).Perm (xs.map Prod.fst) := by
  refine ⟨?_, ?_, ?_⟩
  · intro budget predicate traversal
    exact ⟨Eager.firstMatching_eq _ _ _ _ _, Eager.any_eq _ _ _ _ _, Eager.all_eq _ _ _ _ _,
      Eager.lastMatching_eq _ _ _ _ _⟩
  · intro pulls tests start
    exact exists_history_of_returns (Eager.judge_isSome _ _ pulls tests) start.1 start.2
  · intro history budget asked tested
    refine ⟨fun n => History.ask_firstMatching, History.ask_firstMatching_none,
      fun n => History.ask_all, ?_⟩
    intro xs hfinite hbudget
    have delivers := History.delivers_of_elements hfinite
    exact ⟨History.ask_partition delivers hbudget, History.ask_lastMatching delivers hbudget,
      delivers.acts_eq, chosen_sublist, chosen_sublist, chosen_perm⟩

end Traversals
