import Traversals.Proofs.Hint.Counting
import Traversals.Stage.Comprehension
import Traversals.Stage.Elementwise
import Traversals.Stage.SubSequence
import Traversals.Zip.All
import Traversals.Zip.Enumerate

/-!
# Counts through stages

A stage that answers each element by one answer keeps both bounds, a stage that
drops elements keeps the upper one, and a sub-sequence divides both. A zip has
as many rows as its shortest traversal has elements.
-/

namespace Traversals

variable {ω τ υ φ π ε α β : Type} {pull : Pull ω τ α} {n : ℕ}

/-- A stage that uses up an element for each answer has no more answers. -/
lemma AtMost.lift {outer : Pull ω υ β} {input : υ → τ}
    (uses : ∀ {stage store y stage' last m}, outer stage store = some ((some y, stage'), last) →
      AtMost pull m (input stage) → ∃ left, left < m ∧ AtMost pull left (input stage'))
    {stage : υ} (atMost : AtMost pull n (input stage)) : AtMost outer n stage := by
  induction n generalizing stage with
  | zero =>
    intro store y stage' last hpull
    obtain ⟨left, hlt, -⟩ := uses hpull atMost
    exact left.not_lt_zero hlt
  | succ n ih =>
    intro store y stage' last hpull
    obtain ⟨left, hlt, atMost'⟩ := uses hpull atMost
    exact ih (atMost'.mono (Nat.le_of_lt_succ hlt))

section Elementwise

theorem AtLeast.mapped {apply : φ → α → Run ω (β × φ)}
    (total : ∀ function x store, ∃ result store', apply function x store = some (result, store'))
    {stage : Mapped τ φ} (atLeast : AtLeast pull n stage.input) :
    AtLeast (Mapped.next pull apply) n stage := by
  induction n generalizing stage with
  | zero => trivial
  | succ n ih =>
    intro store
    obtain ⟨x, input, store₁, hpull, atLeast'⟩ := atLeast store
    obtain ⟨⟨image, function⟩, store₂, happly⟩ := total stage.function x store₁
    refine ⟨image, ⟨input, function⟩, store₂, ?_, ih atLeast'⟩
    simp [Mapped.next, Run.bind_apply, Run.map_apply, hpull, happly]

theorem AtMost.mapped {apply : φ → α → Run ω (β × φ)} {stage : Mapped τ φ}
    (atMost : AtMost pull n stage.input) : AtMost (Mapped.next pull apply) n stage := by
  refine AtMost.lift (fun {stage store y stage' last m} hnext atMost => ?_) atMost
  obtain ⟨⟨element, input⟩, store₁, hpull, hrest⟩ := Run.bind_eq_some_iff.mp hnext
  cases element with
  | none => cases hrest
  | some x =>
    obtain ⟨⟨image, function⟩, store₂, -, hresult⟩ := Run.bind_eq_some_iff.mp hrest
    cases hresult
    obtain ⟨left, rfl, atMost'⟩ := atMost.step hpull
    exact ⟨left, left.lt_succ_self, atMost'⟩

theorem AtLeast.tapped {visit : ε → α → Run ω ε}
    (total : ∀ effect x store, ∃ effect' store', visit effect x store = some (effect', store'))
    {stage : Tapped τ ε} (atLeast : AtLeast pull n stage.input) :
    AtLeast (Tapped.next pull visit) n stage := by
  induction n generalizing stage with
  | zero => trivial
  | succ n ih =>
    intro store
    obtain ⟨x, input, store₁, hpull, atLeast'⟩ := atLeast store
    obtain ⟨effect, store₂, hvisit⟩ := total stage.effect x store₁
    refine ⟨x, ⟨input, effect⟩, store₂, ?_, ih atLeast'⟩
    simp [Tapped.next, Run.bind_apply, Run.map_apply, hpull, hvisit]

theorem AtMost.tapped {visit : ε → α → Run ω ε} {stage : Tapped τ ε}
    (atMost : AtMost pull n stage.input) : AtMost (Tapped.next pull visit) n stage := by
  refine AtMost.lift (fun {stage store y stage' last m} hnext atMost => ?_) atMost
  obtain ⟨⟨element, input⟩, store₁, hpull, hrest⟩ := Run.bind_eq_some_iff.mp hnext
  cases element with
  | none => cases hrest
  | some x =>
    obtain ⟨effect, store₂, -, hresult⟩ := Run.bind_eq_some_iff.mp hrest
    cases hresult
    obtain ⟨left, rfl, atMost'⟩ := atMost.step hpull
    exact ⟨left, left.lt_succ_self, atMost'⟩

/-- However many elements fail the test, the one that passes is used up too. -/
theorem AtMost.filtered {test : π → α → Run ω (Bool × π)} {limit : ℕ} {stage : Filtered τ π}
    (atMost : AtMost pull n stage.input) : AtMost (Filtered.next pull test limit) n stage := by
  refine AtMost.lift (fun {stage store y stage' last m} hnext atMost => ?_) atMost
  induction limit generalizing stage store m with
  | zero => cases hnext
  | succ limit ih =>
    obtain ⟨⟨element, input⟩, store₁, hpull, hrest⟩ := Run.bind_eq_some_iff.mp hnext
    cases element with
    | none => cases hrest
    | some x =>
      obtain ⟨left, rfl, atMost'⟩ := atMost.step hpull
      obtain ⟨⟨accepted, predicate⟩, store₂, -, hrest⟩ := Run.bind_eq_some_iff.mp hrest
      cases accepted with
      | true =>
        cases hrest
        exact ⟨left, left.lt_succ_self, atMost'⟩
      | false =>
        obtain ⟨left', hlt, atMost''⟩ := ih hrest atMost'
        exact ⟨left', by omega, atMost''⟩

theorem AtMost.comprehension {ask : π → α → Run ω Bool} {apply : φ → α → Run ω (β × φ)}
    {limit : ℕ} {stage : Comprehension τ φ π} (atMost : AtMost pull n stage.input) :
    AtMost (Comprehension.next pull ask apply limit) n stage := by
  refine AtMost.lift (fun {stage store y stage' last m} hnext atMost => ?_) atMost
  induction limit generalizing stage store m with
  | zero => cases hnext
  | succ limit ih =>
    obtain ⟨⟨element, input⟩, store₁, hpull, hrest⟩ := Run.bind_eq_some_iff.mp hnext
    cases element with
    | none => cases hrest
    | some x =>
      obtain ⟨left, rfl, atMost'⟩ := atMost.step hpull
      obtain ⟨accepted, store₂, -, hrest⟩ := Run.bind_eq_some_iff.mp hrest
      cases accepted with
      | true =>
        obtain ⟨⟨image, mapper⟩, store₃, -, hresult⟩ := Run.bind_eq_some_iff.mp hrest
        cases hresult
        exact ⟨left, left.lt_succ_self, atMost'⟩
      | false =>
        obtain ⟨left', hlt, atMost''⟩ := ih hrest atMost'
        exact ⟨left', by omega, atMost''⟩

end Elementwise

section Position

/-- One step further, one quotient less. -/
lemma divideUp_sub {a b : ℕ} (ha : 0 < a) (hb : 0 < b) : divideUp a b = divideUp (a - b) b + 1 := by
  unfold divideUp
  by_cases h : b ≤ a
  · rw [show a + b - 1 = a - b + b - 1 + b by omega, Nat.add_div_right _ hb]
  · rw [show a - b = 0 by omega, Nat.zero_add, Nat.div_eq_of_lt (by omega : b - 1 < b)]
    exact Nat.div_eq_of_lt_le (by omega) (by omega)

namespace SubSequence

/-- The stage after an answer. -/
def answered (stage : SubSequence τ) (input : τ) : SubSequence τ :=
  { stage with input, gap := stage.stride - 1, remaining := stage.remaining.map (· - 1) }

/-- An answer takes one from what there is to be selected. -/
lemma capped_answered (stage : SubSequence τ) (input : τ) (hopen : stage.remaining ≠ some 0)
    (left : ℕ) :
    stage.capped (stage.selectable (left + (stage.gap + 1))) =
      (stage.answered input).capped ((stage.answered input).selectable left) + 1 := by
  have hselect : stage.selectable (left + (stage.gap + 1)) =
      (stage.answered input).selectable left + 1 := by
    have hpos := stage.stride_pos
    simp only [selectable, answered]
    rw [divideUp_sub (by omega) hpos]
    congr 2
    omega
  rw [hselect]
  unfold capped answered
  cases h : stage.remaining with
  | none => rfl
  | some r =>
    have hr : r ≠ 0 := fun hzero => hopen (by rw [h, hzero])
    simp only [Option.map_some]
    omega

/-- An answer is the element behind the gap. -/
lemma next_eq_some {stage stage' : SubSequence τ} {y : α} {store last : ω}
    (h : next pull stage store = some ((some y, stage'), last)) :
    stage.remaining ≠ some 0 ∧ ∃ input,
      nth pull stage.gap stage.input store = some ((some y, input), last) ∧
        stage' = stage.answered input := by
  by_cases hzero : stage.remaining = some 0
  · simp only [next, hzero, if_true] at h
    cases h
  · simp only [next, hzero, if_false] at h
    obtain ⟨⟨element, input⟩, store₁, hnth, hrest⟩ := Run.bind_eq_some_iff.mp h
    cases element with
    | none => cases hrest
    | some x =>
      cases hrest
      exact ⟨hzero, input, hnth, rfl⟩

end SubSequence

theorem AtLeast.subSequence {stage : SubSequence τ} {available : ℕ}
    (atLeast : AtLeast pull available stage.input) :
    AtLeast (SubSequence.next pull) (stage.capped (stage.selectable available)) stage := by
  generalize hcount : stage.capped (stage.selectable available) = count
  induction count generalizing stage available with
  | zero => trivial
  | succ count ih =>
    have hopen : stage.remaining ≠ some 0 := by
      intro h
      simp [SubSequence.capped, h] at hcount
    have hgap : stage.gap < available := by
      by_contra hle
      have hselect : stage.selectable available = 0 := by
        rw [SubSequence.selectable, Nat.sub_eq_zero_of_le (by omega), divideUp, Nat.zero_add]
        exact Nat.div_eq_of_lt (Nat.sub_lt stage.stride_pos Nat.one_pos)
      rw [hselect, SubSequence.capped] at hcount
      split at hcount <;> omega
    obtain ⟨left, rfl⟩ : ∃ left, available = left + (stage.gap + 1) :=
      ⟨available - (stage.gap + 1), by omega⟩
    intro store
    obtain ⟨x, input, store', hnth, atLeast'⟩ :=
      AtLeast.nth (by rwa [Nat.add_comm]) store
    rw [stage.capped_answered input hopen] at hcount
    refine ⟨x, stage.answered input, store', ?_, ih atLeast' (Nat.succ.inj hcount)⟩
    simp [SubSequence.next, hopen, Run.bind_apply, hnth, SubSequence.answered]

theorem AtMost.subSequence {stage : SubSequence τ} {available : ℕ}
    (atMost : AtMost pull available stage.input)
    (hcount : stage.capped (stage.selectable available) ≤ n) :
    AtMost (SubSequence.next pull) n stage := by
  induction n generalizing stage available with
  | zero =>
    intro store y stage' last hnext
    obtain ⟨hopen, input, hnth, -⟩ := SubSequence.next_eq_some hnext
    obtain ⟨left, rfl, -⟩ := atMost.nth hnth
    rw [stage.capped_answered input hopen] at hcount
    omega
  | succ n ih =>
    intro store y stage' last hnext
    obtain ⟨hopen, input, hnth, rfl⟩ := SubSequence.next_eq_some hnext
    obtain ⟨left, rfl, atMost'⟩ := atMost.nth hnth
    rw [stage.capped_answered input hopen] at hcount
    exact ih atMost' (by omega)

/-- The answers that may still be given are an upper bound by themselves. -/
theorem AtMost.remaining {stage : SubSequence τ} (h : stage.remaining = some n) :
    AtMost (SubSequence.next pull) n stage := by
  induction n generalizing stage with
  | zero =>
    intro store y stage' last hnext
    exact (SubSequence.next_eq_some hnext).1 h
  | succ n ih =>
    intro store y stage' last hnext
    obtain ⟨-, input, -, rfl⟩ := SubSequence.next_eq_some hnext
    exact ih (by simp [SubSequence.answered, h])

end Position

section Zip

theorem AtLeast.enumerate {stage : Enumerate τ} (running : stage.exhausted = false)
    (counter : n ≤ stage.counter.left) (atLeast : AtLeast pull n stage.input) :
    AtLeast (Enumerate.next pull) n stage := by
  induction n generalizing stage with
  | zero => trivial
  | succ n ih =>
    intro store
    obtain ⟨x, input, store', hpull, atLeast'⟩ := atLeast store
    obtain ⟨k, hk⟩ : ∃ k, stage.counter.left = k + 1 := ⟨stage.counter.left - 1, by omega⟩
    obtain ⟨index, counter', hnext, hleft⟩ := Integers.next_some hk
    refine ⟨⟨index, x⟩, { stage with counter := counter', input }, store', ?_,
      ih running (by simp only [hleft]; omega) atLeast'⟩
    simp [Enumerate.next, running, hnext, Run.bind_apply, hpull]

/-- An answer takes a number from the counter and an element from the input. -/
lemma Enumerate.next_eq_some {stage stage' : Enumerate τ} {y : Indexed α} {store last : ω}
    (h : Enumerate.next pull stage store = some ((some y, stage'), last)) :
    stage.exhausted = false ∧ stage.counter.left = stage'.counter.left + 1 ∧
      pull stage.input store = some ((some y.value, stage'.input), last) := by
  cases running : stage.exhausted with
  | true =>
    simp only [Enumerate.next, running, if_true] at h
    cases h
  | false =>
    cases hleft : stage.counter.left with
    | zero =>
      simp only [Enumerate.next, running, Integers.next_none hleft] at h
      cases h
    | succ k =>
      obtain ⟨index, counter', hnext, hcounter⟩ := Integers.next_some hleft
      simp only [Enumerate.next, running, hnext] at h
      obtain ⟨⟨element, input⟩, store', hpull, hrest⟩ := Run.bind_eq_some_iff.mp h
      cases element with
      | none => cases hrest
      | some x =>
        cases hrest
        exact ⟨rfl, congrArg (· + 1) hcounter.symm, hpull⟩

theorem AtMost.enumerate {stage : Enumerate τ} (atMost : AtMost pull n stage.input) :
    AtMost (Enumerate.next pull) n stage := by
  refine AtMost.lift (fun {stage store y stage' last m} hnext atMost => ?_) atMost
  obtain ⟨-, -, hpull⟩ := Enumerate.next_eq_some hnext
  obtain ⟨left, rfl, atMost'⟩ := atMost.step hpull
  exact ⟨left, left.lt_succ_self, atMost'⟩

theorem AtMost.counter {stage : Enumerate τ} (h : stage.counter.left ≤ n) :
    AtMost (Enumerate.next pull) n stage := by
  induction n generalizing stage with
  | zero =>
    intro store y stage' last hnext
    obtain ⟨-, hleft, -⟩ := Enumerate.next_eq_some hnext
    omega
  | succ n ih =>
    intro store y stage' last hnext
    obtain ⟨-, hleft, -⟩ := Enumerate.next_eq_some hnext
    exact ih (by omega)

lemma AtLeast.pullRow {traversals : List τ}
    (atLeast : ∀ traversal, traversal ∈ traversals → AtLeast pull (n + 1) traversal) (store : ω) :
    ∃ row traversals' store',
      ZipAll.pullRow pull traversals store = some ((some row, traversals'), store') ∧
        ∀ traversal, traversal ∈ traversals' → AtLeast pull n traversal := by
  induction traversals generalizing store with
  | nil => exact ⟨[], [], store, rfl, by simp⟩
  | cons traversal rest ih =>
    obtain ⟨first, others⟩ := List.forall_mem_cons.mp atLeast
    obtain ⟨x, traversal', store₁, hpull, first'⟩ := first store
    obtain ⟨row, rest', store₂, hrow, others'⟩ := ih others store₁
    refine ⟨x :: row, traversal' :: rest', store₂, ?_, List.forall_mem_cons.mpr ⟨first', others'⟩⟩
    simp [ZipAll.pullRow, Run.bind_apply, Run.map_apply, hpull, hrow]

theorem AtLeast.zipAll {zip : ZipAll τ} (running : zip.exhausted = false)
    (atLeast : ∀ traversal, traversal ∈ zip.traversals → AtLeast pull n traversal) :
    AtLeast (ZipAll.next pull) n zip := by
  induction n generalizing zip with
  | zero => trivial
  | succ n ih =>
    intro store
    obtain ⟨row, traversals, store', hrow, atLeast'⟩ := AtLeast.pullRow atLeast store
    refine ⟨row, ⟨traversals, false⟩, store', ?_, ih rfl atLeast'⟩
    simp [ZipAll.next, running, Run.bind_apply, hrow]

/-- A row takes an element from every traversal. -/
lemma AtMost.pullRow {traversals traversals' : List τ} {row : List α} {store last : ω}
    (hrow : ZipAll.pullRow pull traversals store = some ((some row, traversals'), last))
    (short : ∃ traversal ∈ traversals, AtMost pull n traversal) :
    ∃ left, left + 1 = n ∧ ∃ traversal ∈ traversals', AtMost pull left traversal := by
  induction traversals generalizing traversals' row store last with
  | nil =>
    obtain ⟨traversal, h, -⟩ := short
    cases h
  | cons traversal rest ih =>
    obtain ⟨⟨element, traversal'⟩, store₁, hpull, hrest⟩ := Run.bind_eq_some_iff.mp hrow
    cases element with
    | none => cases hrest
    | some x =>
      obtain ⟨⟨row', rest'⟩, store₂, hrow', hresult⟩ := Run.bind_eq_some_iff.mp hrest
      cases row' with
      | none => cases hresult
      | some row' =>
        cases hresult
        obtain ⟨shortest, hmem, atMost⟩ := short
        rcases List.mem_cons.mp hmem with rfl | hmem
        · obtain ⟨left, rfl, atMost'⟩ := atMost.step hpull
          exact ⟨left, rfl, traversal', List.mem_cons_self, atMost'⟩
        · obtain ⟨left, rfl, shorter, hmem', atMost'⟩ := ih hrow' ⟨shortest, hmem, atMost⟩
          exact ⟨left, rfl, shorter, List.mem_cons_of_mem _ hmem', atMost'⟩

lemma ZipAll.next_eq_some {zip zip' : ZipAll τ} {row : List α} {store last : ω}
    (h : ZipAll.next pull zip store = some ((some row, zip'), last)) :
    zip.exhausted = false ∧
      ZipAll.pullRow pull zip.traversals store = some ((some row, zip'.traversals), last) := by
  cases running : zip.exhausted with
  | true =>
    simp only [ZipAll.next, running, if_true] at h
    cases h
  | false =>
    simp only [ZipAll.next, running] at h
    obtain ⟨⟨row', traversals⟩, store', hrow, hresult⟩ := Run.bind_eq_some_iff.mp h
    cases hresult
    exact ⟨rfl, hrow⟩

theorem AtMost.zipAll {zip : ZipAll τ}
    (short : ∃ traversal ∈ zip.traversals, AtMost pull n traversal) :
    AtMost (ZipAll.next pull) n zip := by
  induction n generalizing zip with
  | zero =>
    intro store row zip' last hnext
    obtain ⟨left, hleft, -⟩ := AtMost.pullRow (ZipAll.next_eq_some hnext).2 short
    omega
  | succ n ih =>
    intro store row zip' last hnext
    obtain ⟨left, hleft, short'⟩ := AtMost.pullRow (ZipAll.next_eq_some hnext).2 short
    obtain rfl := Nat.succ.inj hleft
    exact ih short'

end Zip

end Traversals
