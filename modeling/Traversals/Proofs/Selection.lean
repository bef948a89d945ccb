import Traversals.Proofs.Exhaustion

/-!
# What a sub-sequence selects

A sub-sequence answers with the elements at the dropped places, then one
stride further each time, up to its limit. It has then pulled its input up to
the last element it has answered with, and no further. The gap before the next
answer is the dropped places at first and one less than the stride later, so
what has been pulled and the gap together are the next place.
-/

namespace Traversals

open Stream' (Seq)

variable {ω τ α : Type}

namespace History

variable {pull : Pull ω τ α}

/-- An element so many places ahead is pulled with all before it. If there is
none, it depends on the history where the pulls stop. -/
lemma nth_eq (history : History pull) (gap : ℕ) {n : ℕ} (reached : history.Reached n) :
    ∃ m, nth pull gap (history.state n).1 (history.state n).2 =
        some ((history.elements.get? (n + gap), (history.state m).1), (history.state m).2) ∧
      ((history.elements.get? (n + gap)).isSome → m = n + gap + 1 ∧ history.Reached m) := by
  induction gap generalizing n with
  | zero =>
    refine ⟨n + 1, ?_, ?_⟩
    · rw [nth, history.pulled, reached.answer_eq]
      rfl
    · intro hsome
      obtain ⟨x, hx⟩ := Option.isSome_iff_exists.mp hsome
      exact ⟨rfl, reached.succ hx⟩
  | succ gap ih =>
    cases hx : history.elements.get? n with
    | none =>
      have hlast : history.elements.get? (n + (gap + 1)) = none :=
        Seq.le_stable _ (Nat.le_add_right _ _) hx
      refine ⟨n + 1, ?_, by simp [hlast]⟩
      simp [nth, Run.bind_apply, history.pulled, reached.answer_eq, hx, hlast]
    | some x =>
      obtain ⟨m, hnth, hreached⟩ := ih (reached.succ hx)
      rw [Nat.add_right_comm n 1 gap] at hnth hreached
      refine ⟨m, ?_, hreached⟩
      simp only [nth, Run.bind_apply, history.pulled, reached.answer_eq, hx, Option.bind_some]
      exact hnth

end History

namespace SubSequence

/-- The answer to the pull after `k` others. -/
def selected (elements : Seq α) (dropped : ℕ) (taken : Option ℕ) (stride k : ℕ) : Option α :=
  if ∀ limit ∈ taken, k < limit then elements.get? (dropped + k * stride) else none

section Selected

variable {elements : Seq α} {dropped stride k : ℕ} {taken : Option ℕ}

lemma selected_eq_some_iff {x : α} : selected elements dropped taken stride k = some x ↔
    (∀ limit ∈ taken, k < limit) ∧ elements.get? (dropped + k * stride) = some x := by
  rw [selected]
  split <;> simp_all

lemma selected_limit : selected elements dropped (some k) stride k = none :=
  if_neg fun allowed => lt_irrefl k (allowed k rfl)

/-- Behind an end there are only ends. -/
lemma selected_eq_none_of_le {k' : ℕ} (hle : k ≤ k')
    (h : selected elements dropped taken stride k = none) :
    selected elements dropped taken stride k' = none := by
  rw [selected] at h ⊢
  split
  · next within =>
    rw [if_pos fun limit hlimit => hle.trans_lt (within limit hlimit)] at h
    exact Seq.le_stable _ (Nat.add_le_add_left (Nat.mul_le_mul_right _ hle) _) h
  · rfl

lemma remaining_eq_zero_iff (within : ∀ limit ∈ taken, k ≤ limit) :
    taken.map (· - k) = some 0 ↔ taken = some k := by
  cases taken with
  | none => simp
  | some limit =>
    have hle := within limit rfl
    simp only [Option.map_some, Option.some.injEq]
    omega

end Selected

/-- The pulls of the input that the first `k` elements take. -/
def needed (dropped stride : ℕ) : ℕ → ℕ
  | 0 => 0
  | k + 1 => dropped + k * stride + 1

/-- What holds of a sub-sequence and the store after `k` pulls: it has answered
with elements only, or it is spent. -/
inductive Selecting {pull : Pull ω τ α} (history : History pull) (dropped : ℕ)
    (taken : Option ℕ) (stride k : ℕ) : SubSequence τ → ω → Prop
  | going {stage : SubSequence τ}
      (reached : history.Reached (needed dropped stride k))
      (input_eq : stage.input = (history.state (needed dropped stride k)).1)
      (gap_eq : needed dropped stride k + stage.gap = dropped + k * stride)
      (stride_eq : stage.stride = stride)
      (remaining_eq : stage.remaining = taken.map (· - k))
      (within : ∀ limit ∈ taken, k ≤ limit) :
      Selecting history dropped taken stride k stage
        (history.state (needed dropped stride k)).2
  | spent {stage : SubSequence τ} {earlier m : ℕ}
      (earlier_lt : earlier < k)
      (ended : selected history.elements dropped taken stride earlier = none)
      (spent : stage.remaining = some 0)
      (untouched : taken = some 0 → m = 0) :
      Selecting history dropped taken stride k stage (history.state m).2

namespace Selecting

variable {pull : Pull ω τ α} {history : History pull} {dropped stride k : ℕ} {taken : Option ℕ}
  {stage : SubSequence τ} {store : ω}

/-- One pull. The gap leads to the place of the next element, if the limit
allows for one. -/
lemma next (selecting : Selecting history dropped taken stride k stage store) :
    ∃ answer stage' store', SubSequence.next pull stage store =
        some ((answer, stage'), store') ∧
      answer = selected history.elements dropped taken stride k ∧
      Selecting history dropped taken stride (k + 1) stage' store' := by
  cases selecting with
  | spent earlier_lt ended spent untouched =>
    refine ⟨none, stage, _, next_spent spent _, ?_, .spent (by omega) ended spent untouched⟩
    exact (selected_eq_none_of_le earlier_lt.le ended).symm
  | going reached input_eq gap_eq stride_eq remaining_eq within =>
    have full_iff : stage.remaining = some 0 ↔ taken = some k :=
      remaining_eq ▸ remaining_eq_zero_iff within
    -- A full stage answers at once; any other pulls its way to the next place.
    by_cases hlimit : taken = some k
    · subst hlimit
      refine ⟨none, stage, _, next_spent (full_iff.mpr rfl) _, selected_limit.symm,
        .spent k.lt_succ_self selected_limit (full_iff.mpr rfl) ?_⟩
      rintro ⟨⟩
      rfl
    · have allowed : ∀ limit ∈ taken, k < limit := by
        intro limit hmem
        refine lt_of_le_of_ne (within limit hmem) ?_
        rintro rfl
        exact hlimit hmem
      have selected_eq : selected history.elements dropped taken stride k =
          history.elements.get? (dropped + k * stride) := if_pos allowed
      obtain ⟨m, hnth, hreached⟩ := history.nth_eq stage.gap reached
      rw [gap_eq, ← selected_eq, ← input_eq] at hnth
      rw [gap_eq, ← selected_eq] at hreached
      have room : stage.remaining ≠ some 0 := mt full_iff.mp hlimit
      cases hx : selected history.elements dropped taken stride k with
      | none =>
        rw [hx] at hnth
        refine ⟨none, { stage with input := (history.state m).1, remaining := some 0 },
          (history.state m).2, ?_, rfl, .spent k.lt_succ_self hx rfl ?_⟩
        · simp [SubSequence.next, room, Run.bind_apply, hnth]
        · rintro rfl
          exact absurd (allowed 0 rfl) k.not_lt_zero
      | some x =>
        rw [hx] at hnth hreached
        obtain ⟨rfl, reached'⟩ := hreached rfl
        refine ⟨some x, { stage with
            input := (history.state (dropped + k * stride + 1)).1
            gap := stage.stride - 1
            remaining := stage.remaining.map (· - 1) },
          (history.state (dropped + k * stride + 1)).2, ?_, rfl,
          .going reached' rfl ?_ stride_eq ?_ allowed⟩
        · simp [SubSequence.next, room, Run.bind_apply, hnth]
        · have stride_pos := stage.stride_pos
          simp only [needed, Nat.succ_mul]
          omega
        · rw [remaining_eq, Option.map_map]
          rfl

/-- An answer that was an end was the last one to pull anything. -/
lemma spent_of_end (selecting : Selecting history dropped taken stride k stage store) {m : ℕ}
    (hm : m < k) (ended : selected history.elements dropped taken stride m = none) :
    stage.remaining = some 0 := by
  cases selecting with
  | spent _ _ spent _ => exact spent
  | going reached _ _ _ _ within =>
    -- The place of an earlier answer has been pulled, so there was an element.
    obtain ⟨j, rfl⟩ := Nat.exists_eq_succ_of_ne_zero (Nat.ne_zero_of_lt hm)
    have hplace : dropped + m * stride < needed dropped stride (j + 1) :=
      Nat.lt_succ_of_le (Nat.add_le_add_left (Nat.mul_le_mul_right _ (Nat.le_of_lt_succ hm)) _)
    have hsome := reached _ hplace
    rw [selected, if_pos fun limit hlimit => hm.trans_le (within limit hlimit)] at ended
    rw [ended] at hsome
    cases hsome

lemma spent_of_limit (selecting : Selecting history dropped taken stride k stage store)
    (hlimit : taken = some k) : stage.remaining = some 0 := by
  cases selecting with
  | spent _ _ spent _ => exact spent
  | going _ _ _ _ remaining_eq within =>
    exact remaining_eq.trans ((remaining_eq_zero_iff within).mpr hlimit)

section Calls

variable {last : ω × ℕ}
  (selecting : Selecting history.counting dropped taken stride k stage last)

include selecting

lemma store_eq : last.1 = (history.state last.2).2 := by
  cases selecting <;> rfl

lemma calls_eq (elements_only : ∀ m < k, selected history.elements dropped taken stride m ≠ none) :
    last.2 = needed dropped stride k := by
  cases selecting with
  | going _ _ _ _ _ _ => rfl
  | spent earlier_lt ended _ _ => exact absurd ended (elements_only _ earlier_lt)

lemma calls_eq_zero (untouched : k = 0 ∨ taken = some 0) : last.2 = 0 := by
  cases selecting with
  | spent earlier_lt _ _ unpulled =>
    rcases untouched with rfl | hzero
    · exact absurd earlier_lt (Nat.not_lt_zero _)
    · exact unpulled hzero
  | going _ _ _ _ _ within =>
    rcases untouched with rfl | rfl
    · rfl
    · obtain rfl : k = 0 := Nat.le_zero.mp (within 0 rfl)
      rfl

/-- An end of the input is not asked for twice. -/
lemma spent_of_answer {m : ℕ} (hm : m < last.2) (ended : history.answer m = none) :
    stage.remaining = some 0 := by
  cases selecting with
  | spent _ _ spent _ => exact spent
  | going reached _ _ _ _ _ =>
    have hsome := reached m hm
    rw [History.elements_get?] at hsome
    split at hsome
    · exact absurd hsome (by simp [History.counting, ended])
    · cases hsome

end Calls

end Selecting

end SubSequence

/-- Where nothing comes after an end, the answers are elements first and then
ends, and the elements are those of the positions before the end. -/
lemma exists_yielded {answers : List (Option α)} {answer : ℕ → Option α}
    (hanswers : ∀ k x, answers[k]? = some x → x = answer k)
    (stays : ∀ k k', k ≤ k' → answer k = none → answer k' = none) :
    ∃ (yielded : List α) (ends : ℕ), answers = yielded.map some ++ List.replicate ends none ∧
      ∀ k x, yielded[k]? = some x ↔ k < answers.length ∧ answer k = some x := by
  induction answers generalizing answer with
  | nil => exact ⟨[], 0, rfl, by simp⟩
  | cons first rest ih =>
    obtain ⟨yielded, ends, hrest, hyielded⟩ :=
      ih (fun k x h => hanswers (k + 1) x (by simpa using h))
        fun k k' hle h => stays (k + 1) (k' + 1) (Nat.succ_le_succ hle) h
    have hfirst : first = answer 0 := hanswers 0 first rfl
    cases first with
    | none =>
      have all : ∀ k, answer k = none := fun k => stays 0 k k.zero_le hfirst.symm
      cases yielded with
      | nil => exact ⟨[], ends + 1, by simp [hrest, List.replicate_succ], by simp [all]⟩
      | cons x _ =>
        have hx := ((hyielded 0 x).mp rfl).2
        rw [all] at hx
        cases hx
    | some y =>
      refine ⟨y :: yielded, ends, by simp [hrest], ?_⟩
      intro k x
      cases k with
      | zero => simp [← hfirst]
      | succ k => simpa using hyielded k x

/-- A sub-sequence answers with the elements it selects, one a pull and before
any end, and has then pulled its input just so far. Nothing is pulled before
the first pull or for a limit of zero, and nothing once the limit is reached or
the input has ended. The pulls of the input are counted beside the store.
Taking, dropping and the rest are instances. -/
theorem subSequence_selects {pull : Pull ω τ α} (history : History pull) (dropped : ℕ)
    (taken : Option ℕ) {stride : ℕ} (stride_pos : 0 < stride) (count later : ℕ) :
    ∃ stage, SubSequence.make (history.state 0).1 dropped taken stride = .ok stage ∧
    ∃ (yielded : List α) (ends : ℕ) (stage' : SubSequence τ) (store : ω) (calls : ℕ),
      pulls (SubSequence.next (counted pull)) count stage ((history.state 0).2, 0) =
        some ((yielded.map some ++ List.replicate ends none, stage'), (store, calls)) ∧
      yielded.length + ends = count ∧
      (∀ k x, yielded[k]? = some x ↔ k < count ∧ (∀ limit ∈ taken, k < limit) ∧
        history.elements.get? (dropped + k * stride) = some x) ∧
      store = (history.state calls).2 ∧
      (∀ k, count = k + 1 → yielded.length = count → calls = dropped + k * stride + 1) ∧
      (count = 0 ∨ taken = some 0 → calls = 0) ∧
      (taken = some yielded.length ∨ (∃ m < calls, history.answer m = none) →
        pulls (SubSequence.next (counted pull)) later stage' (store, calls) =
          some ((List.replicate later none, stage'), (store, calls))) ∧
      ∀ (input : τ) (n : ℕ),
        SubSequence.make input 0 (some n) 1 = .ok (.take input n) ∧
        SubSequence.make input n none 1 = .ok (.drop input n) ∧
        SubSequence.make input 1 none 1 = .ok (.rest input) := by
  have start : SubSequence.Selecting history.counting dropped taken stride 0
      ⟨(history.state 0).1, dropped, stride, taken, stride_pos⟩ ((history.state 0).2, 0) :=
    .going history.counting.reached_zero rfl (by simp [SubSequence.needed]) rfl (by simp) (by simp)
  obtain ⟨answers, stage', last, hrun, hlength, hanswers, selecting⟩ :=
    pulls_of_step SubSequence.Selecting.next start count
  simp only [Nat.zero_add] at hanswers selecting
  obtain ⟨yielded, ends, rfl, hyielded⟩ :=
    exists_yielded hanswers fun _ _ => SubSequence.selected_eq_none_of_le
  rw [hlength] at hyielded
  have hcount : yielded.length + ends = count := by simpa using hlength
  refine ⟨⟨(history.state 0).1, dropped, stride, taken, stride_pos⟩,
    by simp [SubSequence.make, positive, stride_pos], yielded, ends, stage', last.1, last.2,
    hrun, hcount, ?_, selecting.store_eq, ?_, selecting.calls_eq_zero, ?_,
    fun input n => ⟨rfl, rfl, rfl⟩⟩
  · intro k x
    rw [hyielded, SubSequence.selected_eq_some_iff]
    rfl
  · rintro k rfl hall
    refine selecting.calls_eq fun m hm => ?_
    have hm' : m < yielded.length := hall.symm ▸ hm
    have hx := ((hyielded m _).mp (List.getElem?_eq_getElem hm')).2
    exact Option.ne_none_iff_exists'.mpr ⟨_, hx⟩
  · intro finished
    refine pulls_idle (SubSequence.next_spent ?_ _) later
    rcases finished with hlimit | ⟨m, hm, hnone⟩
    · by_cases hall : yielded.length = count
      · exact selecting.spent_of_limit (hall ▸ hlimit)
      · have hlt : yielded.length < count := by omega
        exact selecting.spent_of_end hlt (hlimit ▸ SubSequence.selected_limit)
    · exact selecting.spent_of_answer hm hnone

/-- Every second element behind the first, up to the end of a script that would
go on after it. -/
theorem subSequence_selects_resuming :
    let source : Script ℕ := .ofAnswers #[some 1, some 2, some 3, none, some 5, some 6] none
    0 < 2 ∧ ∃ stage, SubSequence.make source 1 none 2 = .ok stage ∧
      ∃ (yielded : List ℕ) (ends : ℕ) (stage' : SubSequence (Script ℕ)) (calls : ℕ),
        pulls (SubSequence.next (counted fun script => return script.next)) 4 stage ((), 0) =
          some ((yielded.map some ++ List.replicate ends none, stage'), ((), calls)) ∧
        yielded.length + ends = 4 ∧
        ∀ k x, yielded[k]? = some x ↔ k < 4 ∧
          (History.ofStep Script.next source ()).elements.get? (1 + k * 2) = some x := by
  intro source
  obtain ⟨stage, hmake, yielded, ends, stage', store, calls, hrun, hcount, hyielded, -⟩ :=
    subSequence_selects (History.ofStep Script.next source ()) 1 none (show 0 < 2 by decide) 4 0
  exact ⟨by decide, stage, hmake, yielded, ends, stage', calls, hrun, hcount,
    fun k x => by simpa using hyielded k x⟩

end Traversals
