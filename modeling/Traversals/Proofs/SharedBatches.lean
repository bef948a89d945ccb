import Traversals.Stage.Batches
import Traversals.Proofs.Upstream

/-!
# Batches in any order

New batches are asked for and outstanding batches are pulled in any order. Each
element that is pulled goes to exactly one batch, the one it was pulled for,
and a batch delivers its own elements in order. What a step replies is told by
the elements taken so far. Once the upstream has ended it is left alone, unless
it has promised to stay ended, and a batch that has ended stays so.
-/

namespace Traversals

variable {ω τ α : Type}

/-- Batches are numbered in the order of their making. -/
inductive BatchStep where
  | make
  | next (batch : Nat)

inductive BatchReply (α : Type) where
  | made
  /-- There is no further batch. -/
  | exhausted
  /-- There is no batch of that number. -/
  | absent
  | element (element : Option α)

/-- A batch with what has become of it: the numbers of the upstream pulls that
fetched its elements, what it has delivered, and whether it has answered an end. -/
structure BatchRecord (α : Type) where
  batch : Batch α
  fetched : List Nat
  delivered : List α
  ended : Bool

/-- The record after an answer of the batch, for which the given pulls were made. -/
def BatchRecord.answered (record : BatchRecord α) (answer : Option α) (batch : Batch α)
    (pulls : List Nat) : BatchRecord α :=
  match answer with
  | none => { record with batch, ended := true }
  | some x =>
      { record with
        batch
        fetched := record.fetched ++ pulls
        delivered := record.delivered ++ [x] }

/-- What a batch has to answer: the element that waits in it, or the next one of
the upstream if there is room for it. -/
def BatchRecord.due (elements : Stream'.Seq α) (size taken : Nat) (record : BatchRecord α) :
    Option α :=
  match record.batch.head with
  | some x => some x
  | none => if record.delivered.length < size then elements.get? taken else none

/-- The batch has to ask the upstream for its answer. -/
def BatchRecord.Asks (size : Nat) (record : BatchRecord α) : Prop :=
  record.batch.head = none ∧ record.ended = false ∧ record.delivered.length < size

/-- Batches and the records of all that were handed out. -/
structure SharedBatches (τ α : Type) where
  batches : Batches τ
  records : List (BatchRecord α)

namespace SharedBatches

/-- The batch of that number has answered an end. -/
def Closed (shared : SharedBatches τ α) (batch : Nat) : Prop :=
  ∃ record, shared.records[batch]? = some record ∧ record.ended = true

/-- The reply that a step calls for when so many elements have been taken. -/
def due (elements : Stream'.Seq α) (size taken : Nat) (shared : SharedBatches τ α) :
    BatchStep → BatchReply α
  | .make => if (elements.get? taken).isSome then .made else .exhausted
  | .next batch =>
      match shared.records[batch]? with
      | none => .absent
      | some record => .element (record.due elements size taken)

/-- The step has to ask the upstream for its reply. -/
def Asks (size : Nat) (shared : SharedBatches τ α) : BatchStep → Prop
  | .make => True
  | .next batch => ∃ record, shared.records[batch]? = some record ∧ record.Asks size

/-- The reply to a step. The pulls of the upstream are numbered by their count,
which stands beside the store. -/
def perform (promise : Promise) (pull : Pull ω τ α) :
    BatchStep → SharedBatches τ α → Run (ω × Nat) (BatchReply α × SharedBatches τ α)
  | .make, shared => do
      let before ← get
      let (batch, batches) ← shared.batches.next promise (counted pull)
      match batch with
      | none => return (.exhausted, { shared with batches })
      | some batch =>
          let record : BatchRecord α := ⟨batch, [before.2], [], false⟩
          return (.made, { batches, records := shared.records ++ [record] })
  | .next number, shared =>
      match shared.records[number]? with
      | none => return (.absent, shared)
      | some record => do
          let before ← get
          let (answer, batch, batches) ←
            Batch.next promise (counted pull) (record.batch, shared.batches)
          let after ← get
          let pulls := List.range' before.2 (after.2 - before.2)
          let records := shared.records.set number (record.answered answer batch pulls)
          return (.element answer, { batches, records })

end SharedBatches

/-- What holds of the record of a batch cut from the given elements: it has
delivered its own elements in order, up to a first one that still waits. -/
structure BatchRecord.Sound (elements : Stream'.Seq α) (size : Nat) (record : BatchRecord α) :
    Prop where
  ordered : record.fetched.Pairwise (· < ·)
  content : (record.delivered ++ record.batch.head.toList).map some =
    record.fetched.map elements.get?
  unopened : record.batch.head.isSome ↔ record.delivered = []
  within : record.fetched.length + record.batch.remaining ≤ size
  roomy : record.ended = false → record.fetched.length + record.batch.remaining = size
  closed : record.ended = true → record.batch.head = none ∧ record.batch.remaining = 0

namespace BatchRecord.Sound

variable {elements : Stream'.Seq α} {size : Nat} {record : BatchRecord α}

lemma length_eq (sound : record.Sound elements size) :
    record.fetched.length =
      record.delivered.length + (if record.batch.head.isSome then 1 else 0) := by
  have h := congrArg List.length sound.content
  cases hhead : record.batch.head <;> simp_all

/-- The first element is delivered without a pull. -/
lemma open_head (sound : record.Sound elements size) {x : α}
    (hx : record.batch.head = some x) :
    (record.answered (some x) { record.batch with head := none } []).Sound elements size where
  ordered := by simpa [answered] using sound.ordered
  content := by simpa [answered, hx] using sound.content
  unopened := by simp [answered]
  within := by simpa [answered] using sound.within
  roomy := by simpa [answered] using sound.roomy
  closed h := by
    have hclosed := sound.closed (by simpa [answered] using h)
    rw [hx] at hclosed
    cases hclosed.1

/-- A later element is fetched for the batch that delivers it. -/
lemma fetch (sound : record.Sound elements size) {x : α} {taken : Nat}
    (hhead : record.batch.head = none) (hroom : record.batch.remaining ≠ 0)
    (hx : elements.get? taken = some x) (earlier : ∀ n ∈ record.fetched, n < taken) :
    (record.answered (some x)
      { record.batch with remaining := record.batch.remaining - 1 } [taken]).Sound
      elements size where
  ordered := by
    simp only [answered, List.pairwise_append]
    exact ⟨sound.ordered, by simp, by simpa using earlier⟩
  content := by
    have h := sound.content
    simp only [hhead, Option.toList_none, List.append_nil] at h
    simp [answered, hhead, h, hx]
  unopened := by simp [answered, hhead]
  within := by
    have h := sound.within
    simp only [answered, List.length_append, List.length_singleton]
    omega
  roomy h := by
    have hroomy := sound.roomy (by simpa [answered] using h)
    simp only [answered, List.length_append, List.length_singleton]
    omega
  closed h := by
    have hclosed := sound.closed (by simpa [answered] using h)
    exact absurd hclosed.2 hroom

/-- A batch without room ends, and so does any batch when the upstream ends. -/
lemma finish (sound : record.Sound elements size) (hhead : record.batch.head = none)
    (pulls : List Nat) :
    (record.answered none { record.batch with remaining := 0 } pulls).Sound elements size where
  ordered := sound.ordered
  content := sound.content
  unopened := sound.unopened
  within := (Nat.le_add_right _ _).trans sound.within
  roomy h := by cases h
  closed _ := ⟨hhead, rfl⟩

/-- Of a batch without a waiting element all that was fetched has been delivered. -/
lemma delivered_eq (sound : record.Sound elements size) (hhead : record.batch.head = none) :
    record.delivered.length = record.fetched.length := by
  rw [sound.length_eq, hhead]
  rfl

lemma asks_iff (sound : record.Sound elements size) :
    record.Asks size ↔ record.batch.head = none ∧ record.batch.remaining ≠ 0 := by
  have hwithin := sound.within
  constructor
  · rintro ⟨hhead, hopen, hroom⟩
    have hroomy := sound.roomy hopen
    have hlength := sound.delivered_eq hhead
    exact ⟨hhead, by omega⟩
  · rintro ⟨hhead, hroom⟩
    have hlength := sound.delivered_eq hhead
    refine ⟨hhead, ?_, by omega⟩
    by_contra hended
    exact hroom (sound.closed (Bool.eq_true_of_not_eq_false hended)).2

end BatchRecord.Sound

/-- A batch that asks the upstream answers as it does. -/
lemma BatchRecord.Asks.due_eq {size : Nat} {record : BatchRecord α} (asks : record.Asks size)
    (elements : Stream'.Seq α) (taken : Nat) :
    record.due elements size taken = elements.get? taken := by
  obtain ⟨hhead, -, hroom⟩ := asks
  simp [due, hhead, hroom]

/-- A longer list of pulls is the shorter one with the pulls in between. -/
lemma range_append_range' {taken taken' : Nat} (h : taken ≤ taken') :
    List.range taken ++ List.range' taken (taken' - taken) = List.range taken' := by
  have happend : List.range' 0 taken ++ List.range' (0 + taken) (taken' - taken) =
      List.range' 0 (taken + (taken' - taken)) := List.range'_append_1
  rw [Nat.zero_add, Nat.add_sub_cancel' h] at happend
  simpa only [List.range_eq_range'] using happend

/-- A record that fetches more adds just that to all that is fetched. -/
lemma flatMap_fetched_set {records : List (BatchRecord α)} {number : Nat}
    {record after : BatchRecord α} (hrecord : records[number]? = some record)
    {pulls : List Nat} (hafter : after.fetched = record.fetched ++ pulls) :
    ((records.set number after).flatMap (·.fetched)).Perm
      (records.flatMap (·.fetched) ++ pulls) := by
  induction records generalizing number with
  | nil => simp at hrecord
  | cons first rest ih =>
    cases number with
    | zero =>
      obtain rfl : first = record := by simpa using hrecord
      simp only [List.set_cons_zero, List.flatMap_cons, hafter, List.append_assoc]
      exact List.perm_append_comm.append_left _
    | succ number =>
      have hrest := ih (show rest[number]? = some record by simpa using hrecord)
      simp only [List.set_cons_succ, List.flatMap_cons, List.append_assoc]
      exact hrest.append_left _

/-- What had ended before some steps, to which the log replies, is ended after
them and was so all the while. -/
structure SharedBatches.Since (promise : Promise) (past : Nat) (before : SharedBatches τ α)
    (store : ω × Nat) (log : List (BatchStep × BatchReply α)) (past' : Nat)
    (after : SharedBatches τ α) (store' : ω × Nat) : Prop where
  stays : 0 < past → 0 < past' ∧ (promise = .nothing → store' = store) ∧
    after.records.length = before.records.length ∧
    ∀ entry ∈ log, entry.1 = .make → entry.2 = .exhausted
  closed : ∀ number, before.Closed number → after.Closed number ∧
    ∀ entry ∈ log, entry.1 = .next number → entry.2 = .element none

namespace SharedBatches.Since

variable {promise : Promise} {before middle after : SharedBatches τ α}
  {store store' store'' : ω × Nat} {past past' past'' : Nat}
  {log log' : List (BatchStep × BatchReply α)}

lemma refl : Since promise past before store [] past before store :=
  ⟨fun h => ⟨h, fun _ => rfl, rfl, by simp⟩, fun _ h => ⟨h, by simp⟩⟩

lemma trans (first : Since promise past before store log past' middle store')
    (second : Since promise past' middle store' log' past'' after store'') :
    Since promise past before store (log ++ log') past'' after store'' := by
  constructor
  · intro h
    obtain ⟨h', hstore, hlength, hlog⟩ := first.stays h
    obtain ⟨h'', hstore', hlength', hlog'⟩ := second.stays h'
    refine ⟨h'', fun kind => (hstore' kind).trans (hstore kind), hlength'.trans hlength, ?_⟩
    intro entry hentry
    exact (List.mem_append.mp hentry).elim (hlog entry) (hlog' entry)
  · intro number h
    obtain ⟨h', hlog⟩ := first.closed number h
    obtain ⟨h'', hlog'⟩ := second.closed number h'
    refine ⟨h'', ?_⟩
    intro entry hentry
    exact (List.mem_append.mp hentry).elim (hlog entry) (hlog' entry)

end SharedBatches.Since

namespace History

variable {pull : Pull ω τ α} {history : History pull}

/-- What holds of shared batches after any steps. The pulls that took an element
are split among the records, and a batch that has ended short of its size has
met the end of the upstream. -/
structure Accounts (history : History pull) (promise : Promise) (size taken past : Nat)
    (shared : SharedBatches τ α) (store : ω × Nat) : Prop where
  size_eq : shared.batches.size = size
  reads : history.counting.Reads promise taken past shared.batches.cursor store
  split : (shared.records.flatMap (·.fetched)).Perm (List.range taken)
  sound : ∀ record ∈ shared.records, record.Sound history.elements size
  short : ∀ record ∈ shared.records, record.ended = true → record.fetched.length < size →
    0 < past

/-- What the answer of a batch leads to: its record and the cursor after it. -/
structure Answered (history : History pull) (promise : Promise) (size taken past : Nat)
    (record : BatchRecord α) (store : ω × Nat) (after : BatchRecord α) (cursor : Fused τ)
    (taken' past' : Nat) (store' : ω × Nat) : Prop where
  reads : history.counting.Reads promise taken' past' cursor store'
  taken_le : taken ≤ taken'
  sound : after.Sound history.elements size
  fetched_eq : after.fetched = record.fetched ++ List.range' taken (taken' - taken)
  short : after.ended = true → after.fetched.length < size → 0 < past'
  stays : 0 < past → 0 < past' ∧ (promise = .nothing → store' = store)
  calls : (record.Asks size ∧ promise.PassesOn past) ∧ store'.2 = store.2 + 1 ∨
    ¬ (record.Asks size ∧ promise.PassesOn past) ∧ store'.2 = store.2

/-- A pull of the batch of a record answers what is due. -/
def AnswersDue (history : History pull) (promise : Promise) (size taken past : Nat)
    (shared : SharedBatches τ α) (record : BatchRecord α) (store : ω × Nat) : Prop :=
  ∃ batch cursor taken' past' store',
    Batch.next promise (counted pull) (record.batch, shared.batches) store =
      some ((record.due history.elements size taken, batch,
        { shared.batches with cursor }), store') ∧
    history.Answered promise size taken past record store
      (record.answered (record.due history.elements size taken) batch
        (List.range' store.2 (store'.2 - store.2))) cursor taken' past' store'

/-- What a step leads to. -/
structure Leads (history : History pull) (promise : Promise) (size taken past : Nat)
    (shared : SharedBatches τ α) (store : ω × Nat) (step : BatchStep)
    (shared' : SharedBatches τ α) (taken' past' : Nat) (store' : ω × Nat) : Prop where
  accounts : history.Accounts promise size taken' past' shared' store'
  since : SharedBatches.Since promise past shared store
    [(step, shared.due history.elements size taken step)] past' shared' store'
  opens : step = .make → ∀ x, history.elements.get? taken = some x →
    ∃ record, shared'.records = shared.records ++ [record] ∧ record.batch.head = some x
  calls : (shared.Asks size step ∧ promise.PassesOn past) ∧ store'.2 = store.2 + 1 ∨
    ¬ (shared.Asks size step ∧ promise.PassesOn past) ∧ store'.2 = store.2

/-- The step replies what is due, and what it leads to is accounted for. -/
def StepsDue (history : History pull) (promise : Promise) (size taken past : Nat)
    (shared : SharedBatches τ α) (store : ω × Nat) (step : BatchStep) : Prop :=
  ∃ shared' taken' past' store',
    SharedBatches.perform promise pull step shared store =
      some ((shared.due history.elements size taken step, shared'), store') ∧
    history.Leads promise size taken past shared store step shared' taken' past' store'

namespace Accounts

variable {promise : Promise} {size taken past : Nat} {shared : SharedBatches τ α}
  {store : ω × Nat}

lemma fetched_lt (accounts : history.Accounts promise size taken past shared store)
    {record : BatchRecord α} (hrecord : record ∈ shared.records) {n : Nat}
    (hn : n ∈ record.fetched) : n < taken :=
  List.mem_range.mp (accounts.split.mem_iff.mp (List.mem_flatMap.mpr ⟨record, hrecord, hn⟩))

/-- A batch without room has delivered as many elements as it may, or has met
the end of the upstream. -/
lemma due_of_full (accounts : history.Accounts promise size taken past shared store)
    {record : BatchRecord α} (hrecord : record ∈ shared.records)
    (hhead : record.batch.head = none) (hroom : record.batch.remaining = 0) :
    record.due history.elements size taken = none := by
  have sound := accounts.sound record hrecord
  have hlength := sound.delivered_eq hhead
  simp only [BatchRecord.due, hhead]
  split
  · next hshort =>
    cases hended : record.ended with
    | true =>
      exact accounts.reads.at_end (accounts.short record hrecord hended (by omega))
    | false =>
      have hroomy := sound.roomy hended
      omega
  · rfl

lemma due_of_ended (accounts : history.Accounts promise size taken past shared store)
    {record : BatchRecord α} (hrecord : record ∈ shared.records) (hended : record.ended = true) :
    record.due history.elements size taken = none := by
  obtain ⟨hhead, hroom⟩ := (accounts.sound record hrecord).closed hended
  exact accounts.due_of_full hrecord hhead hroom

section Answer

variable {record : BatchRecord α}

/-- The element that waits in a batch is delivered without a pull. -/
lemma answer_head (accounts : history.Accounts promise size taken past shared store)
    (hrecord : record ∈ shared.records) {x : α} (hhead : record.batch.head = some x) :
    history.AnswersDue promise size taken past shared record store := by
  have sound := accounts.sound record hrecord
  have hdue : record.due history.elements size taken = some x := by
    simp [BatchRecord.due, hhead]
  have noCall : ¬ (record.Asks size ∧ promise.PassesOn past) := by
    rintro ⟨⟨hnone, -⟩, -⟩
    rw [hhead] at hnone
    cases hnone
  have opened := sound.open_head hhead
  refine ⟨{ record.batch with head := none }, shared.batches.cursor, taken, past, store, ?_,
    accounts.reads, le_rfl, ?_, ?_, ?_, fun h => ⟨h, fun _ => rfl⟩, .inr ⟨noCall, rfl⟩⟩
  · simp [hdue, Batch.next, hhead]
  · simpa [hdue] using opened
  · simp [hdue, BatchRecord.answered]
  · rw [hdue]
    intro h
    have hclosed := sound.closed (by simpa [BatchRecord.answered] using h)
    rw [hhead] at hclosed
    cases hclosed.1

/-- A batch without room ends without a pull. -/
lemma answer_full (accounts : history.Accounts promise size taken past shared store)
    (hrecord : record ∈ shared.records) (hhead : record.batch.head = none)
    (hroom : record.batch.remaining = 0) :
    history.AnswersDue promise size taken past shared record store := by
  have sound := accounts.sound record hrecord
  have hdue := accounts.due_of_full hrecord hhead hroom
  have noCall : ¬ (record.Asks size ∧ promise.PassesOn past) := fun h =>
    (sound.asks_iff.mp h.1).2 hroom
  have finish := sound.finish hhead (List.range' store.2 (store.2 - store.2))
  rw [← hroom] at finish
  refine ⟨record.batch, shared.batches.cursor, taken, past, store, ?_, accounts.reads, le_rfl,
    ?_, ?_, ?_, fun h => ⟨h, fun _ => rfl⟩, .inr ⟨noCall, rfl⟩⟩
  · simp [hdue, Batch.next, hhead, hroom]
  · rw [hdue]
    exact finish
  · simp [hdue, BatchRecord.answered]
  · rw [hdue]
    intro _ hshort
    cases hended : record.ended with
    | true => exact accounts.short record hrecord hended hshort
    | false =>
      have hroomy := sound.roomy hended
      have hfetched : record.fetched.length < size := hshort
      omega

/-- A batch with room fetches the next element. -/
lemma answer_some (accounts : history.Accounts promise size taken past shared store)
    (hrecord : record ∈ shared.records) (hhead : record.batch.head = none)
    (hroom : record.batch.remaining ≠ 0) {x : α} (hx : history.elements.get? taken = some x) :
    history.AnswersDue promise size taken past shared record store := by
  have sound := accounts.sound record hrecord
  have asks := sound.asks_iff.mpr ⟨hhead, hroom⟩
  have hdue : record.due history.elements size taken = some x :=
    (asks.due_eq history.elements taken).trans hx
  obtain ⟨cursor, store', hnext, reads⟩ := accounts.reads.next_some hx
  have hcalls := accounts.reads.calls_some reads hx
  have hnumber : List.range' store.2 (store'.2 - store.2) = [taken] := by
    rw [hcalls.2, Nat.add_sub_cancel_left, accounts.reads.calls_eq,
      accounts.reads.past_eq_zero hx, promise.passedOn_zero, Nat.add_zero, List.range'_one]
  refine ⟨{ record.batch with remaining := record.batch.remaining - 1 }, cursor, taken + 1, 0,
    store', ?_, reads, Nat.le_succ taken, ?_, ?_, ?_, ?_, .inl ⟨⟨asks, hcalls.1⟩, hcalls.2⟩⟩
  · simp [hdue, Batch.next, hhead, hroom, Run.bind_apply, hnext]
  · rw [hdue, hnumber]
    exact sound.fetch hhead hroom hx fun n hn => accounts.fetched_lt hrecord hn
  · simp [hdue, BatchRecord.answered, hnumber]
  · rw [hdue]
    intro hended
    exact absurd (sound.closed hended).2 hroom
  · intro met
    exact absurd (accounts.reads.past_eq_zero hx) (Nat.pos_iff_ne_zero.mp met)

/-- A batch with room ends with the upstream. -/
lemma answer_none (accounts : history.Accounts promise size taken past shared store)
    (hrecord : record ∈ shared.records) (hhead : record.batch.head = none)
    (hroom : record.batch.remaining ≠ 0) (hx : history.elements.get? taken = none) :
    history.AnswersDue promise size taken past shared record store := by
  have sound := accounts.sound record hrecord
  have asks := sound.asks_iff.mpr ⟨hhead, hroom⟩
  have hdue : record.due history.elements size taken = none :=
    (asks.due_eq history.elements taken).trans hx
  obtain ⟨cursor, store', hnext, reads⟩ := accounts.reads.next_none hx
  have hcalls := accounts.reads.calls_none reads
  refine ⟨{ record.batch with remaining := 0 }, cursor, taken, past + 1, store', ?_, reads,
    le_rfl, ?_, ?_, fun _ _ => Nat.succ_pos past, fun met => ⟨Nat.succ_pos past, ?_⟩, ?_⟩
  · simp [hdue, Batch.next, hhead, hroom, Run.bind_apply, hnext]
  · rw [hdue]
    exact sound.finish hhead _
  · simp [hdue, BatchRecord.answered]
  · rintro rfl
    exact accounts.reads.store_of_met reads met (Nat.succ_pos past)
  · simpa [asks] using hcalls

lemma answer (accounts : history.Accounts promise size taken past shared store)
    (hrecord : record ∈ shared.records) :
    history.AnswersDue promise size taken past shared record store := by
  cases hhead : record.batch.head with
  | some x => exact accounts.answer_head hrecord hhead
  | none =>
    by_cases hroom : record.batch.remaining = 0
    · exact accounts.answer_full hrecord hhead hroom
    · cases hx : history.elements.get? taken with
      | some x => exact accounts.answer_some hrecord hhead hroom hx
      | none => exact accounts.answer_none hrecord hhead hroom hx

end Answer

/-- A new batch holds the element that was pulled for it. -/
lemma make_some (accounts : history.Accounts promise size taken past shared store) {x : α}
    (hx : history.elements.get? taken = some x) :
    history.StepsDue promise size taken past shared store .make := by
  obtain ⟨cursor, store', hnext, reads⟩ := accounts.reads.next_some hx
  have hcalls := accounts.reads.calls_some reads hx
  have htaken : store.2 = taken := by
    rw [accounts.reads.calls_eq, accounts.reads.past_eq_zero hx, promise.passedOn_zero,
      Nat.add_zero]
  have hdue : shared.due history.elements size taken .make = .made := by
    simp [SharedBatches.due, hx]
  refine ⟨⟨{ shared.batches with cursor }, shared.records ++
    [⟨⟨some x, shared.batches.size - 1⟩, [taken], [], false⟩]⟩, taken + 1, 0, store',
    ?_, ⟨accounts.size_eq, reads, ?_, ?_, ?_⟩, ⟨?_, ?_⟩, ?_,
    .inl ⟨⟨trivial, hcalls.1⟩, hcalls.2⟩⟩
  · simp [hdue, SharedBatches.perform, Batches.next, Run.bind_apply, Run.get_apply, hnext,
      htaken]
  · rw [List.flatMap_append, List.range_succ]
    exact accounts.split.append_right [taken]
  · intro record hrecord
    rcases List.mem_append.mp hrecord with old | new
    · exact accounts.sound record old
    · obtain rfl := List.mem_singleton.mp new
      have hpos := shared.batches.size_pos
      have hsize := accounts.size_eq
      exact ⟨by simp, by simp [hx], by simp, by simp; omega, by simp; omega, by simp⟩
  · intro record hrecord hended hshort
    rcases List.mem_append.mp hrecord with old | new
    · have met := accounts.short record old hended hshort
      exact absurd (accounts.reads.past_eq_zero hx) (Nat.pos_iff_ne_zero.mp met)
    · obtain rfl := List.mem_singleton.mp new
      cases hended
  · intro met
    exact absurd (accounts.reads.past_eq_zero hx) (Nat.pos_iff_ne_zero.mp met)
  · rintro number ⟨record, hrecord, hended⟩
    refine ⟨⟨record, ?_, hended⟩, by simp⟩
    rw [List.getElem?_append_left (List.getElem?_eq_some_iff.mp hrecord).1]
    exact hrecord
  · rintro - y hy
    obtain rfl : x = y := Option.some.inj (hx.symm.trans hy)
    exact ⟨_, rfl, rfl⟩

/-- Behind the last element there is no batch any more. -/
lemma make_none (accounts : history.Accounts promise size taken past shared store)
    (hx : history.elements.get? taken = none) :
    history.StepsDue promise size taken past shared store .make := by
  obtain ⟨cursor, store', hnext, reads⟩ := accounts.reads.next_none hx
  have hcalls := accounts.reads.calls_none reads
  have hdue : shared.due history.elements size taken .make = .exhausted := by
    simp [SharedBatches.due, hx]
  refine ⟨⟨{ shared.batches with cursor }, shared.records⟩, taken, past + 1, store', ?_,
    ⟨accounts.size_eq, reads, accounts.split, accounts.sound, fun _ _ _ _ => Nat.succ_pos past⟩,
    ⟨fun met => ⟨Nat.succ_pos past, ?_, rfl, by simp [hdue]⟩, ?_⟩, ?_, ?_⟩
  · simp [hdue, SharedBatches.perform, Batches.next, Run.bind_apply, Run.get_apply, hnext]
  · rintro rfl
    exact accounts.reads.store_of_met reads met (Nat.succ_pos past)
  · intro number closed
    exact ⟨closed, by simp⟩
  · rintro - x hsome
    cases hx.symm.trans hsome
  · simpa [SharedBatches.Asks] using hcalls

section Next

variable {number : Nat}

/-- Asking for a batch that is not there changes nothing. -/
lemma next_absent (accounts : history.Accounts promise size taken past shared store)
    (hrecord : shared.records[number]? = none) :
    history.StepsDue promise size taken past shared store (.next number) := by
  have hdue : shared.due history.elements size taken (.next number) = .absent := by
    simp [SharedBatches.due, hrecord]
  have noCall : ¬ (shared.Asks size (.next number) ∧ promise.PassesOn past) := by
    rintro ⟨⟨record, hsome, -⟩, -⟩
    cases hrecord.symm.trans hsome
  refine ⟨shared, taken, past, store, by simp [hdue, SharedBatches.perform, hrecord], accounts,
    ⟨fun met => ⟨met, fun _ => rfl, rfl, by simp⟩, ?_⟩, by simp, .inr ⟨noCall, rfl⟩⟩
  rintro other ⟨record, hother, hended⟩
  refine ⟨⟨record, hother, hended⟩, ?_⟩
  simp only [List.mem_singleton, forall_eq, BatchStep.next.injEq]
  rintro rfl
  cases hrecord.symm.trans hother

/-- A batch that is asked answers for itself, and the others are left as they are. -/
lemma next_record (accounts : history.Accounts promise size taken past shared store)
    {record : BatchRecord α} (hrecord : shared.records[number]? = some record) :
    history.StepsDue promise size taken past shared store (.next number) := by
  have hmem := List.mem_of_getElem? hrecord
  have hdue : shared.due history.elements size taken (.next number) =
      .element (record.due history.elements size taken) := by
    simp [SharedBatches.due, hrecord]
  have hasks : shared.Asks size (.next number) ↔ record.Asks size := by
    simp [SharedBatches.Asks, hrecord]
  obtain ⟨batch, cursor, taken', past', store', hnext, answered⟩ := accounts.answer hmem
  refine ⟨⟨{ shared.batches with cursor }, shared.records.set number
    (record.answered (record.due history.elements size taken) batch
      (List.range' store.2 (store'.2 - store.2)))⟩, taken', past', store', ?_,
    ⟨accounts.size_eq, answered.reads, ?_, ?_, ?_⟩, ⟨?_, ?_⟩, by simp,
    by simpa [hasks] using answered.calls⟩
  · simp [hdue, SharedBatches.perform, hrecord, Run.bind_apply, Run.map_apply, Run.get_apply,
      hnext]
  · rw [← range_append_range' answered.taken_le]
    exact (flatMap_fetched_set hrecord answered.fetched_eq).trans
      (accounts.split.append_right _)
  · intro other hother
    rcases List.mem_or_eq_of_mem_set hother with old | rfl
    · exact accounts.sound other old
    · exact answered.sound
  · intro other hother hended hshort
    rcases List.mem_or_eq_of_mem_set hother with old | rfl
    · exact (answered.stays (accounts.short other old hended hshort)).1
    · exact answered.short hended hshort
  · intro met
    exact ⟨(answered.stays met).1, (answered.stays met).2, by simp, by simp⟩
  · rintro other ⟨old, hold, hended⟩
    by_cases hsame : number = other
    · subst hsame
      obtain rfl : record = old := Option.some.inj (hrecord.symm.trans hold)
      have hlt := (List.getElem?_eq_some_iff.mp hrecord).1
      rw [hdue, accounts.due_of_ended hmem hended]
      exact ⟨⟨_, List.getElem?_set_self hlt, rfl⟩, by simp⟩
    · refine ⟨⟨old, ?_, hended⟩, by simp [hsame]⟩
      rw [List.getElem?_set_ne hsame]
      exact hold

end Next

lemma perform (accounts : history.Accounts promise size taken past shared store)
    (step : BatchStep) : history.StepsDue promise size taken past shared store step := by
  cases step with
  | make =>
    cases hx : history.elements.get? taken with
    | some x => exact accounts.make_some hx
    | none => exact accounts.make_none hx
  | next number =>
    cases hrecord : shared.records[number]? with
    | none => exact accounts.next_absent hrecord
    | some record => exact accounts.next_record hrecord

/-- The same after any number of steps. -/
lemma performAll (accounts : history.Accounts promise size taken past shared store)
    (steps : List BatchStep) :
    ∃ log shared' taken' past' store',
      Traversals.performAll (SharedBatches.perform promise pull) steps shared store =
        some ((log, shared'), store') ∧
      history.Accounts promise size taken' past' shared' store' ∧
      SharedBatches.Since promise past shared store log past' shared' store' := by
  induction steps generalizing taken past shared store with
  | nil => exact ⟨[], shared, taken, past, store, rfl, accounts, .refl⟩
  | cons step steps ih =>
    obtain ⟨shared₁, taken₁, past₁, store₁, hstep, leads⟩ := accounts.perform step
    obtain ⟨log, shared₂, taken₂, past₂, store₂, hrest, accounts₂, since₂⟩ := ih leads.accounts
    refine ⟨(step, _) :: log, shared₂, taken₂, past₂, store₂, ?_, accounts₂,
      leads.since.trans since₂⟩
    simp [Traversals.performAll, Run.bind_apply, Run.map_apply, hstep, hrest]

end Accounts

end History

end Traversals
