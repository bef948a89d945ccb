import Traversals.Product.Rows
import Traversals.Proofs.Product.Nested
import Traversals.Proofs.SharedBatches
import Traversals.Proofs.SharedMemo
import Traversals.Stage.SubSequence
import Traversals.Zip.All
import Traversals.Zip.Enumerate

/-!
# Ends are final

An adaptor that has answered an end answers ends from then on and leaves its
input alone, also where the input would deliver again. Each adaptor has states
of its own from which nothing is asked any more, and an end always leads to one
of them. Nothing is known of the input, and between two steps anything may
happen to the store. Only what is fused goes on asking an input that has promised
to stay ended: new batches and memos then ask it once for each of their ends.
-/

namespace Traversals

variable {ω ι ρ σ τ υ α β : Type}

/-- The replies to some steps in a row. Each step may meet another store than
the one that the step before it has left. -/
inductive Replies (perform : ι → σ → Run ω (ρ × σ)) : σ → List (ι × ρ) → σ → Prop
  | done (state : σ) : Replies perform state [] state
  | step {step : ι} {reply : ρ} {state state₁ state₂ : σ} {store store' : ω}
      {log : List (ι × ρ)}
      (performed : perform step state store = some ((reply, state₁), store'))
      (rest : Replies perform state₁ log state₂) :
      Replies perform state ((step, reply) :: log) state₂

section Final

variable {perform : ι → σ → Run ω (ρ × σ)} {start : σ} {step : ι} {reply : ρ}

lemma Replies.keeps {Kept : σ → Prop}
    (keeps : ∀ {step reply state store state' store'}, Kept state →
      perform step state store = some ((reply, state'), store') → Kept state')
    {state state' : σ} {log : List (ι × ρ)} (replies : Replies perform state log state')
    (kept : Kept state) : Kept state' := by
  induction replies with
  | done _ => exact kept
  | step performed _ ih => exact ih (keeps kept performed)

/-- If a reply leads from any good state to states that all steps keep, such a
state is met from then on. -/
lemma Replies.leads (Good Over : σ → Prop) {log : List (ι × ρ)} {state : σ}
    (replies : Replies perform start log state) (good : Good start)
    (keeps_good : ∀ {step reply state store state' store'}, Good state →
      perform step state store = some ((reply, state'), store') → Good state')
    (ends : ∀ {state store state' store'}, Good state →
      perform step state store = some ((reply, state'), store') → Over state')
    (keeps_over : ∀ {step reply state store state' store'}, Over state →
      perform step state store = some ((reply, state'), store') → Over state')
    (hmem : (step, reply) ∈ log) : Over state := by
  induction replies with
  | done state => cases hmem
  | step performed rest ih =>
    rcases List.mem_cons.mp hmem with hfirst | hlater
    · obtain ⟨rfl, rfl⟩ := Prod.mk.inj hfirst
      exact rest.keeps keeps_over (ends good performed)
    · exact ih (keeps_good good performed) hlater

end Final

section Stages

variable {pull : Pull ω τ α}

/-- No more answers are to be given. -/
lemma SubSequence.ends {stage stage' : SubSequence τ} {store store' : ω}
    (hnext : SubSequence.next pull stage store = some ((none, stage'), store')) :
    stage'.remaining = some 0 := by
  unfold SubSequence.next at hnext
  split at hnext
  · cases hnext
    assumption
  · obtain ⟨⟨element, input⟩, store₁, -, hrest⟩ := Run.bind_eq_some_iff.mp hnext
    cases element with
    | none => cases hrest; rfl
    | some x => cases hrest

@[simp] lemma SubSequence.next_spent {stage : SubSequence τ} (spent : stage.remaining = some 0)
    (store : ω) : SubSequence.next pull stage store = some ((none, stage), store) := by
  simp [SubSequence.next, spent]

lemma ZipAll.ends {zip zip' : ZipAll τ} {store store' : ω}
    (hnext : ZipAll.next pull zip store = some ((none, zip'), store')) :
    zip'.exhausted = true := by
  unfold ZipAll.next at hnext
  split at hnext
  · cases hnext
    assumption
  · obtain ⟨⟨row, traversals⟩, store₁, -, hrest⟩ := Run.bind_eq_some_iff.mp hnext
    cases hrest
    rfl

lemma Zip.ends {n : Nat} {zip zip' : Zip n τ} {store store' : ω}
    (hnext : Zip.next pull zip store = some ((none, zip'), store')) :
    zip'.exhausted = true := by
  unfold Zip.next at hnext
  split at hnext
  · cases hnext
    assumption
  · obtain ⟨⟨row, traversals⟩, store₁, -, hrest⟩ := Run.bind_eq_some_iff.mp hnext
    cases hrest
    rfl

/-- The counter may run out before the input, which is then not asked. -/
lemma Enumerate.ends {stage stage' : Enumerate τ} {store store' : ω}
    (hnext : Enumerate.next pull stage store = some ((none, stage'), store')) :
    stage'.exhausted = true := by
  by_cases hexhausted : stage.exhausted = true
  · simp only [Enumerate.next, hexhausted, if_true] at hnext
    cases hnext
    exact hexhausted
  · rcases hcounter : stage.counter.next with ⟨index, counter⟩
    simp only [Enumerate.next, hexhausted, hcounter] at hnext
    cases index with
    | none => cases hnext; rfl
    | some index =>
      obtain ⟨⟨element, input⟩, store₁, -, hrest⟩ := Run.bind_eq_some_iff.mp hnext
      cases element with
      | none => cases hrest; rfl
      | some value => cases hrest

end Stages

section Products

variable {start : Start ω σ τ} {pull : Pull ω τ α}

lemma PairProduct.ends_first {start : Start ω σ υ} {pullTail : Pull ω υ β}
    {product product' : PairProduct τ σ υ α} {store store' : ω}
    (hnext : PairProduct.first pull start pullTail product store =
      some ((none, product'), store')) : product'.phase = .exhausted := by
  unfold PairProduct.first at hnext
  obtain ⟨tail, store₁, -, hnext⟩ := Run.bind_eq_some_iff.mp hnext
  obtain ⟨⟨right, tail⟩, store₂, -, hnext⟩ := Run.bind_eq_some_iff.mp hnext
  cases right with
  | none => cases hnext; rfl
  | some right =>
    obtain ⟨⟨left, head⟩, store₃, -, hnext⟩ := Run.bind_eq_some_iff.mp hnext
    cases left with
    | none => cases hnext; rfl
    | some left => cases hnext

/-- A row that does not come leaves only the way to the head's end. -/
lemma PairProduct.ends_later {start : Start ω σ υ} {pullTail : Pull ω υ β} {budget : Nat}
    {product product' : PairProduct τ σ υ α} {store store' : ω}
    (hnext : PairProduct.later pull start pullTail budget product store =
      some ((none, product'), store')) : product'.phase = .exhausted := by
  induction budget generalizing product store with
  | zero => cases hnext
  | succ budget ih =>
    unfold PairProduct.later at hnext
    obtain ⟨⟨row, product₁⟩, store₁, -, hnext⟩ := Run.bind_eq_some_iff.mp hnext
    cases row with
    | some row => cases hnext
    | none =>
      obtain ⟨⟨left, head⟩, store₂, -, hnext⟩ := Run.bind_eq_some_iff.mp hnext
      cases left with
      | none => cases hnext; rfl
      | some left =>
        obtain ⟨tail, store₃, -, hnext⟩ := Run.bind_eq_some_iff.mp hnext
        exact ih hnext

lemma PairProduct.ends {start : Start ω σ υ} {pullTail : Pull ω υ β} {budget : Nat}
    {product product' : PairProduct τ σ υ α} {store store' : ω}
    (hnext : PairProduct.next pull start pullTail budget product store =
      some ((none, product'), store')) : product'.phase = .exhausted := by
  cases hphase : product.phase with
  | exhausted => simp only [PairProduct.next, hphase] at hnext; cases hnext; exact hphase
  | fresh => simp only [PairProduct.next, hphase] at hnext; exact ends_first hnext
  | running => simp only [PairProduct.next, hphase] at hnext; exact ends_later hnext

/-- The product has no row at hand and nothing to pull one from. -/
def CartesianProduct.Over (product : CartesianProduct σ τ α) : Prop :=
  product.phase = .exhausted ∨ product.phase = .running ∧ product.root = none

lemma CartesianProduct.ends_first {product product' : CartesianProduct σ τ α} {store store' : ω}
    (hnext : CartesianProduct.first start pull product store =
      some ((none, product'), store')) : product'.phase = .exhausted := by
  unfold CartesianProduct.first at hnext
  cases hsources : product.sources with
  | nil =>
    simp only [hsources] at hnext
    cases hnext
    rfl
  | cons source others =>
    simp only [hsources] at hnext
    obtain ⟨primed, store₁, -, hnext⟩ := Run.bind_eq_some_iff.mp hnext
    cases primed with
    | none => cases hnext; rfl
    | some primed => cases hnext

lemma CartesianProduct.ends_later {budget : Nat} {product product' : CartesianProduct σ τ α}
    {store store' : ω} (running : product.phase = .running)
    (hnext : CartesianProduct.later start pull budget product store =
      some ((none, product'), store')) : product'.Over := by
  cases hroot : product.root with
  | none =>
    simp only [CartesianProduct.later, hroot] at hnext
    cases hnext
    exact .inr ⟨running, hroot⟩
  | some root =>
    simp only [CartesianProduct.later, hroot] at hnext
    obtain ⟨⟨⟨filled, row⟩, root⟩, store₁, -, hnext⟩ := Run.bind_eq_some_iff.mp hnext
    cases filled with
    | false => cases hnext; exact .inl rfl
    | true => cases hnext

lemma CartesianProduct.ends {budget : Nat} {product product' : CartesianProduct σ τ α}
    {store store' : ω}
    (hnext : CartesianProduct.next start pull budget product store =
      some ((none, product'), store')) : product'.Over := by
  cases hphase : product.phase with
  | exhausted =>
    simp only [CartesianProduct.next, hphase] at hnext
    cases hnext
    exact .inl hphase
  | fresh =>
    simp only [CartesianProduct.next, hphase] at hnext
    exact .inl (ends_first hnext)
  | running =>
    simp only [CartesianProduct.next, hphase] at hnext
    exact ends_later hphase hnext

lemma CartesianProduct.next_over {budget : Nat} {product : CartesianProduct σ τ α}
    (finished : product.Over) (store : ω) :
    CartesianProduct.next start pull budget product store = some ((none, product), store) := by
  rcases finished with hphase | ⟨hphase, hroot⟩
  · simp [CartesianProduct.next, hphase]
  · simp [CartesianProduct.next, CartesianProduct.later, hphase, hroot]

end Products

section Cursors

/-- An input whose end is final: it is over once it has answered an end, and then
answers ends only, whatever happens to the store in between. -/
structure StaysEnded (pull : Pull ω τ α) (Over : τ → Prop) : Prop where
  ends : ∀ {traversal store traversal' store'},
    pull traversal store = some ((none, traversal'), store') → Over traversal'
  stays : ∀ {traversal}, Over traversal → ∀ store, ∃ traversal' store',
    pull traversal store = some ((none, traversal'), store') ∧ Over traversal'

lemma StaysEnded.counting {pull : Pull ω τ α} {Over : τ → Prop} (stays : StaysEnded pull Over) :
    StaysEnded (counted pull) Over where
  ends hpull := stays.ends (counted_eq_some_iff.mp hpull).1
  stays finished store := by
    obtain ⟨traversal, store', hpull, finished'⟩ := stays.stays finished store.1
    exact ⟨traversal, (store', store.2 + 1), counted_eq_some_iff.mpr ⟨hpull, rfl⟩, finished'⟩

namespace Fused

variable {promise : Promise} {pull : Pull ω τ α} {Over : τ → Prop} {fused fused' : Fused τ}
  {answer : Option α} {store store' : ω}

/-- The cursor still has its input. -/
def Held (fused : Fused τ) : Prop := ∃ traversal, fused = .live traversal

/-- The cursor still has its input, which is over. -/
def Past (Over : τ → Prop) (fused : Fused τ) : Prop :=
  ∃ traversal, fused = .live traversal ∧ Over traversal

/-- From such a state of it, the cursor only answers ends. -/
def Lasting (promise : Promise) (pull : Pull ω τ α) (Closed : Fused τ → Prop) : Prop :=
  ∀ {fused fused' : Fused τ} {answer : Option α} {store store' : ω}, Closed fused →
    next promise pull fused store = some ((answer, fused'), store') →
      answer = none ∧ Closed fused'

/-- An input that has promised to stay ended is never let go. -/
lemma Held.next (held : fused.Held)
    (hnext : Fused.next .staysEnded pull fused store = some ((answer, fused'), store')) :
    fused'.Held := by
  obtain ⟨traversal, rfl⟩ := held
  obtain ⟨⟨element, traversal'⟩, store₁, -, hrest⟩ := Run.bind_eq_some_iff.mp hnext
  cases element with
  | none => cases hrest; exact ⟨traversal', rfl⟩
  | some x => cases hrest; exact ⟨traversal', rfl⟩

lemma Held.past (held : fused.Held) (stays : StaysEnded pull Over)
    (hnext : Fused.next .staysEnded pull fused store = some ((none, fused'), store')) :
    fused'.Past Over := by
  obtain ⟨traversal, rfl⟩ := held
  obtain ⟨⟨element, traversal'⟩, store₁, hpull, hrest⟩ := Run.bind_eq_some_iff.mp hnext
  cases element with
  | none => cases hrest; exact ⟨traversal', rfl, stays.ends hpull⟩
  | some x => cases hrest

lemma Past.next (past : fused.Past Over) (stays : StaysEnded pull Over) (store : ω) :
    ∃ traversal traversal' store', fused = .live traversal ∧
      pull traversal store = some ((none, traversal'), store') ∧
      Fused.next .staysEnded pull fused store = some ((none, .live traversal'), store') ∧
      Over traversal' := by
  obtain ⟨traversal, rfl, finished⟩ := past
  obtain ⟨traversal', store', hpull, finished'⟩ := stays.stays finished store
  refine ⟨traversal, traversal', store', rfl, hpull, ?_, finished'⟩
  simp [Fused.next, Fused.live, Fused.afterEnd, Run.bind_apply, hpull]

/-- Behind its end, an input that has promised to stay ended is asked each time. -/
lemma Past.asks (past : fused.Past Over) (stays : StaysEnded pull Over) (store : ω)
    (calls : Nat) : ∃ fused' store', Fused.next .staysEnded (counted pull) fused (store, calls) =
      some ((none, fused'), (store', calls + 1)) := by
  obtain ⟨_, traversal, ⟨store', calls'⟩, -, hpull, hnext, -⟩ :=
    past.next stays.counting (store, calls)
  obtain rfl : calls' = calls + 1 := (counted_eq_some_iff.mp hpull).2
  exact ⟨.live traversal, store', hnext⟩

end Fused

end Cursors

section Shared

variable {promise : Promise} {pull : Pull ω τ α}

/-- A batch that answers an end has nothing left. -/
lemma Batch.ends {batch batch' : Batch α} {batches batches' : Batches τ} {store store' : ω}
    (hnext : Batch.next promise pull (batch, batches) store =
      some ((none, (batch', batches')), store')) : batch'.head = none ∧ batch'.remaining = 0 := by
  cases hhead : batch.head with
  | some x =>
    simp only [Batch.next, hhead] at hnext
    cases hnext
  | none =>
    by_cases hroom : batch.remaining = 0
    · simp only [Batch.next, hhead, hroom, if_true] at hnext
      cases hnext
      exact ⟨hhead, hroom⟩
    · simp only [Batch.next, hhead, hroom, if_false] at hnext
      obtain ⟨⟨element, cursor⟩, store₁, -, hrest⟩ := Run.bind_eq_some_iff.mp hnext
      cases hrest
      exact ⟨rfl, rfl⟩

namespace SharedBatches

/-- A new batch is put behind the others, if there is one. -/
lemma perform_make {shared shared' : SharedBatches τ α} {reply : BatchReply α}
    {store store' : ω × Nat}
    (hmake : perform promise pull .make shared store = some ((reply, shared'), store')) :
    ∃ element cursor more, Fused.next promise (counted pull) shared.batches.cursor store =
        some ((element, cursor), store') ∧
      (reply = .exhausted → element = none) ∧
      shared' = ⟨{ shared.batches with cursor }, shared.records ++ more⟩ := by
  obtain ⟨before, store₁, hget, hmake⟩ := Run.bind_eq_some_iff.mp hmake
  cases hget
  obtain ⟨⟨batch, batches⟩, store₂, hbatch, hmake⟩ := Run.bind_eq_some_iff.mp hmake
  obtain ⟨⟨element, cursor⟩, store₃, hcursor, hbatch⟩ := Run.bind_eq_some_iff.mp hbatch
  cases element with
  | none =>
    cases hbatch
    cases hmake
    exact ⟨none, cursor, [], hcursor, fun _ => rfl, by simp⟩
  | some x =>
    cases hbatch
    cases hmake
    refine ⟨some x, cursor, _, hcursor, ?_, rfl⟩
    intro h
    cases h

/-- A batch that is asked answers for itself. -/
lemma perform_next {shared shared' : SharedBatches τ α} {reply : BatchReply α} {number : Nat}
    {store store' : ω × Nat}
    (hnext : perform promise pull (.next number) shared store = some ((reply, shared'), store')) :
    shared.records[number]? = none ∧ reply = .absent ∧ shared' = shared ∨
    ∃ record answer batch batches pulls, shared.records[number]? = some record ∧
      Batch.next promise (counted pull) (record.batch, shared.batches) store =
        some ((answer, (batch, batches)), store') ∧
      reply = .element answer ∧
      shared' = ⟨batches, shared.records.set number (record.answered answer batch pulls)⟩ := by
  cases hrecord : shared.records[number]? with
  | none =>
    simp only [perform, hrecord] at hnext
    cases hnext
    exact .inl ⟨rfl, rfl, rfl⟩
  | some record =>
    simp only [perform, hrecord] at hnext
    obtain ⟨before, store₁, hget, hnext⟩ := Run.bind_eq_some_iff.mp hnext
    cases hget
    obtain ⟨⟨answer, batch, batches⟩, store₂, hbatch, hnext⟩ := Run.bind_eq_some_iff.mp hnext
    obtain ⟨after, store₃, hget, hnext⟩ := Run.bind_eq_some_iff.mp hnext
    cases hget
    cases hnext
    exact .inr ⟨record, answer, batch, batches, _, rfl, hbatch, rfl, rfl⟩

/-- The batch of that number has answered an end, and has nothing left. -/
def Drained (number : Nat) (shared : SharedBatches τ α) : Prop :=
  ∃ record, shared.records[number]? = some record ∧ record.batch.head = none ∧
    record.batch.remaining = 0 ∧ record.ended = true

lemma Drained.idle {shared : SharedBatches τ α} {number : Nat} (drained : shared.Drained number)
    (store : ω × Nat) :
    perform promise pull (.next number) shared store = some ((.element none, shared), store) := by
  obtain ⟨record, hrecord, hhead, hroom, hended⟩ := drained
  have hsame : shared.records.set number record = shared.records := by
    obtain ⟨hlt, rfl⟩ := List.getElem?_eq_some_iff.mp hrecord
    exact List.set_getElem_self hlt
  have hanswered : ∀ pulls, record.answered none record.batch pulls = record := by
    intro pulls
    rw [BatchRecord.answered, ← hended]
  simp [perform, Batch.next, hrecord, hhead, hroom, hanswered, hsame, Run.bind_apply,
    Run.get_apply]

lemma Drained.keeps {shared shared' : SharedBatches τ α} {number : Nat} {step : BatchStep}
    {reply : BatchReply α} {store store' : ω × Nat} (drained : shared.Drained number)
    (hstep : perform promise pull step shared store = some ((reply, shared'), store')) :
    shared'.Drained number := by
  cases step with
  | make =>
    obtain ⟨element, cursor, more, hnext, -, rfl⟩ := perform_make hstep
    obtain ⟨record, hrecord, hended⟩ := drained
    have hlt := (List.getElem?_eq_some_iff.mp hrecord).1
    exact ⟨record, (List.getElem?_append_left hlt).trans hrecord, hended⟩
  | next other =>
    by_cases hsame : other = number
    · subst hsame
      rw [drained.idle] at hstep
      cases hstep
      exact drained
    · rcases perform_next hstep with ⟨-, -, rfl⟩ | ⟨_, _, _, _, _, -, -, -, rfl⟩
      · exact drained
      · obtain ⟨record, hrecord, hended⟩ := drained
        exact ⟨record, (List.getElem?_set_ne hsame).trans hrecord, hended⟩

end SharedBatches

namespace SharedMemo

variable {Closed : Fused τ → Prop} {shared shared' : SharedMemo τ α} {number : Nat}
  {store store' : ω}

/-- The traversal of that number stands behind the last element, and the cursor
is in such a state. -/
def Behind (Closed : Fused τ → Prop) (number : Nat) (shared : SharedMemo τ α) : Prop :=
  ∃ position, shared.positions[number]? = some position ∧
    shared.memo.cache[position]? = none ∧ Closed shared.memo.source

/-- The answer is kept already, or it is that of the source, and is then kept. -/
lemma fetch_cases {memo memo' : Memo τ α} {position : Nat} {answer : Option α}
    (hfetch : memo.fetch promise pull position store = some ((answer, memo'), store')) :
    (∃ x, memo.cache[position]? = some x ∧ answer = some x ∧ memo' = memo) ∨
      memo.cache[position]? = none ∧
      Fused.next promise pull memo.source store = some ((answer, memo'.source), store') ∧
      memo'.cache = answer.elim memo.cache memo.cache.push := by
  cases hcached : memo.cache[position]? with
  | some x =>
    simp only [Memo.fetch, hcached] at hfetch
    cases hfetch
    exact .inl ⟨x, rfl, rfl, rfl⟩
  | none =>
    simp only [Memo.fetch, hcached] at hfetch
    obtain ⟨⟨element, source⟩, store₁, hnext, hrest⟩ := Run.bind_eq_some_iff.mp hfetch
    cases element with
    | none => cases hrest; exact .inr ⟨rfl, hnext, rfl⟩
    | some x => cases hrest; exact .inr ⟨rfl, hnext, rfl⟩

/-- Behind the end nothing is added to the memo. -/
lemma fetch_closed (lasting : Fused.Lasting promise pull Closed) {memo memo' : Memo τ α}
    {position : Nat} {answer : Option α} (closed : Closed memo.source)
    (hfetch : memo.fetch promise pull position store = some ((answer, memo'), store')) :
    memo'.cache = memo.cache ∧ Closed memo'.source ∧ answer = memo.cache[position]? := by
  rcases fetch_cases hfetch with ⟨x, hcached, rfl, rfl⟩ | ⟨hcached, hnext, hcache⟩
  · exact ⟨rfl, closed, hcached.symm⟩
  · obtain ⟨rfl, closed'⟩ := lasting closed hnext
    exact ⟨hcache, closed', hcached.symm⟩

/-- Traversals are added, or one of them fetches an element. -/
lemma perform_cases {step : MemoStep} {reply : MemoReply α}
    (hstep : perform promise pull step shared store = some ((reply, shared'), store')) :
    (reply.isEnd = false ∧ ∃ more, shared' = ⟨shared.memo, shared.positions ++ more⟩) ∨
    ∃ traversal position answer memo, step = .next traversal ∧
      shared.positions[traversal]? = some position ∧
      shared.memo.fetch promise pull position store = some ((answer, memo), store') ∧
      reply = .element answer ∧
      shared' = ⟨memo, shared.positions.set traversal (advanced answer position)⟩ := by
  have same : ∃ more, shared = ⟨shared.memo, shared.positions ++ more⟩ := ⟨[], by simp⟩
  cases step with
  | start => cases hstep; exact .inl ⟨rfl, [0], rfl⟩
  | length => cases hstep; exact .inl ⟨rfl, same⟩
  | copy traversal =>
    cases hposition : shared.positions[traversal]? with
    | none => simp only [perform, hposition] at hstep; cases hstep; exact .inl ⟨rfl, same⟩
    | some position =>
      simp only [perform, hposition] at hstep
      cases hstep
      exact .inl ⟨rfl, [position], rfl⟩
  | next traversal =>
    cases hposition : shared.positions[traversal]? with
    | none => simp only [perform, hposition] at hstep; cases hstep; exact .inl ⟨rfl, same⟩
    | some position =>
      simp only [perform, hposition] at hstep
      obtain ⟨⟨answer, memo⟩, store₁, hfetch, hrest⟩ := Run.bind_eq_some_iff.mp hstep
      cases hrest
      exact .inr ⟨traversal, position, answer, memo, rfl, hposition, hfetch, rfl, rfl⟩

/-- Other traversals may still go on to where this one stands. -/
lemma Behind.keeps (lasting : Fused.Lasting promise pull Closed) {step : MemoStep}
    {reply : MemoReply α} (behind : shared.Behind Closed number)
    (hstep : perform promise pull step shared store = some ((reply, shared'), store')) :
    shared'.Behind Closed number := by
  obtain ⟨position, hposition, hcached, closed⟩ := behind
  have hlt := (List.getElem?_eq_some_iff.mp hposition).1
  rcases perform_cases hstep with
    ⟨-, more, rfl⟩ | ⟨other, otherPosition, answer, memo, -, hother, hfetch, -, rfl⟩
  · exact ⟨position, (List.getElem?_append_left hlt).trans hposition, hcached, closed⟩
  · obtain ⟨hcache, closed', hanswer⟩ := fetch_closed lasting closed hfetch
    refine ⟨position, ?_, hcache ▸ hcached, closed'⟩
    by_cases hsame : other = number
    · subst hsame
      obtain rfl : position = otherPosition := Option.some.inj (hposition.symm.trans hother)
      rw [List.getElem?_set_self hlt, hanswer, hcached]
      rfl
    · exact (List.getElem?_set_ne hsame).trans hposition

end SharedMemo

end Shared

/-- The script would go on after its end. -/
example :
    let script : Script Nat := .ofAnswers #[some 1, some 2, none, some 4] none
    (pulls (SubSequence.next fun script : Script Nat => return script.next) 4
      (SubSequence.drop script 1) ()).map (·.1.1) = some [some 2, none, none, none] := by
  rfl

end Traversals
