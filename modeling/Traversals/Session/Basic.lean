import Traversals.Expression.Builder
import Traversals.Session.Question

/-!
# Sessions

A session holds named slots over a shared store and performs steps one at a
time. Each step has one reply; the events it causes are in the log afterwards.
A step that is refused leaves the slots as they were.
-/

namespace Traversals

inductive Step where
  | build (name : String) (source : Expression)
  | memoize (name : String) (source : Expression)
  | batch (name : String) (source : Expression) (size : Nat)
  | product (name : String) (sources : List Expression)
  | comprehension (name : String) (mapper : Mapper) (predicates : List Predicate)
      (source : Expression)
  | builder (name : String) (calls : List BuilderCall) (source : Expression)
  | ask (question : Question) (source : Expression)
  | next (slot : String)
  | pull (slot : String) (count : Nat)
  | nth (slot : String) (index : Nat)
  | hint (slot : String)
  | inspect (slot : String)
  | bufferedLength (slot : String)
  | copy (name slot : String)
  | traverse (name slot : String)
  | nextBatch (name slot : String)
  | discard (slot : String)

inductive Reply where
  | done
  /-- There is no further batch. -/
  | nothing
  /-- There is no suitable slot of that name. -/
  | absent
  | refused (error : BuildError)
  | value (value : Value)
  | element (element : Option Value)
  | elements (elements : List (Option Value))
  | hint (hint : SizeHint)
  | width (n : Nat)
  | predicateCount (n : Nat)
  /-- The texts of a builder from its start on, and what became of it. -/
  | builder (texts : List String) (outcome : Reply)
  | outOfBudget

structure Session where
  store : Store := {}
  slots : Slots := []

namespace Reply

def ofRefusal : Refusal → Reply
  | .absent => absent
  | .invalid error => refused error

def ofAnswer : Answer → Reply
  | .value v => value v
  | .element x => element x
  | .refused error => refused error

end Reply

namespace Session

variable {α : Type}

def setSlot (session : Session) (name : String) (slot : Slot) : Session :=
  { session with slots := session.slots.set name slot }

/-- Continues with what is built, unless it is refused. -/
def built (session : Session) (building : Building α) (use : α → Session → Reply × Session) :
    Reply × Session :=
  match building session.store with
  | .error refusal => (.ofRefusal refusal, session)
  | .ok (x, store) => use x { session with store }

/-- Continues with what a run gives, unless its budget is used up. -/
def ran (session : Session) (run : Run Store α) (use : α → Session → Reply × Session) :
    Reply × Session :=
  match run session.store with
  | none => (.outOfBudget, session)
  | some (x, store) => use x { session with store }

/-- Runs a request on the traversal in a slot, a pipeline or a batch, and puts
the traversal back. -/
def onTraversal (session : Session) (budget : Nat) (name : String)
    (request : {τ : Type} → Pull Store τ Value → τ → Run Store (Reply × τ)) :
    Reply × Session :=
  match session.slots.find name with
  | some (.pipeline pipeline) =>
      session.ran (request (Pipeline.next budget) pipeline) fun (reply, pipeline) session =>
        (reply, session.setSlot name (.pipeline pipeline))
  | some (.batch place batch) =>
      session.ran (request (pullBatch (Pipeline.next budget) place) batch)
        fun (reply, batch) session => (reply, session.setSlot name (.batch place batch))
  | _ => (.absent, session)

def hintOf (session : Session) (name : String) : Reply :=
  match session.slots.find name with
  | some (.pipeline pipeline) => .hint pipeline.hint
  | some (.batches _) => .hint .unknown
  | some (.batch _ _) => .hint .unknown
  | _ => .absent

/-- The text of what a slot holds. -/
def inspect (session : Session) (name : String) : Option String :=
  match session.slots.find name with
  | none => none
  | some (.pipeline pipeline) => some pipeline.inspect
  | some (.memo place) => session.store.memos[place]?.map Memo.inspect
  | some (.batches place) => session.store.batches[place]?.map Batches.inspect
  | some (.batch _ batch) => some batch.inspect

def bufferedLength (session : Session) (name : String) : Option Nat :=
  match session.slots.find name with
  | some (.memo place) => session.store.memos[place]?.map Memo.bufferedLength
  | _ => none

/-- A copy of a slot. Batches and what is cut from them cannot be copied. -/
def copied (session : Session) (name : String) : Option Slot :=
  match session.slots.find name with
  | some (.pipeline pipeline) => some (.pipeline pipeline)
  | some (.memo place) => some (.memo place)
  | _ => none

/-- A new traversal of a slot: a memo from its first element, a pipeline from
where it stands. -/
def traversed (session : Session) (name : String) : Option Slot :=
  match session.slots.find name with
  | some (.pipeline pipeline) => some (.pipeline pipeline)
  | some (.memo place) => some (.pipeline (.ofMemo place))
  | _ => none

def replyText (session : Session) : Option String → Reply × Session
  | none => (.absent, session)
  | some text => (.value (.text text), session)

def putCopy (session : Session) (name : String) : Option Slot → Reply × Session
  | none => (.absent, session)
  | some slot => (.done, session.setSlot name slot)

/-- The reply to a step. The log is that of the step alone. -/
def perform (budget : Nat) (step : Step) (before : Session) : Reply × Session :=
  let session := { before with store := before.store.withoutLog }
  match step with
  | .build name source =>
      session.built (source.build session.slots) fun pipeline session =>
        (.done, session.setSlot name (.pipeline pipeline))
  | .memoize name source =>
      session.built
        (do
          let input ← source.build session.slots
          Building.addMemo input)
        fun place session => (.done, session.setSlot name (.memo place))
  | .batch name source size =>
      session.built
        (do
          let input ← source.build session.slots
          let batches ← Building.ofExcept (Batches.make input size)
          Building.addBatches batches)
        fun place session => (.done, session.setSlot name (.batches place))
  | .product name sources =>
      session.built (Expression.buildAll session.slots sources) fun sources session =>
        let product := CartesianProduct.ofSources sources
        (.width product.width, session.setSlot name (.pipeline (.product product)))
  | .comprehension name mapper predicates source =>
      session.built
        (do
          let input ← source.build session.slots
          comprehensionOver mapper predicates input)
        fun stage session =>
          (.predicateCount stage.predicateCount,
            session.setSlot name (.pipeline (.comprehension stage)))
  | .builder name calls source =>
      session.built (source.build session.slots) fun input session =>
        let ((texts, builder), store) := ComprehensionBuilder.performAll {} calls session.store
        let (outcome, session) := { session with store }.built
          (Building.ofExcept (builder.build input))
          fun stage session =>
            (.predicateCount stage.predicateCount,
              session.setSlot name (.pipeline (.comprehension stage)))
        (.builder texts outcome, session)
  | .ask question source =>
      session.built (source.build session.slots) fun pipeline session =>
        session.ran (question.answer budget pipeline) fun answer session =>
          (.ofAnswer answer, session)
  | .next slot =>
      session.onTraversal budget slot fun pull traversal => do
        let (answer, traversal) ← pull traversal
        return (.element answer, traversal)
  | .pull slot count =>
      session.onTraversal budget slot fun pull traversal => do
        let (answers, traversal) ← pulls pull count traversal
        return (.elements answers, traversal)
  | .nth slot index =>
      session.onTraversal budget slot fun pull traversal => do
        let (answer, traversal) ← Traversals.nth pull index traversal
        return (.element answer, traversal)
  | .hint slot => (session.hintOf slot, session)
  | .inspect slot => session.replyText (session.inspect slot)
  | .bufferedLength slot =>
      match session.bufferedLength slot with
      | none => (.absent, session)
      | some n => (.value (.int n), session)
  | .copy name slot => session.putCopy name (session.copied slot)
  | .traverse name slot => session.putCopy name (session.traversed slot)
  | .nextBatch name slot =>
      match session.slots.find slot with
      | some (.batches place) =>
          session.ran (Traversals.nextBatch (Pipeline.next budget) place) fun batch session =>
            match batch with
            | none => (.nothing, session)
            | some batch => (.done, session.setSlot name (.batch place batch))
      | _ => (.absent, session)
  | .discard slot =>
      match session.slots.find slot with
      | none => (.absent, session)
      | some _ => (.done, { session with slots := session.slots.erase slot })

end Session

end Traversals
