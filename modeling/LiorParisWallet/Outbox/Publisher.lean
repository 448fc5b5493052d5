import LiorParisWallet.Services.Transfers

/-!
# `OutboxPublisher` and `OutboxService`

The publisher works on the outbox table and on the queue of domain events; the transactions that write
to the outbox appear here as arrivals of events.  Ticks of the cron job may overlap.
-/

namespace LiorParisWallet

open Async Relational

/-- `MAX_RETRIES` -/
def maxRetries : ℕ := 5

/-- A job of the `domain-events` queue. -/
structure DomainEventJob where
  name : DomainEventName
  outboxId : String
  eventName : DomainEventName
  aggregateId : String
  payload : Record
  occurredAt : ℕ
deriving DecidableEq, Repr

/-- What `publishPendingEvents` adds to the queue for the event. -/
def OutboxEvent.job (event : OutboxEvent) : DomainEventJob :=
  { name := event.eventName
    outboxId := event.id
    eventName := event.eventName
    aggregateId := event.aggregateId
    payload := event.payloadJson
    occurredAt := event.occurredAt }

/-- The `where` of `findUnprocessed`. -/
def OutboxEvent.unprocessed (event : OutboxEvent) : Bool :=
  event.processedAt.isNone && decide (event.retryCount < maxRetries)

namespace Outbox

structure World where
  outbox : Table OutboxEvent
  /-- The jobs that were ever added to the queue. -/
  domainEvents : List DomainEventJob
  /-- The jobs that could not be added, each as often as it was tried in vain. -/
  rejected : List DomainEventJob
  /-- `this.processing`: the number of the tick that has set it. -/
  processing : Option ℕ

/-- What the program does not determine: the id and the time, the order in which the database returns
    the unprocessed events, and whether the operation gets through. -/
structure Choice where
  uuid : String := ""
  now : ℕ := 0
  order : List OutboxEvent := []
  fault : Option Err := none

inductive Op where
  /-- `if (this.processing) return; this.processing = true`, answered with whether the tick goes on. -/
  | enter
  /-- `this.processing = false` -/
  | leave
  | findUnprocessed (limit : ℕ)
  | add (job : DomainEventJob)
  | markProcessed (id : String)
  | markFailedAttempt (id : String)
  /-- A transaction of another service commits an event. -/
  | saveOutboxEvent (data : OutboxData)

abbrev Ans : Op → Type
  | .enter => Bool
  | .leave => Unit
  | .findUnprocessed _ => List OutboxEvent
  | .add _ => Unit
  | .markProcessed _ => Unit
  | .markFailedAttempt _ => Unit
  | .saveOutboxEvent _ => Unit

namespace World

def markProcessed (w : World) (id : String) (now : ℕ) : World :=
  { w with
    outbox := w.outbox.update (·.id == id) (fun e => { e with processedAt := some now })
      fun _ _ => rfl }

/-- `increment({ id }, 'retry_count', 1)` -/
def markFailedAttempt (w : World) (id : String) : World :=
  { w with
    outbox := w.outbox.update (·.id == id) (fun e => { e with retryCount := e.retryCount + 1 })
      fun _ _ => rfl }

end World

/-- The unprocessed events in the order of their creation; the database chooses among those that were
    created at the same time. -/
def Ordered (w : World) (order : List OutboxEvent) : Prop :=
  order.Perm (w.outbox.rows.filter (·.unprocessed)) ∧ order.Pairwise (·.createdAt ≤ ·.createdAt)

instance (w : World) (order : List OutboxEvent) : Decidable (Ordered w order) :=
  inferInstanceAs (Decidable (_ ∧ _))

def perform (i : ℕ) : (o : Op) → Choice → World → Option (Except Err (Ans o) × World)
  | .enter, _, w =>
      match w.processing with
      | some _ => some (.ok false, w)
      | none => some (.ok true, { w with processing := some i })
  | .leave, _, w => some (.ok (), { w with processing := none })
  | .findUnprocessed limit, ω, w =>
      match ω.fault with
      | some e => some (.error e, w)
      | none => if Ordered w ω.order then some (.ok (ω.order.take limit), w) else none
  | .add job, ω, w =>
      match ω.fault with
      | some e => some (.error e, { w with rejected := w.rejected ++ [job] })
      | none => some (.ok (), { w with domainEvents := w.domainEvents ++ [job] })
  | .markProcessed id, ω, w =>
      match ω.fault with
      | some e => some (.error e, w)
      | none => some (.ok (), w.markProcessed id ω.now)
  | .markFailedAttempt id, ω, w =>
      match ω.fault with
      | some e => some (.error e, w)
      | none => some (.ok (), w.markFailedAttempt id)
  | .saveOutboxEvent data, ω, w =>
      match ω.fault, Store.insertInto w.outbox (data.create ω.uuid ω.now) with
      | some e, _ => some (.error e, w)
      | none, .error e => some (.error e, w)
      | none, .ok outbox => some (.ok (), { w with outbox := outbox })

/-- An asynchronous function of the publisher. -/
abbrev Promise (α : Type) : Type := Program Op Ans Err α

def await (o : Op) : Promise (Ans o) := .call o

/-- The body of the loop in `publishPendingEvents`. -/
def publishEvent (event : OutboxEvent) : Promise Unit := do
  try
    await (.add event.job)
    await (.markProcessed event.id)
  catch _ =>
    await (.markFailedAttempt event.id)

def publishEvents : List OutboxEvent → Promise Unit
  | [] => pure ()
  | event :: events => do
      publishEvent event
      publishEvents events

def publishPendingEvents : Promise Unit := do
  let entered ← await .enter
  if !entered then
    return
  .finally_ (do
      let events ← await (.findUnprocessed 50)
      if events.length = 0 then
        return
      publishEvents events)
    (await .leave)

inductive Request where
  /-- A tick of the cron job. -/
  | publishPendingEvents
  /-- `settleTransaction` commits. -/
  | depositSucceeded (walletId userId : String) (amount : ℤ) (currency : String)
      (userEmail : Option String) (now : ℕ)
  /-- `executeTransfer` commits. -/
  | transferCompleted (transferId fromUserId toUserId : String) (amount : ℤ)
      (currency fromUserEmail : String) (fromUserName : Option String) (toUser : Option Users)
      (now : ℕ)

def serve : Request → Promise Unit
  | .publishPendingEvents => publishPendingEvents
  | .depositSucceeded walletId userId amount currency userEmail now =>
      await (.saveOutboxEvent
        (buildOutboxPayload .depositSucceeded walletId userId amount currency userEmail now))
  | .transferCompleted transferId fromUserId toUserId amount currency fromUserEmail fromUserName toUser
      now =>
      await (.saveOutboxEvent
        (transferOutboxPayload transferId fromUserId toUserId amount currency fromUserEmail fromUserName
          toUser now))

def server : Server Op Ans Err Request Unit Choice World where
  serve := serve
  perform := perform

abbrev State := System Op Ans Err Request Unit World

/-- Nothing has been published yet, and no tick has begun. -/
structure World.Initial (w : World) : Prop where
  outbox : ∀ e ∈ w.outbox, e.processedAt = none ∧ e.retryCount = 0
  domainEvents : w.domainEvents = []
  rejected : w.rejected = []
  processing : w.processing = none

def World.empty : World := ⟨Table.empty, [], [], none⟩

theorem World.empty_initial : World.empty.Initial :=
  ⟨fun e he => absurd he (Table.not_mem_empty e), rfl, rfl, rfl⟩

/-- A state that some run reaches from an initial world. -/
def Reachable (s : State) : Prop :=
  ∃ w : World, w.Initial ∧ server.Reaches Server.Any ⟨w, []⟩ s

theorem reachable_of_run {ls : List (Label Request Choice)} {s : State}
    (h : server.run ls ⟨World.empty, []⟩ = some s) : Reachable s :=
  ⟨_, World.empty_initial, Server.reaches_of_run h⟩

end Outbox

end LiorParisWallet
