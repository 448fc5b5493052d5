import Mathlib.Logic.Function.Basic
import LiorParisWallet.Async.System
import LiorParisWallet.Jobs.Queue
import LiorParisWallet.Outbox.Publisher

/-!
# The queues and their processors

`DomainEventsProcessor`, `NotificationsProcessor` and `DeadLetterProcessor` on the queues of
`queue.module.ts`.  A worker of BullMQ takes a job, runs `process` and moves the job to the completed or
the failed ones; on a failure it raises `failed`, whose handler runs while other workers go on.
Any number of workers is at work, and `send` and `add` may fail at any time.
-/

namespace LiorParisWallet.Queues

open Async Jobs

inductive QueueName where
  | domainEvents
  | notifications
  | deadLetter
deriving DecidableEq, Repr

/-- `QUEUE_NAMES` -/
def QueueName.value : QueueName → String
  | .domainEvents => "domain-events"
  | .notifications => "notifications"
  | .deadLetter => "dead-letter"

/-- `attempts` of the `defaultJobOptions`.  No job is added with options of its own, so these are the
    `opts` of every job. -/
def QueueName.attempts : QueueName → Option ℕ
  | .domainEvents => some 3
  | .notifications => some 3
  | .deadLetter => none

/-- How often BullMQ runs a job of the queue before it gives up. -/
def QueueName.maxAttempts (q : QueueName) : ℕ := q.attempts.getD 1

/-- The data of a job that carries an event. -/
structure JobData where
  eventName : String
  payload : Record
  /-- The other properties. -/
  rest : Record
  /-- `_dlqMeta.dlqCount` -/
  dlqMeta : Option ℕ
deriving DecidableEq, Repr

/-- The data of a job of the `dead-letter` queue. -/
structure DeadLetterData where
  originalQueue : String
  originalJobId : ℕ
  originalJobName : String
  data : JobData
  dlqCount : Option ℕ
  failedReason : String
  failedAt : ℕ
  attemptsMade : ℕ
deriving DecidableEq, Repr

abbrev Data : QueueName → Type
  | .domainEvents => JobData
  | .notifications => JobData
  | .deadLetter => DeadLetterData

/-- A job as its processor sees it. -/
structure Job (α : Type) where
  id : ℕ
  name : String
  data : α
  attemptsMade : ℕ

structure Error where
  message : String
deriving DecidableEq, Repr

/-- The attempt `number`, counted from 1, on a job of the queue. -/
structure Attempt where
  queue : QueueName
  job : ℕ
  number : ℕ
deriving DecidableEq, Repr

/-- A call of `NotificationsService.send`, in which attempt it was made and whether it succeeded. -/
structure Sending where
  attempt : Option Attempt
  eventName : String
  payload : Record
  ok : Bool
deriving DecidableEq, Repr

/-- A job that could not be added to the queue. -/
structure Refusal where
  attempt : Option Attempt
  queue : QueueName
deriving DecidableEq, Repr

/-- The queues with every job that was ever added, its origin being the attempt in which it was; the
    attempt that each call has begun; and what was sent and refused.  This is a journal: by `removeOnComplete`
    and `removeOnFail`, BullMQ deletes jobs that are over after a while, and nobody reads them any more. -/
structure World where
  jobs : (q : QueueName) → Queue (Option Attempt) (Data q)
  holds : ℕ → Option Attempt
  sendings : List Sending
  refusals : List Refusal

/-- What the program does not determine: the time, and whether the operation gets through. -/
structure Choice where
  now : ℕ := 0
  fault : Option Error := none

inductive Op where
  /-- `queue.add(name, data)`, where the data may name the present time. -/
  | add (q : QueueName) (name : String) (data : ℕ → Data q)
  /-- A worker takes the job, if it waits. -/
  | take (q : QueueName) (id : ℕ)
  | complete (q : QueueName) (id : ℕ)
  | fail (q : QueueName) (id : ℕ)
  /-- `NotificationsService.send` -/
  | send (eventName : String) (payload : Record)

abbrev Ans : Op → Type
  | .add .. => Unit
  | .take q _ => Option (Job (Data q))
  | .complete .. => Unit
  | .fail .. => Unit
  | .send .. => Unit

namespace World

def setJobs (w : World) (q : QueueName) (jobs : Queue (Option Attempt) (Data q)) : World :=
  { w with jobs := Function.update w.jobs q jobs }

/-- Changes the job `id` of the queue. -/
def modify (w : World) (q : QueueName) (id : ℕ)
    (f : Entry (Option Attempt) (Data q) → Entry (Option Attempt) (Data q)) : World :=
  w.setJobs q ((w.jobs q).modify id f)

def add (w : World) (q : QueueName) (name : String) (data : Data q) (origin : Option Attempt) : World :=
  w.setJobs q (w.jobs q ++ [.new name data origin])

def begin (w : World) (i : ℕ) (t : Attempt) : World :=
  { w.modify t.queue t.job .take with holds := Function.update w.holds i (some t) }

end World

def perform (i : ℕ) : (o : Op) → Choice → World → Option (Except Error (Ans o) × World)
  | .add q name data, ω, w =>
      match ω.fault with
      | some e => some (.error e, { w with refusals := w.refusals ++ [⟨w.holds i, q⟩] })
      | none => some (.ok (), w.add q name (data ω.now) (w.holds i))
  | .take q id, _, w =>
      match (w.jobs q)[id]? with
      | some e =>
          if e.status = .waiting then
            some (.ok (some ⟨id, e.name, e.data, e.attemptsMade⟩),
              w.begin i ⟨q, id, e.attemptsStarted + 1⟩)
          else some (.ok none, w)
      | none => some (.ok none, w)
  | .complete q id, _, w => some (.ok (), w.modify q id .complete)
  | .fail q id, _, w => some (.ok (), w.modify q id (.fail q.maxAttempts))
  | .send eventName payload, ω, w =>
      let sent (ok : Bool) : World :=
        { w with sendings := w.sendings ++ [⟨w.holds i, eventName, payload, ok⟩] }
      match ω.fault with
      | some e => some (.error e, sent false)
      | none => some (.ok (), sent true)

/-- An asynchronous function of a worker. -/
abbrev Promise (α : Type) : Type := Program Op Ans Error α

def await (o : Op) : Promise (Ans o) := .call o

namespace DomainEventsProcessor

/-- The data of a notification. -/
def notification (eventName : String) (payload : Record) (now : ℕ) : JobData :=
  { eventName := eventName
    payload := payload
    rest := [("enqueuedAt", .number now)]
    dlqMeta := none }

def process (job : Job JobData) : Promise Unit := do
  let eventName := job.data.eventName
  let payload := job.data.payload
  if eventName = DomainEventName.transferCompleted.value then
    await (.add .notifications DomainEventName.transferSent.value
      (notification DomainEventName.transferSent.value payload))
    await (.add .notifications DomainEventName.transferReceived.value
      (notification DomainEventName.transferReceived.value payload))
    return
  let notifyEvents := [DomainEventName.depositSucceeded.value]
  if eventName ∈ notifyEvents then
    await (.add .notifications eventName (notification eventName payload))

end DomainEventsProcessor

namespace NotificationsProcessor

def process (job : Job JobData) : Promise Unit :=
  await (.send job.data.eventName job.data.payload)

/-- What is kept of a job that has used up its attempts. -/
def deadLetter (job : Job JobData) (error : Error) (now : ℕ) : DeadLetterData :=
  { originalQueue := QueueName.notifications.value
    originalJobId := job.id
    originalJobName := job.name
    data := job.data
    dlqCount := some (job.data.dlqMeta.getD 0)
    failedReason := error.message
    failedAt := now
    attemptsMade := job.attemptsMade }

def onFailed (job : Job JobData) (error : Error) : Promise Unit := do
  if QueueName.notifications.attempts.getD 1 ≤ job.attemptsMade then
    await (.add .deadLetter ("dlq:" ++ job.name) (deadLetter job error))

end NotificationsProcessor

namespace DeadLetterProcessor

/-- `MAX_DLQ_REPROCESS` -/
def maxDlqReprocess : ℕ := 3

/-- `this.queueMap`: the `add` of the queue. -/
def queueMap (name : String) : Option (String → JobData → Promise Unit) :=
  if name = QueueName.notifications.value then
    some fun name data => await (.add .notifications name fun _ => data)
  else if name = QueueName.domainEvents.value then
    some fun name data => await (.add .domainEvents name fun _ => data)
  else none

def process (job : Job DeadLetterData) : Promise Unit := do
  let dlqCount := job.data.dlqCount.getD 0
  if maxDlqReprocess ≤ dlqCount then
    return
  match queueMap job.data.originalQueue with
  | none => return
  | some add =>
      add job.data.originalJobName { job.data.data with dlqMeta := some (dlqCount + 1) }

end DeadLetterProcessor

def process : (q : QueueName) → Job (Data q) → Promise Unit
  | .domainEvents => DomainEventsProcessor.process
  | .notifications => NotificationsProcessor.process
  | .deadLetter => DeadLetterProcessor.process

/-- The handlers of the event `failed`.  Only the notifications have one. -/
def onFailed : (q : QueueName) → Job (Data q) → Error → Promise Unit
  | .domainEvents => fun _ _ => pure ()
  | .notifications => NotificationsProcessor.onFailed
  | .deadLetter => fun _ _ => pure ()

/-- A worker of BullMQ makes one attempt. -/
def work (q : QueueName) (id : ℕ) : Promise Unit := do
  match ← await (.take q id) with
  | none => return
  | some job =>
      match ← (process q job).settled with
      | .ok () => await (.complete q id)
      | .error e => do
          await (.fail q id)
          onFailed q { job with attemptsMade := job.attemptsMade + 1 } e

/-- The data with which the publisher adds the job of an outbox event. -/
def eventData (job : DomainEventJob) : JobData :=
  { eventName := job.eventName.value
    payload := job.payload
    rest := [("outboxId", .string job.outboxId), ("aggregateId", .string job.aggregateId),
      ("occurredAt", .number job.occurredAt)]
    dlqMeta := none }

inductive Request where
  /-- `OutboxPublisher` adds the job of an outbox event. -/
  | publish (job : DomainEventJob)
  /-- Some other client adds a job to the notifications. -/
  | notify (name : String) (data : JobData)
  | work (q : QueueName) (id : ℕ)

def serve : Request → Promise Unit
  | .publish job => await (.add .domainEvents job.name.value fun _ => eventData job)
  | .notify name data => await (.add .notifications name fun _ => data)
  | .work q id => work q id

def server : Server Op Ans Error Request Unit Choice World where
  serve := serve
  perform := perform

abbrev State := System Op Ans Error Request Unit World

/-- No job has been added yet. -/
def World.empty : World := ⟨fun _ => [], fun _ => none, [], []⟩

end LiorParisWallet.Queues
