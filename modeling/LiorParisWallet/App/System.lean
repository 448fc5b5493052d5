import LiorParisWallet.Outbox.Provenance
import LiorParisWallet.Queues.Provenance

/-!
# The application

The money server, the publisher of its outbox and the workers of the queues, at work together.  The money server
never reads the outbox, so it keeps the events as they were committed, and the publisher keeps them with its marks.
-/

namespace LiorParisWallet

open Async Relational

structure App where
  money : State
  publisher : Outbox.State
  queues : Queues.State

namespace App

/-- What can happen next.  An `add` that has failed may have got through all the same, if `arrived` says so. -/
inductive Action where
  | money (l : Label Request Choice)
  /-- A tick of the cron job. -/
  | tick
  | publisher (i : ℕ) (ω : Outbox.Choice) (arrived : Bool)
  /-- The process of the publisher has died, and a new one has begun. -/
  | restart
  | work (q : Queues.QueueName) (id : ℕ)
  | worker (i : ℕ) (ω : Queues.Choice) (arrived : Bool)
  /-- BullMQ puts back the job of a worker of which it has not heard for too long. -/
  | stalled (q : Queues.QueueName) (id : ℕ)

/-- The events that were committed, each as the publisher has left it. -/
def marked (committed marks : Table OutboxEvent) : Table OutboxEvent :=
  committed.update (fun _ => true) (fun ev => (marks.find? (·.id == ev.id)).getD ev) fun a b => by
    cases hfound : marks.find? (·.id == a.id) with
    | none => rfl
    | some ev =>
      have hid : ev.id = a.id := by simpa using (Table.mem_of_find? hfound).2
      simp [Entity.clash, hid]

/-- The job of an event gets into its queue, when `add` says so or even when it does not. -/
def published (s : App) (i : ℕ) (ω : Outbox.Choice) (arrived : Bool) : Queues.State :=
  match s.publisher.awaits i with
  | some (.add job) =>
      if ω.fault.isNone || arrived then
        { s.queues with world := s.queues.world.add .domainEvents job.name.value (Queues.eventData job) none }
      else s.queues
  | _ => s.queues

/-- The same for a job that a worker adds; `queues` is what the step of the worker has left. -/
def requeued (s : App) (i : ℕ) (ω : Queues.Choice) (arrived : Bool) (queues : Queues.State) : Queues.State :=
  match s.queues.awaits i with
  | some (.add q name data) =>
      if ω.fault.isSome && arrived then
        { queues with world := queues.world.add q name (data ω.now) (queues.world.holds i) }
      else queues
  | _ => queues

def next (registry : PaymentGatewayRegistry) (s : App) : Action → Option App
  | .money l => do
      let money ← (server registry).next s.money l
      -- an event that has just been committed can be found by the publisher at once
      let outbox := marked money.world.db.outbox s.publisher.world.outbox
      some { s with money, publisher := { s.publisher with world := { s.publisher.world with outbox } } }
  | .tick => do
      let publisher ← Outbox.server.next s.publisher (.start .publishPendingEvents)
      some { s with publisher }
  | .publisher i ω arrived => do
      let publisher ← Outbox.server.step s.publisher i ω
      some { s with publisher, queues := s.published i ω arrived }
  -- what the dead process has not marked yet will be published again
  | .restart => some { s with publisher := ⟨{ s.publisher.world with processing := none }, []⟩ }
  | .work q id => do
      let queues ← Queues.server.next s.queues (.start (.work q id))
      some { s with queues }
  | .worker i ω arrived => do
      let queues ← Queues.server.step s.queues i ω
      some { s with queues := s.requeued i ω arrived queues }
  | .stalled q id =>
      let put (e : Jobs.Entry (Option Queues.Attempt) (Queues.Data q)) : Jobs.Entry _ _ :=
        if e.status = .active then { e with status := .waiting } else e
      some { s with queues := { s.queues with world := s.queues.world.modify q id put } }

/-- The application before anything was asked of it. -/
def init (w : World) : App := ⟨⟨w, []⟩, ⟨⟨w.db.outbox, [], [], none⟩, []⟩, ⟨Queues.World.empty, []⟩⟩

/-- A state that some run reaches from an initial world. -/
inductive Reachable (registry : PaymentGatewayRegistry) : App → Prop where
  | init {w : World} : w.Initial → Reachable registry (init w)
  | next {s s' : App} {a : Action} : Reachable registry s → s.next registry a = some s' → Reachable registry s'

/-- The application after a list of actions. -/
def run (registry : PaymentGatewayRegistry) : List Action → App → Option App
  | [], s => some s
  | a :: as, s => (s.next registry a).bind (run registry as)

variable {registry : PaymentGatewayRegistry} {s s' : App} {a : Action}

theorem Reachable.run (h : Reachable registry s) {as : List Action} (hrun : run registry as s = some s') :
    Reachable registry s' := by
  induction as generalizing s with
  | nil =>
    cases hrun
    exact h
  | cons a as ih =>
    obtain ⟨s₁, hn, hrun⟩ := Option.bind_eq_some_iff.mp hrun
    exact ih (h.next hn) hrun

/-! ## The parts -/

/-- In one step of the application the money server makes at most one step. -/
theorem next_money (hn : s.next registry a = some s') : (server registry).Reaches Server.Any s.money s'.money := by
  cases a with
  | money l =>
    obtain ⟨money, hmoney, hs⟩ := Option.bind_eq_some_iff.mp hn
    cases hs
    exact Server.Reaches.refl.tail trivial hmoney
  | tick =>
    cases hn
    exact .refl
  | publisher i ω arrived =>
    obtain ⟨_, _, hs⟩ := Option.bind_eq_some_iff.mp hn
    cases hs
    exact .refl
  | restart =>
    cases hn
    exact .refl
  | work q id =>
    cases hn
    exact .refl
  | worker i ω arrived =>
    obtain ⟨_, _, hs⟩ := Option.bind_eq_some_iff.mp hn
    cases hs
    exact .refl
  | stalled q id =>
    cases hn
    exact .refl

theorem Reachable.money (h : Reachable registry s) : LiorParisWallet.Reachable registry s.money := by
  induction h with
  | init hw => exact reachable_initial hw
  | next _ hn ih => exact ih.extend (next_money hn)

/-- The publisher and the workers pass on only what `P` says. -/
structure Traced (P : DomainEventName → Record → Prop) (s : App) : Prop where
  publisher : (Outbox.provenance P).Sound (fun _ _ _ _ _ => True) s.publisher
  queues : (Queues.provenance P).Sound (fun _ _ _ _ _ => True) s.queues

variable {P : DomainEventName → Record → Prop}

theorem mem_marked {committed marks : Table OutboxEvent} {ev : OutboxEvent} (h : ev ∈ marked committed marks) :
    ev ∈ committed ∨ ev ∈ marks := by
  obtain ⟨ev₀, hev₀, rfl⟩ := List.mem_map.mp h
  show (marks.find? (·.id == ev₀.id)).getD ev₀ ∈ committed ∨ (marks.find? (·.id == ev₀.id)).getD ev₀ ∈ marks
  cases hfound : marks.find? (·.id == ev₀.id) with
  | none => exact .inl hev₀
  | some ev => exact .inr (Table.mem_of_find? hfound).1

/-- What the publisher adds is the job of an event. -/
theorem Traced.published (h : s.Traced P) (i : ℕ) (ω : Outbox.Choice) (arrived : Bool) :
    (Queues.provenance P).Sound (fun _ _ _ _ _ => True) (s.published i ω arrived) := by
  unfold App.published
  split
  · rename_i job hawaits
    split
    · obtain ⟨c, hc, hnext⟩ := Option.bind_eq_some_iff.mp hawaits
      have hpre := (h.publisher.tracks i (List.getElem?_eq_some_iff.mp hc).1).awaited h.publisher.inv hc hnext
      refine h.queues.interfered (h.queues.inv.add ?_) fun _ => trivial
      exact ⟨job.eventName, hpre, rfl⟩
    · exact h.queues
  · exact h.queues

theorem Traced.requeued (h : s.Traced P) {i : ℕ} {ω : Queues.Choice} {queues : Queues.State}
    (hqueues : (Queues.provenance P).Sound (fun _ _ _ _ _ => True) queues) (arrived : Bool) :
    (Queues.provenance P).Sound (fun _ _ _ _ _ => True) (s.requeued i ω arrived queues) := by
  unfold App.requeued
  split
  · rename_i q name data hawaits
    split
    · obtain ⟨c, hc, hnext⟩ := Option.bind_eq_some_iff.mp hawaits
      have hpre := (h.queues.tracks i (List.getElem?_eq_some_iff.mp hc).1).awaited h.queues.inv hc hnext
      exact hqueues.interfered (hqueues.inv.add (hpre ω.now)) fun _ => trivial
    · exact hqueues
  · exact hqueues

/-- One step of the application, where `P` holds of the events that have been committed. -/
theorem Traced.next (h : s.Traced P) (hn : s.next registry a = some s')
    (hP : ∀ ev ∈ s'.money.world.db.outbox, P ev.eventName ev.payloadJson) : s'.Traced P := by
  cases a with
  | money l =>
    obtain ⟨money, hmoney, hs⟩ := Option.bind_eq_some_iff.mp hn
    cases hs
    -- to the calls of the publisher, a commit is interference
    refine ⟨h.publisher.interfered (fun ev hev => ?_) fun _ => trivial, h.queues⟩
    rcases mem_marked hev with hev | hev
    · exact hP ev hev
    · exact h.publisher.inv ev hev
  | tick =>
    cases hn
    refine ⟨Contract.sound_next_of (l := .start .publishPendingEvents) (fun req hreq => ?_) h.publisher rfl, h.queues⟩
    cases hreq
    exact Outbox.publishPendingEvents_passes
  | publisher i ω arrived =>
    obtain ⟨publisher, hpublisher, hs⟩ := Option.bind_eq_some_iff.mp hn
    cases hs
    refine ⟨Contract.sound_next_of (l := .step i ω) ?_ h.publisher hpublisher, h.published i ω arrived⟩
    exact fun req hreq => by cases hreq
  | restart =>
    cases hn
    exact ⟨Contract.sound_idle h.publisher.inv, h.queues⟩
  | work q id =>
    cases hn
    refine ⟨h.publisher, Contract.sound_next_of (l := .start (.work q id)) (fun req hreq => ?_) h.queues rfl⟩
    cases hreq
    exact Queues.work_passes q id
  | worker i ω arrived =>
    obtain ⟨queues, hqueues, hs⟩ := Option.bind_eq_some_iff.mp hn
    cases hs
    refine ⟨h.publisher, h.requeued (Contract.sound_next_of (l := .step i ω) ?_ h.queues hqueues) arrived⟩
    exact fun req hreq => by cases hreq
  | stalled q id =>
    cases hn
    refine ⟨h.publisher, h.queues.interfered (h.queues.inv.modify fun e => ?_) fun _ => trivial⟩
    split <;> rfl

/-- What is passed on in a run is what has been committed in it. -/
theorem Reachable.traced (h : Reachable registry s)
    (hP : ∀ ev ∈ s.money.world.db.outbox, P ev.eventName ev.payloadJson) : s.Traced P := by
  induction h with
  | init hw =>
    refine ⟨Contract.sound_idle hP, Contract.sound_idle ⟨fun q k e he => ?_, fun x hx => ?_⟩⟩
    · cases he
    · cases hx
  | @next s s' a hs hn ih =>
    -- the events that were committed before are still there
    exact (ih fun ev hev => hP ev ((hs.money.grows (next_money hn)).mem_outbox hev)).next hn hP

/-- The publisher has the events that were committed, and no others; only the marks are its own. -/
theorem Reachable.outbox (h : Reachable registry s) :
    s.publisher.world.outbox.rows.map (·.job) = s.money.world.db.outbox.rows.map (·.job) := by
  induction h with
  | init => rfl
  | @next s s' a hs hn ih =>
    cases a with
    | money l =>
      obtain ⟨money, hmoney, h⟩ := Option.bind_eq_some_iff.mp hn
      cases h
      show ((money.world.db.outbox.rows.map _).map _) = _
      rw [List.map_map]
      refine List.map_congr_left fun ev hev => ?_
      show ((s.publisher.world.outbox.find? (·.id == ev.id)).getD ev).job = ev.job
      cases hfound : s.publisher.world.outbox.find? (·.id == ev.id) with
      | none => rfl
      | some marked =>
        obtain ⟨hmem, hid⟩ := Table.mem_of_find? hfound
        have hjob : marked.job ∈ s.money.world.db.outbox.rows.map (·.job) := ih ▸ List.mem_map_of_mem hmem
        obtain ⟨old, hold, heq⟩ := List.mem_map.mp hjob
        -- the event with this id was committed before
        have hold' : old ∈ money.world.db.outbox := (hs.money.grows (next_money hn)).mem_outbox hold
        have holdId : old.id = ev.id := (congrArg DomainEventJob.outboxId heq).trans (beq_iff_eq.mp hid)
        rw [Table.eq_of_clash hold' hev (by simp [Entity.clash, holdId])] at heq
        exact heq.symm
    | publisher i ω arrived =>
      obtain ⟨publisher, hpublisher, h⟩ := Option.bind_eq_some_iff.mp hn
      cases h
      obtain ⟨c, o, next, r, w, hc, hp, hperform, rfl⟩ := Server.step_cases hpublisher
      have htraced : s.Traced fun _ _ => True := hs.traced fun _ _ => trivial
      have hpre := (htraced.publisher.tracks i (List.getElem?_eq_some_iff.mp hc).1).pre htraced.publisher.inv hc hp
      have heffect : Outbox.Effect i s.publisher.world o r w := Outbox.effect_of_perform hperform
      rw [← ih]
      cases heffect with
      | markedProcessed id now =>
        refine List.map_map.trans (List.map_congr_left fun ev _ => ?_)
        show OutboxEvent.job (if _ then _ else _) = _
        split <;> rfl
      | markedFailed id =>
        refine List.map_map.trans (List.map_congr_left fun ev _ => ?_)
        show OutboxEvent.job (if _ then _ else _) = _
        split <;> rfl
      -- the publisher commits no events
      | saved _ => exact hpre.elim
      | _ => rfl
    | worker i ω arrived =>
      obtain ⟨_, _, h⟩ := Option.bind_eq_some_iff.mp hn
      cases h
      exact ih
    | tick =>
      cases hn
      exact ih
    | restart =>
      cases hn
      exact ih
    | work q id =>
      cases hn
      exact ih
    | stalled q id =>
      cases hn
      exact ih

end App

end LiorParisWallet
