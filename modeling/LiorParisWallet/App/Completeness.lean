import LiorParisWallet.App.Notifications
import LiorParisWallet.Outbox.Receipts
import LiorParisWallet.Queues.Completion

/-!
# What becomes of a notification

The converse of `notifications_justified`: what a committed event requires has been sent, is on its way, or was given
up in one of three places.  The publisher may die between an `add` and its mark, an `add` may get through that was
reported as failed, and a worker may lose its job to another.
-/

namespace LiorParisWallet.App

open Async Relational

variable {registry : PaymentGatewayRegistry} {s s' : App} {a : Action}

/-- `row` is the event as the publisher has left it. -/
structure RowOf (s : App) (ev row : OutboxEvent) : Prop where
  mem : row ∈ s.publisher.world.outbox
  job : row.job = ev.job

/-- `k` is a job of the event. -/
structure JobOf (s : App) (ev : OutboxEvent) (k : ℕ) (e : Jobs.Entry (Option Queues.Attempt) Queues.JobData) :
    Prop where
  job : s.queues.world.job .domainEvents k = some e
  data : e.data = Queues.eventData ev.job

/-- `n` is a job of the notification that an attempt on a job of the event has added. -/
structure NotificationOf (s : App) (ev : OutboxEvent) (eventName : String) (n : ℕ)
    (y : Jobs.Entry (Option Queues.Attempt) Queues.JobData) : Prop where
  job : s.queues.world.job .notifications n = some y
  noted : ∃ k e, JobOf s ev k e ∧ Queues.World.Notes k eventName ev.payloadJson y

/-- In an attempt on a job of its own, the notification was passed to the mail service with success. -/
def Sent (s : App) (ev : OutboxEvent) (eventName : String) : Prop :=
  ∃ n y, NotificationOf s ev eventName n y ∧ s.queues.world.Passed n eventName ev.payloadJson

/-- A tick will find the event, or one of the jobs has attempts left. -/
inductive Underway (s : App) (ev : OutboxEvent) (eventName : String) : Prop where
  | pending {row : OutboxEvent} : RowOf s ev row → row.unprocessed = true → Underway s ev eventName
  | published {k : ℕ} {e : Jobs.Entry (Option Queues.Attempt) Queues.JobData} :
      JobOf s ev k e → ¬ e.Over → Underway s ev eventName
  | noted {n : ℕ} {y : Jobs.Entry (Option Queues.Attempt) Queues.JobData} :
      NotificationOf s ev eventName n y → ¬ y.Over → Underway s ev eventName

/-- No tick finds the event any more, or one of the jobs has failed for good. -/
inductive GivenUp (s : App) (ev : OutboxEvent) (eventName : String) : Prop where
  | exhausted {row : OutboxEvent} : RowOf s ev row → row.processedAt = none → maxRetries ≤ row.retryCount →
      GivenUp s ev eventName
  | published {k : ℕ} {e : Jobs.Entry (Option Queues.Attempt) Queues.JobData} :
      JobOf s ev k e → e.status = .failed → GivenUp s ev eventName
  | noted {n : ℕ} {y : Jobs.Entry (Option Queues.Attempt) Queues.JobData} :
      NotificationOf s ev eventName n y → y.status = .failed → GivenUp s ev eventName

/-- What the publisher has added is in the queue. -/
def Linked (domainEvents : List DomainEventJob) (w : Queues.World) : Prop :=
  ∀ job ∈ domainEvents, ∃ k e, w.job .domainEvents k = some e ∧ e.data = Queues.eventData job

/-- The publisher marks and the workers complete only what they have seen to. -/
structure Diligent (s : App) : Prop where
  publisher : Outbox.receipts.Sound (fun _ _ _ _ _ => True) s.publisher
  queues : Queues.completion.Sound (fun _ _ _ _ _ => True) s.queues
  linked : Linked s.publisher.world.domainEvents s.queues.world

theorem Linked.keeps {domainEvents : List DomainEventJob} {w w' : Queues.World} (h : Linked domainEvents w)
    (hk : Queues.Keeps w w') : Linked domainEvents w' := by
  intro job hjob
  obtain ⟨k, e, he, hdata⟩ := h job hjob
  obtain ⟨e', he', hdata', -⟩ := hk.jobs _ k e he
  exact ⟨k, e', he', hdata'.trans hdata⟩

/-! ## The queues -/

section Queues

variable {queues queues' : Queues.State}

theorem keeps_step {i : ℕ} {ω : Queues.Choice} (hn : Queues.server.step queues i ω = some queues') :
    Queues.Keeps queues.world queues'.world := by
  obtain ⟨c, o, next, r, w, hc, hp, hperform, rfl⟩ := Server.step_cases hn
  exact Queues.keeps_of_perform hperform

/-- To the workers, a job that comes in is interference. -/
theorem completion_add (h : Queues.completion.Sound (fun _ _ _ _ _ => True) queues) (q : Queues.QueueName)
    (name : String) (data : Queues.Data q) (origin : Option Queues.Attempt) :
    Queues.completion.Sound (fun _ _ _ _ _ => True)
      { queues with world := queues.world.add q name data origin } :=
  h.interfered h.inv.add fun _ => ⟨Queues.keeps_add, rfl⟩

theorem published_spec (h : Queues.completion.Sound (fun _ _ _ _ _ => True) s.queues) (i : ℕ) (ω : Outbox.Choice)
    (arrived : Bool) : Queues.completion.Sound (fun _ _ _ _ _ => True) (s.published i ω arrived) ∧
      Queues.Keeps s.queues.world (s.published i ω arrived).world := by
  unfold App.published
  split
  · split
    · exact ⟨completion_add h .domainEvents _ _ _, Queues.keeps_add⟩
    · exact ⟨h, .refl _⟩
  · exact ⟨h, .refl _⟩

theorem requeued_spec (h : Queues.completion.Sound (fun _ _ _ _ _ => True) queues) (i : ℕ) (ω : Queues.Choice)
    (arrived : Bool) : Queues.completion.Sound (fun _ _ _ _ _ => True) (s.requeued i ω arrived queues) ∧
      Queues.Keeps queues.world (s.requeued i ω arrived queues).world := by
  unfold App.requeued
  split
  · split
    · exact ⟨completion_add h _ _ _ _, Queues.keeps_add⟩
    · exact ⟨h, .refl _⟩
  · exact ⟨h, .refl _⟩

end Queues

/-! ## The publisher -/

/-- What a step of the publisher adds arrives in the queue. -/
theorem linked_publisher {i : ℕ} {ω : Outbox.Choice} {arrived : Bool} {publisher : Outbox.State}
    (h : Linked s.publisher.world.domainEvents s.queues.world)
    (hk : Queues.Keeps s.queues.world (s.published i ω arrived).world)
    (hn : Outbox.server.step s.publisher i ω = some publisher) :
    Linked publisher.world.domainEvents (s.published i ω arrived).world := by
  obtain ⟨c, o, next, r, w, hc, hp, hperform, rfl⟩ := Server.step_cases hn
  have hawaits := System.awaits_eq hc hp
  have heffect : Outbox.Effect i s.publisher.world o r w := Outbox.effect_of_perform hperform
  cases heffect with
  | added job =>
    have hfault : ω.fault.isNone = true := by
      cases hfault : ω.fault with
      | none => rfl
      | some e =>
        simp only [Outbox.server, Outbox.perform, hfault] at hperform
        cases hperform
    intro job' hjob'
    rcases List.mem_append.mp hjob' with hold | hnew
    · exact (h.keeps hk) job' hold
    · obtain rfl : job' = job := List.mem_singleton.mp hnew
      unfold App.published
      rw [hawaits]
      simp only [hfault, Bool.true_or, if_pos]
      exact ⟨_, _, Queues.World.job_add_new, rfl⟩
  | _ => exact h.keeps hk

/-- A commit of the money server leaves the rows that the publisher has, and its marks on them. -/
theorem grows_marked (houtbox : s.publisher.world.outbox.rows.map (·.job) = s.money.world.db.outbox.rows.map (·.job))
    {committed : Table OutboxEvent} (hcommitted : ∀ ev ∈ s.money.world.db.outbox, ev ∈ committed) :
    Outbox.Grows s.publisher.world
      { s.publisher.world with outbox := marked committed s.publisher.world.outbox } := by
  refine ⟨fun ev hev => ⟨ev, ?_, rfl, id⟩, List.prefix_rfl, List.prefix_rfl⟩
  have hjob : ev.job ∈ s.money.world.db.outbox.rows.map (·.job) := houtbox ▸ List.mem_map_of_mem hev
  obtain ⟨original, hmem, heq⟩ := List.mem_map.mp hjob
  have hid : original.id = ev.id := congrArg DomainEventJob.outboxId heq
  refine List.mem_map.mpr ⟨original, hcommitted original hmem, ?_⟩
  -- the row with the id of the event is the event as the publisher has it
  cases hfound : s.publisher.world.outbox.find? (·.id == original.id) with
  | none =>
    have hnone := List.find?_eq_none.mp hfound ev hev
    rw [hid] at hnone
    simp at hnone
  | some row =>
    obtain ⟨hrow, hrowId⟩ := Table.mem_of_find? hfound
    obtain rfl : row = ev := Outbox.eq_of_id hrow hev ((beq_iff_eq.mp hrowId).trans hid)
    simp [hfound]

theorem receipted_marked (h : s.publisher.world.Receipted) {committed : Table OutboxEvent}
    (hpending : ∀ ev ∈ committed, Outbox.AboutMoney ev.eventName → ev.processedAt = none) :
    Outbox.World.Receipted { s.publisher.world with outbox := marked committed s.publisher.world.outbox } := by
  intro ev hev hmoney hprocessed
  rcases mem_marked hev with hcommitted | hmarks
  · exact absurd (hpending ev hcommitted hmoney) hprocessed
  · exact h ev hmarks hmoney hprocessed

/-! ## Runs -/

theorem Diligent.next (h : s.Diligent) (hs : Reachable registry s) (hn : s.next registry a = some s') :
    s'.Diligent := by
  cases a with
  | money l =>
    have hs' : Reachable registry s' := hs.next hn
    have hreaches := next_money hn
    obtain ⟨money, hmoney, heq⟩ := Option.bind_eq_some_iff.mp hn
    cases heq
    -- what has just been committed is pending, and the marks of the publisher are kept
    refine ⟨h.publisher.interfered ?_ fun _ => ?_, h.queues, h.linked⟩
    · exact receipted_marked h.publisher.inv (Outbox.pending_of_reachable hs'.money)
    · exact grows_marked hs.outbox fun ev hev => (hs.money.grows hreaches).mem_outbox hev
  | tick =>
    cases hn
    refine ⟨Contract.sound_next_of (l := .start .publishPendingEvents) (fun req hreq => ?_) h.publisher rfl,
      h.queues, h.linked⟩
    cases hreq
    exact Outbox.publishPendingEvents_receipted
  | publisher i ω arrived =>
    obtain ⟨publisher, hpublisher, heq⟩ := Option.bind_eq_some_iff.mp hn
    cases heq
    obtain ⟨hqueues, hk⟩ := published_spec h.queues i ω arrived
    refine ⟨Contract.sound_next_of (l := .step i ω) ?_ h.publisher hpublisher, hqueues,
      linked_publisher h.linked hk hpublisher⟩
    exact fun req hreq => by cases hreq
  | restart =>
    cases hn
    -- the calls of the publisher are gone, and what it has marked it had seen to
    exact ⟨Contract.sound_idle h.publisher.inv, h.queues, h.linked⟩
  | work q id =>
    cases hn
    refine ⟨h.publisher, Contract.sound_next_of (l := .start (.work q id)) (fun req hreq => ?_) h.queues rfl,
      h.linked⟩
    cases hreq
    exact Queues.work_completes q id
  | worker i ω arrived =>
    obtain ⟨queues, hqueues, heq⟩ := Option.bind_eq_some_iff.mp hn
    cases heq
    have hsound : Queues.completion.Sound (fun _ _ _ _ _ => True) queues :=
      Contract.sound_next_of (l := .step i ω) (fun req hreq => by cases hreq) h.queues hqueues
    obtain ⟨hrequeued, hk⟩ := requeued_spec (s := s) hsound i ω arrived
    exact ⟨h.publisher, hrequeued, h.linked.keeps ((keeps_step hqueues).trans hk)⟩
  | stalled q id =>
    cases hn
    have hsame : ∀ e : Jobs.Entry (Option Queues.Attempt) (Queues.Data q),
        (if e.status = .active then { e with status := .waiting } else e).data = e.data ∧
          (if e.status = .active then { e with status := .waiting } else e).origin = e.origin := by
      intro e
      split <;> exact ⟨rfl, rfl⟩
    have hk : Queues.Keeps s.queues.world (s.queues.world.modify q id _) := Queues.keeps_modify hsame
    refine ⟨h.publisher, h.queues.interfered (h.queues.inv.modify hsame fun e _ hcompleted => ?_) fun _ => ⟨hk, rfl⟩,
      h.linked.keeps hk⟩
    -- a job that is put back waits
    split at hcompleted
    · cases hcompleted
    · exact .inl hcompleted

theorem Reachable.diligent (h : Reachable registry s) : s.Diligent := by
  induction h with
  | @init w hw =>
    refine ⟨Contract.sound_idle fun ev hev hmoney hprocessed => ?_, Contract.sound_idle fun q k e he => ?_,
      fun job hjob => ?_⟩
    · obtain ⟨hdeposit, htransfer, -⟩ := hw.outbox ev hev
      rcases hmoney with hname | hname
      · exact absurd hname hdeposit
      · exact absurd hname htransfer
    · cases he
    · cases hjob
  | next hs hn ih => exact ih.next hs hn

/-- A job that is not completed has attempts left, or has failed for good. -/
theorem over_cases {τ α : Type} {e : Jobs.Entry τ α} (h : e.status ≠ .completed) : ¬ e.Over ∨ e.status = .failed := by
  cases hstatus : e.status with
  | waiting => exact .inl (Jobs.Entry.not_over_of_waiting hstatus)
  | active => exact .inl (Jobs.Entry.not_over_of_active hstatus)
  | completed => exact absurd hstatus h
  | failed => exact .inr rfl

/-- Two events have no job in common. -/
theorem eq_of_notificationOf {ev ev' : OutboxEvent} (hev : ev ∈ s.money.world.db.outbox)
    (hev' : ev' ∈ s.money.world.db.outbox) {eventName eventName' : String} {n : ℕ}
    {y y' : Jobs.Entry (Option Queues.Attempt) Queues.JobData} (hy : NotificationOf s ev eventName n y)
    (hy' : NotificationOf s ev' eventName' n y') : ev = ev' ∧ eventName = eventName' := by
  obtain ⟨hjob, k, e, he, ⟨a, horigin⟩, hname, -⟩ := hy
  obtain ⟨hjob', k', e', he', ⟨a', horigin'⟩, hname', -⟩ := hy'
  -- the job of the notification names that of the event, whose data have the id of the event
  obtain rfl := Option.some.inj (hjob.symm.trans hjob')
  cases horigin.symm.trans horigin'
  obtain rfl := Option.some.inj (he.job.symm.trans he'.job)
  have hid : ev.id = ev'.id := by
    have hrest := congrArg Queues.JobData.rest (he.data.symm.trans he'.data)
    simp only [Queues.eventData, List.cons.injEq, Prod.mk.injEq, Value.string.injEq] at hrest
    exact hrest.1.2
  exact ⟨Table.eq_of_clash hev hev' (by simp [Entity.clash, hid]), hname.symm.trans hname'⟩

/-- Whatever fails, dies or is done twice, each notification that a committed event requires has been sent, is on
    its way or was given up; and no mail serves two events, however equal they are. -/
theorem notifications_accounted (h : Reachable registry s) :
    (∀ ev ∈ s.money.world.db.outbox, ∀ eventName ∈ Queues.notificationsFor ev.eventName.value,
      Sent s ev eventName ∨ Underway s ev eventName ∨ GivenUp s ev eventName) ∧
    ∀ ev ∈ s.money.world.db.outbox, ∀ ev' ∈ s.money.world.db.outbox, ∀ eventName eventName' n y y',
      NotificationOf s ev eventName n y → NotificationOf s ev' eventName' n y' →
        ev = ev' ∧ eventName = eventName' := by
  refine ⟨fun ev hev eventName hdue => ?_,
    fun ev hev ev' hev' _ _ _ _ _ hy hy' => eq_of_notificationOf hev hev' hy hy'⟩
  have hmoney : Outbox.AboutMoney ev.eventName := by
    rcases mem_notificationsFor hdue with ⟨hname, -⟩ | ⟨hname, -⟩
    · exact .inl hname
    · exact .inr hname
  have hjob : ev.job ∈ s.publisher.world.outbox.rows.map (·.job) := h.outbox ▸ List.mem_map_of_mem hev
  obtain ⟨row, hrow, heq⟩ := List.mem_map.mp hjob
  have hrowOf : RowOf s ev row := ⟨hrow, heq⟩
  have hname : row.eventName = ev.eventName := congrArg DomainEventJob.eventName heq
  by_cases hprocessed : row.processedAt = none
  -- `findUnprocessed` passes over an event that has used up its retries
  · by_cases hretries : row.retryCount < maxRetries
    · exact .inr (.inl (.pending hrowOf (by simp [OutboxEvent.unprocessed, hprocessed, hretries])))
    · exact .inr (.inr (.exhausted hrowOf hprocessed (Nat.le_of_not_lt hretries)))
  · -- so the job of the event has been added
    have hadded : row.job ∈ s.publisher.world.domainEvents :=
      h.diligent.publisher.inv row hrow (hname ▸ hmoney) hprocessed
    obtain ⟨k, e, he, hdata⟩ := h.diligent.linked row.job hadded
    rw [heq] at hdata
    have hjobOf : JobOf s ev k e := ⟨he, hdata⟩
    by_cases hcompleted : e.status = .completed
    · have hserved : Queues.Served s.queues.world .domainEvents k e.data :=
        h.diligent.queues.inv _ k e he hcompleted
      rw [hdata] at hserved
      -- the attempt that completed it has added a job for each notification
      obtain ⟨n, y, hy, hnotes⟩ := hserved eventName hdue
      have hnotified : NotificationOf s ev eventName n y := ⟨hy, k, e, hjobOf, hnotes⟩
      by_cases hsent : y.status = .completed
      · have hpassed : Queues.Served s.queues.world .notifications n y.data := h.diligent.queues.inv _ n y hy hsent
        refine .inl ⟨n, y, hnotified, ?_⟩
        have hname : y.data.eventName = eventName := hnotes.eventName
        have hpayload : y.data.payload = ev.payloadJson := hnotes.payload
        rw [← hname, ← hpayload]
        exact hpassed
      · exact .inr ((over_cases hsent).imp (.noted hnotified) (.noted hnotified))
    · exact .inr ((over_cases hcompleted).imp (.published hjobOf) (.published hjobOf))

/-- A worker takes the job, cannot add the notification and takes the attempt down as failed. -/
def vain (i : ℕ) (q : Queues.QueueName) (id : ℕ) : List Action :=
  [.work q id, .worker i {} false, .worker i { fault := some ⟨"ECONNREFUSED"⟩ } false, .worker i {} false]

/-- Both events of the everyday run are published.  The notification of the deposit cannot be added in any of the
    three attempts, and of those of the transfer one is sent and the other waits. -/
def parting : List Action :=
  everyday.map .money ++ [.tick, .publisher 0 {} false, .publisher 0 { order := posted } false] ++
    List.replicate 4 (.publisher 0 {} false) ++ vain 0 .domainEvents 0 ++ vain 1 .domainEvents 0 ++
    vain 2 .domainEvents 0 ++ attempt 3 .domainEvents 1 4 ++ attempt 4 .notifications 0 3

/-- Each of the three ends that a notification can meet. -/
theorem notifications_accounted_parting :
    ∃ s, run cardPayments parting (init (World.fresh adaAndBob)) = some s ∧
      s.money.world.db.outbox.rows.map (·.eventName) = [.depositSucceeded, .transferCompleted] ∧
      ∀ ev ∈ s.money.world.db.outbox,
        (ev.eventName = .depositSucceeded → GivenUp s ev "DepositSucceeded") ∧
          (ev.eventName = .transferCompleted → Sent s ev "TransferSent" ∧ Underway s ev "TransferReceived") := by
  have hruns : (run cardPayments parting (init (World.fresh adaAndBob))).any (fun s =>
      s.money.world.db.outbox.rows.map (·.eventName) = [.depositSucceeded, .transferCompleted] ∧
        s.publisher.world.outbox.rows.map (·.processedAt) = [some 0, some 0] ∧
        (s.queues.world.jobs .domainEvents).map (fun e => (e.data.eventName, e.status)) =
          [("DepositSucceeded", .failed), ("TransferCompleted", .completed)] ∧
        (s.queues.world.jobs .notifications).map (fun e => (e.data.eventName, e.status)) =
          [("TransferSent", .completed), ("TransferReceived", .waiting)] ∧
        s.queues.world.sendings.map (·.eventName) = ["TransferSent"]) = true := by decide +kernel
  obtain ⟨s, hs, hworld⟩ := (Option.any_eq_true _ _).mp hruns
  obtain ⟨hnames, hmarks, hevents, hnotes, hmails⟩ := of_decide_eq_true hworld
  have hinit : Reachable cardPayments (init (World.fresh adaAndBob)) := .init (World.fresh_initial adaAndBob)
  obtain ⟨haccounted, -⟩ := notifications_accounted (hinit.run hs)
  -- no event is pending, and the statuses of the jobs exclude all but one of the ends
  have hrow : ∀ {ev row}, RowOf s ev row → row.processedAt ≠ none := by
    intro ev row h
    have hmark := List.mem_map_of_mem (f := (·.processedAt)) h.mem
    rw [show List.map _ s.publisher.world.outbox.rows = _ from hmarks] at hmark
    intro hnone
    rw [hnone] at hmark
    simp at hmark
  have hevent : ∀ {ev k e}, JobOf s ev k e → (ev.eventName.value, e.status) ∈
      [("DepositSucceeded", Jobs.Status.failed), ("TransferCompleted", .completed)] := by
    intro ev k e h
    rw [← hevents]
    exact List.mem_map.mpr ⟨e, List.mem_of_getElem? h.job, by rw [h.data]; rfl⟩
  have hnote : ∀ {ev eventName n y}, NotificationOf s ev eventName n y → (eventName, y.status) ∈
      [("TransferSent", Jobs.Status.completed), ("TransferReceived", .waiting)] := by
    intro ev eventName n y h
    obtain ⟨k, e, -, hy⟩ := h.noted
    rw [← hnotes]
    exact List.mem_map.mpr ⟨y, List.mem_of_getElem? h.job, by rw [hy.eventName]⟩
  have hsent : ∀ {ev eventName}, Sent s ev eventName → eventName = "TransferSent" := by
    intro ev eventName h
    obtain ⟨n, y, -, x, hx, -, rfl, -⟩ := h
    have hmail := List.mem_map_of_mem (f := (·.eventName)) hx
    rw [hmails] at hmail
    exact List.mem_singleton.mp hmail
  have hunderway : ∀ {ev eventName}, Underway s ev eventName → eventName = "TransferReceived" := by
    intro ev eventName h
    cases h with
    | pending hof hpending => simp [OutboxEvent.unprocessed, hrow hof] at hpending
    | published hof hover =>
      have hstatus := hevent hof
      simp only [List.mem_cons, Prod.mk.injEq, List.not_mem_nil, or_false] at hstatus
      rcases hstatus with ⟨-, hfailed⟩ | ⟨-, hcompleted⟩
      · exact absurd (.inr hfailed) hover
      · exact absurd (.inl hcompleted) hover
    | noted hof hover =>
      have hstatus := hnote hof
      simp only [List.mem_cons, Prod.mk.injEq, List.not_mem_nil, or_false] at hstatus
      rcases hstatus with ⟨-, hcompleted⟩ | ⟨hname, -⟩
      · exact absurd (.inl hcompleted) hover
      · exact hname
  have hgivenUp : ∀ {ev eventName}, GivenUp s ev eventName → ev.eventName.value = "DepositSucceeded" := by
    intro ev eventName h
    cases h with
    | exhausted hof hpending => exact absurd hpending (hrow hof)
    | published hof hfailed =>
      have hstatus := hevent hof
      rw [hfailed] at hstatus
      simpa using hstatus
    | noted hof hfailed =>
      have hstatus := hnote hof
      rw [hfailed] at hstatus
      simp at hstatus
  refine ⟨s, hs, hnames, fun ev hev => ⟨fun hname => ?_, fun hname => ⟨?_, ?_⟩⟩⟩
  · rcases haccounted ev hev "DepositSucceeded" (by rw [hname]; decide) with h | h | h
    · exact absurd (hsent h) (by decide)
    · exact absurd (hunderway h) (by decide)
    · exact h
  · rcases haccounted ev hev "TransferSent" (by rw [hname]; decide) with h | h | h
    · exact h
    · exact absurd (hunderway h) (by decide)
    · exact absurd (hgivenUp h) (by rw [hname]; decide)
  · rcases haccounted ev hev "TransferReceived" (by rw [hname]; decide) with h | h | h
    · exact absurd (hsent h) (by decide)
    · exact h
    · exact absurd (hgivenUp h) (by rw [hname]; decide)

end LiorParisWallet.App
