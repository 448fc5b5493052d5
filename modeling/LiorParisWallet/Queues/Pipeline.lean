import LiorParisWallet.Async.Fairness
import LiorParisWallet.Queues.Workers

/-!
# From the domain events to the mail service

No notification is lost behind the `notifications` queue: what cannot be sent is buried in the
`dead-letter` queue.  Before it there is no such handler, and the notifications of an event are lost if
each attempt on its job fails (`notifications_delivered`).
-/

namespace LiorParisWallet.Queues

open Async Jobs

/-- Adding jobs to these queues succeeds. -/
def Accepts (p : QueueName → Bool) (s : State) : Label Request Choice → Prop
  | .start _ => True
  | .step i ω => match s.awaits i with
      | some (.add q _ _) => p q = true → ω.fault = none
      | _ => True

instance (p : QueueName → Bool) (s : State) (l : Label Request Choice) : Decidable (Accepts p s l) := by
  unfold Accepts
  split
  · exact .isTrue trivial
  · split
    · exact inferInstance
    · exact .isTrue trivial

/-- The dead-letter add itself succeeds. -/
abbrev DeadLetters : State → Label Request Choice → Prop := Accepts (· == .deadLetter)

/-- A state that a run reaches from empty queues. -/
def Reachable (allowed : State → Label Request Choice → Prop) (s : State) : Prop :=
  server.Reaches allowed ⟨World.empty, []⟩ s

variable {allowed : State → Label Request Choice → Prop} {s s' : State} {i : ℕ} {t : Attempt}

theorem inv_empty : World.empty.Inv where
  valid _ _ _ he := nomatch he
  began _ _ ht := nomatch ht
  alone _ _ _ ht := nomatch ht
  held _ ht := let ⟨_, he, _⟩ := ht; nomatch he
  made _ _ _ he := nomatch he
  deadLetter _ _ _ he := nomatch he
  once _ _ _ he := nomatch he
  sendings _ hx := nomatch hx
  distinct := List.nodup_nil
  refusals _ hx := nomatch hx
  outcome _ _ _ he := nomatch he

theorem Reachable.sound (hr : Reachable allowed s) : queueContract.SoundNew New Ends s :=
  Contract.soundNew_reaches queue_meets new_unmarked
    ⟨Contract.sound_idle inv_empty, fun _ _ => rfl⟩ hr

theorem Reachable.inv (hr : Reachable allowed s) : s.world.Inv := hr.sound.inv

/-- Nothing was refused by a queue that accepts all jobs. -/
theorem Reachable.refusals {p : QueueName → Bool} (hr : Reachable (Accepts p) s) :
    ∀ x ∈ s.world.refusals, p x.queue = false := by
  induction hr with
  | refl =>
    intro x hx
    cases hx
  | @tail s₁ s₂ l _ hal hn ih =>
    cases l with
    | start req =>
      cases hn
      exact ih
    | step i ω =>
      obtain ⟨c, o, next, r, world, hc, hp, hperf, rfl⟩ := Server.step_cases hn
      have hop := System.awaits_eq hc hp
      simp only [Accepts, hop] at hal
      cases o with
      | add q name data =>
        -- a refusal comes with a fault
        have hperf' : perform i (.add q name data) ω s₁.world = some (r, world) := hperf
        simp only [perform] at hperf'
        split at hperf' <;> cases hperf'
        · rename_i err hfault
          intro x hx
          rcases List.mem_append.mp hx with hx | hx
          · exact ih x hx
          · rw [List.mem_singleton.mp hx]
            cases hpq : p q with
            | false => rfl
            | true => cases (hal hpq).symm.trans hfault
        · exact ih
      | take q id =>
        have heffect : Effect i s₁.world (.take q id) r world := effect_of_perform (ω := ω) hperf
        cases heffect <;> exact ih
      | complete q id =>
        cases hperf
        exact ih
      | fail q id =>
        cases hperf
        exact ih
      | send eventName payload =>
        have heffect : Effect i s₁.world (.send eventName payload) r world :=
          effect_of_perform (ω := ω) hperf
        cases heffect <;> exact ih

/-- A call that makes the attempt, or handles its failure, has not ended. -/
def Busy (s : State) (t : Attempt) : Prop := ∃ i, s.world.holds i = some t ∧ ¬ s.Ended i

theorem Reachable.finished (hr : Reachable allowed s) (hbegan : Began s.world t) (hidle : ¬ Busy s t) :
    Finished s.world t := by
  obtain ⟨i, hi⟩ := hr.inv.held t hbegan
  have hended : s.Ended i := not_not.mp fun h => hidle ⟨i, hi, h⟩
  obtain ⟨c, hc, hresult⟩ := hended
  obtain ⟨r, hr'⟩ := Option.ne_none_iff_exists'.mp hresult
  obtain ⟨w, hspares, hends⟩ :=
    (hr.sound.tracks i (List.getElem?_eq_some_iff.mp hc).1).outcome hc hr'
  exact (hends t (hspares.holds.symm.trans hi)).grows hspares.grows

/-- The dead-letter job `x` records the job. -/
structure Records (x : Entry (Option Attempt) DeadLetterData) (q : QueueName) (id : ℕ)
    (e : Entry (Option Attempt) JobData) : Prop where
  originalQueue : x.data.originalQueue = q.value
  originalJobId : x.data.originalJobId = id
  originalJobName : x.data.originalJobName = e.name
  data : x.data.data = e.data

/-- Every dead-letter job records a notification that has failed. -/
theorem World.Inv.records {w : World} (hinv : w.Inv) {k : ℕ}
    {x : Entry (Option Attempt) DeadLetterData} (hx : w.job .deadLetter k = some x) :
    ∃ y, w.job .notifications x.data.originalJobId = some y ∧ y.status = .failed ∧
      x.origin = some ⟨.notifications, x.data.originalJobId, y.attemptsStarted⟩ ∧
      Records x .notifications x.data.originalJobId y ∧
      x.data.dlqCount = some (y.data.dlqMeta.getD 0) ∧ x.data.attemptsMade = y.attemptsMade := by
  obtain ⟨t, ht⟩ := Option.ne_none_iff_exists'.mp (hinv.deadLetter .deadLetter k x hx rfl)
  cases (hinv.made .deadLetter k x hx t ht).2 with
  | @deadLetter n y _ error now hy hfailed hname hdata =>
    have hid : x.data.originalJobId = n := by rw [hdata]; rfl
    rw [hid]
    refine ⟨y, hy, hfailed, ht, ⟨?_, hid, ?_, ?_⟩, ?_, ?_⟩ <;> rw [hdata] <;> rfl

/-! ## Nothing is lost behind the `notifications` queue -/

/-- The notification `y` is in its queue, a worker is at work on it, or its failure is being
    handled. -/
def Waits (s : State) (n : ℕ) (y : Entry (Option Attempt) JobData) : Prop :=
  y.status = .waiting ∨ y.status = .active ∨ ∃ a, Busy s ⟨.notifications, n, a⟩

/-- The notification `n` was passed successfully to `NotificationsService.send`. -/
def Sent (w : World) (n : ℕ) (eventName : String) (payload : Record) : Prop :=
  ∃ x ∈ w.sendings, ∃ a, x.attempt = some ⟨.notifications, n, a⟩ ∧ x.eventName = eventName ∧
    x.payload = payload ∧ x.ok = true

/-- A completed notification was sent. -/
theorem World.Inv.sent {w : World} (hinv : w.Inv) {n : ℕ} {y : Entry (Option Attempt) JobData}
    (hy : w.job .notifications n = some y) (hcompleted : y.status = .completed) :
    Sent w n y.data.eventName y.data.payload := by
  obtain ⟨-, -, x, hx, ht, hok⟩ := hinv.outcome_completed hy hcompleted
  obtain ⟨n', y', a, hy', ht', -, -, hname, hpayload⟩ := hinv.sendings x hx
  obtain ⟨rfl, -⟩ := Attempt.mk.inj (Option.some.inj (ht'.symm.trans ht)) |>.2
  obtain rfl := Option.some.inj (hy'.symm.trans hy)
  exact ⟨x, hx, _, ht, hname, hpayload, hok⟩

theorem Reachable.accounted (hr : Reachable DeadLetters s) {n : ℕ}
    {y : Entry (Option Attempt) JobData} (hy : s.world.job .notifications n = some y) :
    Sent s.world n y.data.eventName y.data.payload ∨ Waits s n y ∨
      ∃ k x, s.world.job .deadLetter k = some x ∧ Records x .notifications n y := by
  have hvalid := hr.inv.valid .notifications n y hy
  cases hstatus : y.status with
  | waiting => exact .inr (.inl (.inl hstatus))
  | active => exact .inr (.inl (.inr (.inl hstatus)))
  | completed =>
    exact .inl (hr.inv.sent hy hstatus)
  | failed =>
    obtain ⟨hmade, hmax⟩ := hvalid.failed hstatus
    have hstarted : y.attemptsStarted = QueueName.notifications.maxAttempts := hmade.trans hmax
    by_cases hbusy : Busy s ⟨.notifications, n, y.attemptsStarted⟩
    · exact .inr (.inl (.inr (.inr ⟨_, hbusy⟩)))
    · have hbegan : Began s.world ⟨.notifications, n, y.attemptsStarted⟩ :=
        ⟨y, hy, hstarted.symm ▸ Nat.succ_pos 2, Nat.le_refl _⟩
      rcases (hr.finished hbegan hbusy).buried rfl with hlt | ⟨y', hy', hcompleted⟩ | hburied | hrefused
      · exact absurd hstarted (Nat.ne_of_lt hlt)
      · obtain rfl := Option.some.inj (hy.symm.trans hy')
        exact nomatch hstatus.symm.trans hcompleted
      · obtain ⟨k, x, hx, hid⟩ := hburied
        obtain ⟨y', hy', -, -, hrecords, -⟩ := hr.inv.records hx
        rw [hid] at hy' hrecords
        obtain rfl := Option.some.inj (Eq.trans hy.symm hy')
        exact .inr (.inr ⟨k, x, hx, hrecords⟩)
      · obtain ⟨x, hx, -, hqueue⟩ := hrefused
        have := hr.refusals x hx
        rw [hqueue] at this
        cases this

/-! ## Losses before it -/

/-- The notification of the event is accounted for: it was sent, it waits, or a dead-letter job records
    it or the job of the event. -/
def Accounted (s : State) (d : ℕ) (e : Entry (Option Attempt) JobData) (eventName : String) : Prop :=
  (∃ n y a, s.world.job .notifications n = some y ∧ y.origin = some ⟨.domainEvents, d, a⟩ ∧
    y.data.eventName = eventName ∧ y.data.payload = e.data.payload ∧
    (Sent s.world n eventName e.data.payload ∨ Waits s n y ∨
      ∃ k x, s.world.job .deadLetter k = some x ∧ Records x .notifications n y)) ∨
  ∃ k x, s.world.job .deadLetter k = some x ∧ Records x .domainEvents d e

/-- In each attempt that the job of the event has, adding a notification failed. -/
def OutOfAttempts (w : World) (d : ℕ) : Prop :=
  ∀ a, 0 < a → a ≤ QueueName.domainEvents.maxAttempts →
    ∃ x ∈ w.refusals, x.attempt = some ⟨.domainEvents, d, a⟩

theorem Accounted.not_outOfAttempts (hr : Reachable allowed s) {d : ℕ}
    {e : Entry (Option Attempt) JobData} (hjob : s.world.job .domainEvents d = some e) (hover : e.Over)
    (h : ∀ eventName ∈ notificationsFor e.data.eventName, Accounted s d e eventName) :
    ¬ OutOfAttempts s.world d := by
  intro hout
  rcases hover with hcompleted | hfailed
  · -- the attempt that succeeded was not refused anything
    obtain ⟨hpos, hle, hunrefused, -⟩ := hr.inv.outcome_completed hjob hcompleted
    obtain ⟨x, hx, ht⟩ := hout _ hpos hle
    exact hunrefused x hx ht
  · have hfalse := fun a => hr.inv.outcome_failed (a := a) hjob hfailed
    obtain ⟨-, hlast⟩ := hfalse 1 Nat.one_pos (by decide)
    obtain ⟨name, hname, -⟩ := hlast e hjob
    rcases h name (List.mem_of_getLast? hname) with ⟨n, y, a, hy, ht, heq, -⟩ | ⟨k, x, hx, hrecords⟩
    · obtain ⟨hbegan, -⟩ := hr.inv.made .notifications n y hy _ ht
      have hle := (hbegan.le hjob).trans (hr.inv.valid .domainEvents d e hjob).started_le
      obtain ⟨name', hname', hnever⟩ := (hfalse a (let ⟨_, _, hpos, _⟩ := hbegan; hpos) hle).2 e hjob
      obtain rfl := Option.some.inj (hname.symm.trans hname')
      exact hnever n y hy ht heq
    · have hqueue := hr.inv.originalQueue hx
      rw [hrecords.originalQueue] at hqueue
      revert hqueue
      decide

theorem accounted_of_not_outOfAttempts (hr : Reachable DeadLetters s) {d : ℕ}
    {e : Entry (Option Attempt) JobData} (hjob : s.world.job .domainEvents d = some e) (hover : e.Over)
    (h : ¬ OutOfAttempts s.world d) :
    ∀ eventName ∈ notificationsFor e.data.eventName, Accounted s d e eventName := by
  intro eventName hname
  rcases hover with hcompleted | hfailed
  · obtain ⟨-, -, -, hnotified⟩ := hr.inv.outcome_completed hjob hcompleted
    obtain ⟨n, y, hy, ht, rfl, hpayload⟩ := hnotified e hjob eventName hname
    refine .inl ⟨n, y, _, hy, ht, rfl, hpayload, ?_⟩
    rw [← hpayload]
    exact hr.accounted hy
  · exact absurd (fun a hpos hle => (hr.inv.outcome_failed hjob hfailed hpos hle).1) h

/-- Whatever attempts fail, and in whatever order the workers go on: when the retries of the job of an
    event have ended, every notification that the event requires is accounted for, unless all attempts
    failed. -/
theorem notifications_delivered (s : State) (hr : Reachable DeadLetters s) (d : ℕ)
    (e : Entry (Option Attempt) JobData) (hjob : s.world.job .domainEvents d = some e)
    (hover : e.Over) :
    (∀ eventName ∈ notificationsFor e.data.eventName, Accounted s d e eventName) ↔
      ¬ OutOfAttempts s.world d :=
  ⟨Accounted.not_outOfAttempts hr hjob hover, accounted_of_not_outOfAttempts hr hjob hover⟩

section Runs

def transferEvent : DomainEventJob :=
  { name := .transferCompleted
    outboxId := "e1"
    eventName := .transferCompleted
    aggregateId := "t1"
    payload := [("amount", .number 5)]
    occurredAt := 1 }

/-- The queue cannot be reached. -/
def unreachable : Choice := { fault := some ⟨"unreachable"⟩ }

/-- The event of a transfer is published, and the first of three attempts begins. -/
def published : List (Label Request Choice) :=
  [.start (.publish transferEvent), .step 0 {}, .start (.work .domainEvents 0), .step 1 {}]

/-- In all three attempts the queue of the notifications cannot be reached. -/
def lossy : List (Label Request Choice) :=
  published ++
    [.step 1 unreachable, .step 1 {},
      .start (.work .domainEvents 0), .step 2 {}, .step 2 unreachable, .step 2 {},
      .start (.work .domainEvents 0), .step 3 {}, .step 3 unreachable, .step 3 {}]

theorem notifications_lost : ∃ s d e eventName, Reachable DeadLetters s ∧
    s.world.job .domainEvents d = some e ∧
    e.data.eventName = DomainEventName.transferCompleted.value ∧ e.Over ∧
    eventName ∈ notificationsFor e.data.eventName ∧ ¬ Accounted s d e eventName := by
  have hrun : (server.runUnder DeadLetters lossy ⟨World.empty, []⟩).map (fun s =>
      decide (s.world.jobs .notifications = [] ∧ s.world.jobs .deadLetter = [] ∧
        s.world.job .domainEvents 0 = some ⟨"TransferCompleted", eventData transferEvent, none,
          .failed, 3, 3⟩)) = some true := by
    decide +kernel
  obtain ⟨s, hs, hfacts⟩ := Option.map_eq_some_iff.mp hrun
  obtain ⟨hnotifications, hdeadLetter, hjob⟩ := of_decide_eq_true hfacts
  refine ⟨s, 0, _, DomainEventName.transferSent.value, Server.reaches_of_runUnder hs, hjob, rfl,
    .inr rfl, by decide, ?_⟩
  rintro (⟨n, y, a, hy, -⟩ | ⟨k, x, hx, -⟩)
  · rw [World.job, hnotifications] at hy
    cases hy
  · rw [World.job, hdeadLetter] at hx
    cases hx

/-- The first attempt fails between the two notifications, and the second succeeds. -/
def retried : List (Label Request Choice) :=
  published ++
    [.step 1 {}, .step 1 unreachable, .step 1 {},
      .start (.work .domainEvents 0), .step 2 {}, .step 2 {}, .step 2 {}, .step 2 {}]

theorem notifications_delivered_retried : ∃ s e, Reachable DeadLetters s ∧
    s.world.job .domainEvents 0 = some e ∧ e.attemptsMade = 2 ∧
    ∀ eventName ∈ [DomainEventName.transferSent.value, DomainEventName.transferReceived.value],
      Accounted s 0 e eventName := by
  have hrun : (server.runUnder DeadLetters retried ⟨World.empty, []⟩).map (fun s =>
      decide (s.world.refusals = [⟨some ⟨.domainEvents, 0, 1⟩, .notifications⟩] ∧
        s.world.job .domainEvents 0 = some ⟨"TransferCompleted", eventData transferEvent, none,
          .completed, 2, 2⟩)) = some true := by
    decide +kernel
  obtain ⟨s, hs, hfacts⟩ := Option.map_eq_some_iff.mp hrun
  obtain ⟨hrefusals, hjob⟩ := of_decide_eq_true hfacts
  have hr : Reachable DeadLetters s := Server.reaches_of_runUnder hs
  refine ⟨s, _, hr, hjob, rfl, ?_⟩
  refine (notifications_delivered s hr 0 _ hjob (.inl rfl)).mpr fun hout => ?_
  obtain ⟨x, hx, ht⟩ := hout 2 (by decide) (by decide)
  rw [hrefusals] at hx
  rw [List.mem_singleton.mp hx] at ht
  cases ht

end Runs

end LiorParisWallet.Queues
