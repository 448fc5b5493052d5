import LiorParisWallet.Queues.Attempts

/-!
# What the queues pass on

Jobs are taken, retried, buried and put back, and at each turn the data is wrapped anew.  Whatever is sent in
the end was published under the name of an event that requires it.
-/

namespace LiorParisWallet.Queues

open Async Jobs

/-- A notification with this name and payload is due. -/
def Due (P : DomainEventName → Record → Prop) (eventName : String) (payload : Record) : Prop :=
  ∃ name, P name payload ∧ eventName ∈ notificationsFor name.value

/-- What the data of a job in the queue owes to what was published. -/
def Owed (P : DomainEventName → Record → Prop) : (q : QueueName) → Data q → Prop
  | .domainEvents, data => ∃ name : DomainEventName, P name data.payload ∧ data.eventName = name.value
  | .notifications, data => Due P data.eventName data.payload
  | .deadLetter, data => data.originalQueue = QueueName.notifications.value ∧
      Due P data.data.eventName data.data.payload

/-- What an operation of a worker may pass on. -/
def Passes (P : DomainEventName → Record → Prop) : Op → Prop
  | .add q _ data => ∀ now, Owed P q (data now)
  | .send eventName payload => Due P eventName payload
  | _ => True

structure World.Traced (P : DomainEventName → Record → Prop) (w : World) : Prop where
  jobs : ∀ q k e, w.job q k = some e → Owed P q e.data
  sendings : ∀ x ∈ w.sendings, Due P x.eventName x.payload

variable {P : DomainEventName → Record → Prop} {w w' : World} {i : ℕ} {o : Op}

theorem World.Traced.add (h : w.Traced P) {q : QueueName} {name : String} {data : Data q}
    {origin : Option Attempt} (hdata : Owed P q data) : (w.add q name data origin).Traced P :=
  ⟨World.job_add h.jobs hdata, h.sendings⟩

/-- The attempts leave the data of a job alone. -/
theorem World.Traced.modify (h : w.Traced P) {q : QueueName} {id : ℕ}
    {f : Entry (Option Attempt) (Data q) → Entry (Option Attempt) (Data q)}
    (hf : ∀ e, (f e).data = e.data) : (w.modify q id f).Traced P where
  jobs := World.job_modify (fun q' k e he _ => h.jobs q' k e he) fun e he => by
    rw [hf e]
    exact h.jobs q id e he
  sendings := h.sendings

theorem traced_of_effect {r : Except Error (Ans o)} (h : w.Traced P) (ho : Passes P o)
    (he : Effect i w o r w') : w'.Traced P := by
  cases he with
  | refused => exact ⟨h.jobs, h.sendings⟩
  | added q name data now => exact h.add (ho now)
  | @took q id e hjob hwaiting =>
    have htaken : (w.modify q id .take).Traced P := h.modify fun _ => rfl
    exact ⟨htaken.jobs, htaken.sendings⟩
  | missed => exact h
  | completed q id => exact h.modify fun _ => rfl
  | failed q id => exact h.modify fun _ => rfl
  | sent eventName payload =>
    exact ⟨h.jobs, fun x hx => (List.mem_append.mp hx).elim (h.sendings x) fun hx =>
      List.mem_singleton.mp hx ▸ ho⟩
  | unsent eventName payload e =>
    exact ⟨h.jobs, fun x hx => (List.mem_append.mp hx).elim (h.sendings x) fun hx =>
      List.mem_singleton.mp hx ▸ ho⟩

def provenance (P : DomainEventName → Record → Prop) : Contract server where
  Inv w := w.Traced P
  Pre _ _ o _ := Passes P o
  Rely _ _ _ := True
  rely_refl _ _ := trivial
  rely_trans _ _ := trivial
  inv_perform hinv hpre hp := traced_of_effect hinv hpre (effect_of_perform hp)
  rely_perform _ _ _ _ := trivial

section Workers

variable {req : Request} {answers : List (Answer Ans Error)}

theorem passes_await (ho : Passes P o) :
    (provenance P).wp req i (await o) (fun _ _ _ => True) answers w :=
  Contract.wp_call fun _ _ _ => ⟨ho, fun _ _ _ _ => trivial⟩

theorem mem_notificationsFor_transfer {eventName : String}
    (h : eventName = DomainEventName.transferSent.value ∨ eventName = DomainEventName.transferReceived.value) :
    eventName ∈ notificationsFor DomainEventName.transferCompleted.value := by
  rw [notificationsFor, if_pos rfl]
  simpa using h

theorem process_domainEvents_passes {job : Job JobData} (h : Owed P .domainEvents job.data) :
    (provenance P).wp req i (DomainEventsProcessor.process job) (fun _ _ _ => True) answers w := by
  obtain ⟨name, hname, heq⟩ := h
  unfold DomainEventsProcessor.process
  dsimp only
  split
  · rename_i htransfer
    -- the name under which the job is routed is that of the event
    have hdue : ∀ eventName, eventName = DomainEventName.transferSent.value ∨
        eventName = DomainEventName.transferReceived.value → Due P eventName job.data.payload := by
      intro eventName h
      refine ⟨name, hname, ?_⟩
      rw [← heq, htransfer]
      exact mem_notificationsFor_transfer h
    refine Contract.wp_bind.mpr (Contract.wp_mono (passes_await fun _ => hdue _ (.inl rfl)) fun _ r _ _ => ?_)
    cases r with
    | error e => trivial
    | ok _ =>
      refine Contract.wp_bind.mpr (Contract.wp_mono (passes_await fun _ => hdue _ (.inr rfl)) fun _ r _ _ => ?_)
      cases r <;> trivial
  · split
    · rename_i hdeposit
      have hdeposit : job.data.eventName = DomainEventName.depositSucceeded.value := by simpa using hdeposit
      refine passes_await fun _ => ⟨name, hname, ?_⟩
      show job.data.eventName ∈ notificationsFor name.value
      rw [← heq, hdeposit]
      decide
    · trivial

theorem process_deadLetter_passes {job : Job DeadLetterData} (h : Owed P .deadLetter job.data) :
    (provenance P).wp req i (DeadLetterProcessor.process job) (fun _ _ _ => True) answers w := by
  obtain ⟨hqueue, hdue⟩ := h
  unfold DeadLetterProcessor.process
  dsimp only
  split
  · trivial
  · -- the only queue that buries jobs is `notifications`, so that is where they go back
    rw [show DeadLetterProcessor.queueMap job.data.originalQueue = some _ from if_pos hqueue]
    exact passes_await fun _ => hdue

theorem process_passes {q : QueueName} {job : Job (Data q)} (h : Owed P q job.data) :
    (provenance P).wp req i (process q job) (fun _ _ _ => True) answers w := by
  cases q with
  | domainEvents => exact process_domainEvents_passes h
  | notifications => exact passes_await h
  | deadLetter => exact process_deadLetter_passes h

theorem onFailed_passes {q : QueueName} {job : Job (Data q)} {err : Error} (h : Owed P q job.data) :
    (provenance P).wp req i (onFailed q job err) (fun _ _ _ => True) answers w := by
  cases q with
  | domainEvents => trivial
  | notifications =>
    unfold onFailed NotificationsProcessor.onFailed
    dsimp only
    split
    · exact passes_await fun _ => ⟨rfl, h⟩
    · trivial
  | deadLetter => trivial

theorem work_passes (q : QueueName) (id : ℕ) :
    (provenance P).wp req i (work q id) (fun _ _ _ => True) answers w := by
  refine Contract.wp_bind.mpr (Contract.wp_call fun w₁ _ hinv => ⟨trivial, fun ω r w₂ hp => ?_⟩)
  have heffect : Effect i w₁ (.take q id) r w₂ := effect_of_perform (ω := ω) hp
  cases heffect with
  | missed => trivial
  | @took _ _ e hjob hwaiting =>
    have howed : Owed P q e.data := hinv.jobs q id e hjob
    refine Contract.wp_bind.mpr (Contract.wp_settled.mpr (Contract.wp_mono (process_passes howed) fun _ r _ _ => ?_))
    -- a failed attempt leaves the data for the next one, or for the handler
    cases r with
    | ok _ => exact passes_await trivial
    | error err =>
      refine Contract.wp_bind.mpr (Contract.wp_mono (passes_await trivial) fun _ r _ _ => ?_)
      cases r with
      | error e => trivial
      | ok _ => exact onFailed_passes howed

end Workers

end LiorParisWallet.Queues
