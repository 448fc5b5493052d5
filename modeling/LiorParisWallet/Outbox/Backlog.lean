import LiorParisWallet.Async.Interference
import LiorParisWallet.Draining.Batches
import LiorParisWallet.Outbox.Delivery

/-!
# The backlog drains

A round finds the 50 oldest unprocessed events and tries each of them once.  As long as later events are
created later, a round tries 50 events of the backlog, or all that are left of it; an event is tried at
most `MAX_RETRIES` times.
-/

namespace LiorParisWallet.Outbox

open Async Relational Draining

namespace World

/-- The events that `findUnprocessed` can return. -/
def backlog (w : World) : List OutboxEvent := w.outbox.rows.filter (·.unprocessed)

/-- How often adding the job to the queue was attempted. -/
def attempts (w : World) (job : DomainEventJob) : ℕ :=
  w.domainEvents.count job + w.rejected.count job

end World

/-! ## Rounds -/

/-- The operations of the store succeed, `add` may fail, and events that arrive are created after those of
    the backlog. -/
def Favourable (backlog : List OutboxEvent) : Op → Choice → Prop
  | .add _, _ => True
  | .saveOutboxEvent _, ω => ∀ b ∈ backlog, b.createdAt < ω.now
  | _, ω => ω.fault = none

/-- Rounds of `publishPendingEvents`, each of which begins when the one before it has ended.  Transactions
    of other services commit their events at any moment. -/
inductive Rounds (backlog : List OutboxEvent) (s : State) : ℕ → State → Prop where
  | zero : Rounds backlog s 0 s
  | succ {n : ℕ} {s₁ s₂ s' : State} {r : Except Err Unit} :
      Rounds backlog s n s₁ → server.next s₁ (.start .publishPendingEvents) = some s₂ →
        server.Reaches (Server.Admits (· ≠ .publishPendingEvents) (Favourable backlog)) s₂ s' →
          s'.outcome s₁.calls.length = some r → Rounds backlog s (n + 1) s'

/-! ## Arrivals -/

/-- The operation commits an event. -/
def Commits (o : Op) : Prop := ∃ data, o = .saveOutboxEvent data

variable {w w₀ w₁ w₂ w' : World} {backlog : List OutboxEvent} {i : ℕ}

/-- Events have arrived, and nothing else has happened. -/
structure Arrived (backlog : List OutboxEvent) (w w' : World) : Prop where
  events : ∀ e ∈ w.outbox, e ∈ w'.outbox
  later : ∀ e ∈ w'.outbox, e ∈ w.outbox ∨ ∀ b ∈ backlog, b.createdAt < e.createdAt
  domainEvents : w'.domainEvents = w.domainEvents
  rejected : w'.rejected = w.rejected
  processing : w'.processing = w.processing

theorem Arrived.refl (w : World) : Arrived backlog w w :=
  ⟨fun _ he => he, fun _ he => .inl he, rfl, rfl, rfl⟩

theorem Arrived.trans (h : Arrived backlog w w₁) (h' : Arrived backlog w₁ w₂) :
    Arrived backlog w w₂ where
  events e he := h'.events e (h.events e he)
  later e he := (h'.later e he).elim (h.later e) .inr
  domainEvents := h'.domainEvents.trans h.domainEvents
  rejected := h'.rejected.trans h.rejected
  processing := h'.processing.trans h.processing

theorem Arrived.attempts (h : Arrived backlog w w') (job : DomainEventJob) :
    w'.attempts job = w.attempts job := by
  rw [World.attempts, World.attempts, h.domainEvents, h.rejected]

theorem arrived_of_saved {data : OutboxData} {ω : Choice} {r : Except Err Unit}
    (hω : ∀ b ∈ backlog, b.createdAt < ω.now)
    (h : perform i (.saveOutboxEvent data) ω w = some (r, w')) : Arrived backlog w w' := by
  simp only [perform] at h
  split at h
  · cases h
    exact .refl w
  · cases h
    exact .refl w
  · rename_i hinsert
    cases h
    have hmem := fun e => Table.mem_insert? (a := e) (insertInto_eq_ok.mp hinsert)
    -- the only new row is the event that arrives now
    refine { (Arrived.refl w : Arrived backlog w w) with
      events := fun e he => (hmem e).mpr (.inl he)
      later := fun e he => ((hmem e).mp he).imp_right ?_ }
    rintro rfl
    exact hω

/-- The other services only make events arrive. -/
theorem arrivals_surround : server.Surrounds (· ≠ .publishPendingEvents) (Favourable backlog) Commits
    (Arrived backlog) where
  refl := .refl
  trans := .trans
  serves := by
    intro req hreq
    cases req with
    | publishPendingEvents => exact absurd rfl hreq
    | depositSucceeded => exact Program.all_call ⟨_, rfl⟩
    | transferCompleted => exact Program.all_call ⟨_, rfl⟩
  changes := by
    rintro j _ ω w r w' ⟨data, rfl⟩ hω hp
    exact arrived_of_saved (i := j) hω hp

/-! ## What the operations of a tick do -/

section Transitions

variable {r : Except Err Unit}

theorem add_cases {job : DomainEventJob} {r : Except Err (Ans (.add job))}
    (h : server.Transition (Favourable backlog) i (.add job) w r w') :
    (r = .ok () ∧ w' = { w with domainEvents := w.domainEvents ++ [job] }) ∨
      ∃ e, r = .error e ∧ w' = { w with rejected := w.rejected ++ [job] } := by
  obtain ⟨ω, -, hp⟩ := h
  have he : Effect i w (.add job) r w' := effect_of_perform hp
  cases he with
  | failed e hne => exact absurd rfl (hne job)
  | rejected => exact .inr ⟨_, rfl, rfl⟩
  | added => exact .inl ⟨rfl, rfl⟩

theorem markProcessed_cases {id : String} {r : Except Err (Ans (.markProcessed id))}
    (h : server.Transition (Favourable backlog) i (.markProcessed id) w r w') :
    ∃ now, r = .ok () ∧ w' = w.markProcessed id now := by
  obtain ⟨ω, hω, hp⟩ := h
  have hω : ω.fault = none := hω
  simp only [server, perform, hω, Option.some.injEq, Prod.mk.injEq] at hp
  exact ⟨ω.now, hp.1.symm, hp.2.symm⟩

theorem markFailedAttempt_cases {id : String} {r : Except Err (Ans (.markFailedAttempt id))}
    (h : server.Transition (Favourable backlog) i (.markFailedAttempt id) w r w') :
    r = .ok () ∧ w' = w.markFailedAttempt id := by
  obtain ⟨ω, hω, hp⟩ := h
  have hω : ω.fault = none := hω
  simp only [server, perform, hω, Option.some.injEq, Prod.mk.injEq] at hp
  exact ⟨hp.1.symm, hp.2.symm⟩

theorem findUnprocessed_cases {limit : ℕ} {r : Except Err (Ans (.findUnprocessed limit))}
    (h : server.Transition (Favourable backlog) i (.findUnprocessed limit) w r w') :
    ∃ order, Ordered w order ∧ r = .ok (order.take limit) ∧ w' = w := by
  obtain ⟨ω, hω, hp⟩ := h
  have hω : ω.fault = none := hω
  simp only [server, perform, hω] at hp
  split at hp
  · rename_i hordered
    cases hp
    exact ⟨ω.order, hordered, rfl, rfl⟩
  · cases hp

end Transitions

/-! ## One event -/

/-- The job of the event has been tried once, and the event is as it was. -/
structure Adding (backlog : List OutboxEvent) (event : OutboxEvent) (w w' : World) : Prop where
  events : ∀ e ∈ w.outbox, e ∈ w'.outbox
  later : ∀ e ∈ w'.outbox, e ∈ w.outbox ∨ ∀ b ∈ backlog, b.createdAt < e.createdAt
  attempts : ∀ job, w'.attempts job = w.attempts job + if job = event.job then 1 else 0
  processing : w'.processing = w.processing

/-- The event has been tried once, and the attempt is recorded in its row. -/
structure Attempted (backlog : List OutboxEvent) (event : OutboxEvent) (w w' : World) : Prop where
  others : ∀ e ∈ w.outbox, e.id ≠ event.id → e ∈ w'.outbox
  settled : (∃ now, { event with processedAt := some now } ∈ w'.outbox) ∨
    { event with retryCount := event.retryCount + 1 } ∈ w'.outbox
  later : ∀ e ∈ w'.outbox, e ∈ w.outbox ∨ e.id = event.id ∨ ∀ b ∈ backlog, b.createdAt < e.createdAt
  attempts : ∀ job, w'.attempts job = w.attempts job + if job = event.job then 1 else 0
  processing : w'.processing = w.processing

section Event

variable {event : OutboxEvent}

theorem Adding.arrived (h : Adding backlog event w w₁) (h' : Arrived backlog w₁ w₂) :
    Adding backlog event w w₂ where
  events e he := h'.events e (h.events e he)
  later e he := (h'.later e he).elim (h.later e) .inr
  attempts job := (h'.attempts job).trans (h.attempts job)
  processing := h'.processing.trans h.processing

theorem Attempted.arrived (h : Attempted backlog event w w₁) (h' : Arrived backlog w₁ w₂) :
    Attempted backlog event w w₂ where
  others e he hne := h'.events e (h.others e he hne)
  settled := h.settled.imp (fun ⟨now, hnow⟩ => ⟨now, h'.events _ hnow⟩) (h'.events _)
  later e he := (h'.later e he).elim (h.later e) fun hlater => .inr (.inr hlater)
  attempts job := (h'.attempts job).trans (h.attempts job)
  processing := h'.processing.trans h.processing

theorem count_concat {job job' : DomainEventJob} (jobs : List DomainEventJob) :
    (jobs ++ [job']).count job = jobs.count job + if job = job' then 1 else 0 := by
  rw [List.count_append, List.count_singleton]
  simp only [beq_iff_eq, eq_comm (a := job')]

theorem adding_of_added (h : Arrived backlog w w₁) : Adding backlog event w
    { w₁ with domainEvents := w₁.domainEvents ++ [event.job] } where
  events := h.events
  later := h.later
  attempts job := by
    rw [← h.attempts job]
    simp only [World.attempts, count_concat]
    omega
  processing := h.processing

theorem adding_of_rejected (h : Arrived backlog w w₁) : Adding backlog event w
    { w₁ with rejected := w₁.rejected ++ [event.job] } where
  events := h.events
  later := h.later
  attempts job := by
    rw [← h.attempts job]
    simp only [World.attempts, count_concat]
    omega
  processing := h.processing

/-- The row of the event is written. -/
theorem attempted_of_update (he : event ∈ w.outbox) (h : Adding backlog event w w₁)
    (f : OutboxEvent → OutboxEvent) (hf : ∀ a b, Entity.clash (f a) b = Entity.clash a b)
    (hid : ∀ e, (f e).id = e.id)
    (hsettled : (∃ now, f event = { event with processedAt := some now }) ∨
      f event = { event with retryCount := event.retryCount + 1 }) :
    Attempted backlog event w { w₁ with outbox := w₁.outbox.update (·.id == event.id) f hf } := by
  have hmem : ∀ e ∈ w₁.outbox, (if e.id == event.id then f e else e) ∈
      w₁.outbox.update (·.id == event.id) f hf := fun e he => List.mem_map.mpr ⟨e, he, rfl⟩
  refine ⟨fun e he hne => ?_, ?_, fun e he => ?_, h.attempts, h.processing⟩
  · -- rows of other events are as they were
    have := hmem e (h.events e he)
    rwa [if_neg (by simpa using hne)] at this
  · have := hmem event (h.events event he)
    rw [if_pos (beq_self_eq_true _)] at this
    rcases hsettled with ⟨now, hnow⟩ | hretried
    · exact .inl ⟨now, hnow ▸ this⟩
    · exact .inr (hretried ▸ this)
  · obtain ⟨e₁, he₁, rfl⟩ := List.mem_map.mp he
    by_cases heq : e₁.id = event.id
    · right
      left
      rw [if_pos (by simpa using heq), hid]
      exact heq
    · rw [if_neg (by simpa using heq)]
      exact (h.later e₁ he₁).imp_right .inr

/-- A try: what the loop does for one event, whatever becomes of `add`. -/
theorem wp_publishEvent (he : event ∈ w.outbox) :
    (publishEvent event).wp (server.Transition (Favourable backlog) i) (Arrived backlog)
      (fun r w' => r = .ok () ∧ Attempted backlog event w w') w := by
  have hrefl : ∀ w, Arrived backlog w w := .refl
  -- the `catch` block, entered after the job was rejected
  have hcatch : ∀ w₁, Adding backlog event w w₁ →
      (await (.markFailedAttempt event.id)).wp (server.Transition (Favourable backlog) i)
        (Arrived backlog) (fun r w' => r = .ok () ∧ Attempted backlog event w w') w₁ := by
    intro w₁ hadding
    refine Program.wp_call fun w₂ r w₃ h₂ ht w₄ h₄ => ?_
    obtain ⟨rfl, rfl⟩ := markFailedAttempt_cases ht
    refine ⟨rfl, Attempted.arrived ?_ h₄⟩
    exact attempted_of_update he (hadding.arrived h₂)
      (fun e => { e with retryCount := e.retryCount + 1 }) (fun _ _ => rfl) (fun _ => rfl) (.inr rfl)
  refine Program.wp_handle hrefl (Program.wp_bind hrefl (Program.wp_call fun w₁ r w₂ h₁ ht w₃ h₃ => ?_))
  rcases add_cases ht with ⟨rfl, rfl⟩ | ⟨e, rfl, rfl⟩
  · -- `add` has got through, and the store does not fail
    refine Program.wp_call fun w₄ r w₅ h₄ ht w₆ h₆ => ?_
    obtain ⟨now, rfl, rfl⟩ := markProcessed_cases ht
    refine ⟨rfl, Attempted.arrived ?_ h₆⟩
    exact attempted_of_update he (((adding_of_added h₁).arrived h₃).arrived h₄)
      (fun e => { e with processedAt := some now }) (fun _ _ => rfl) (fun _ => rfl) (.inl ⟨now, rfl⟩)
  · exact hcatch w₃ ((adding_of_rejected h₁).arrived h₃)

end Event

/-! ## The tries that are left -/

/-- How often the event can still be tried. -/
def OutboxEvent.triesLeft (e : OutboxEvent) : ℕ :=
  if e.unprocessed then maxRetries - e.retryCount else 0

def World.triesLeft (w : World) (id : String) : ℕ :=
  match w.outbox.find? (·.id == id) with
  | some e => OutboxEvent.triesLeft e
  | none => 0

theorem triesLeft_of_mem {e : OutboxEvent} (he : e ∈ w.outbox) :
    w.triesLeft e.id = OutboxEvent.triesLeft e := by
  have hfind : w.outbox.find? (·.id == e.id) = some e :=
    Table.find?_eq_some he (beq_self_eq_true _) fun b hb => BEq.comm.trans hb
  rw [World.triesLeft, hfind]

theorem triesLeft_pos_iff {e : OutboxEvent} : 0 < OutboxEvent.triesLeft e ↔ e.unprocessed = true := by
  unfold OutboxEvent.triesLeft OutboxEvent.unprocessed
  split
  · rename_i h
    simp only [Bool.and_eq_true, decide_eq_true_eq] at h
    simp only [h, decide_true, Bool.and_true, iff_true]
    omega
  · rename_i h
    simpa using h

/-- The event `b` of the backlog of `w₀` has become `e`. -/
structure Tried (w₀ w : World) (b e : OutboxEvent) : Prop where
  job : e.job = b.job
  createdAt : e.createdAt = b.createdAt
  retries : e.retryCount ≤ maxRetries
  failed : e.processedAt = none → w.attempts b.job = w₀.attempts b.job + e.retryCount
  published : e.processedAt ≠ none → w₀.attempts b.job < w.attempts b.job

/-- The backlog of `w₀` is in `w` still, and what can be found besides it is younger. -/
structure Progress (w₀ w : World) : Prop where
  tried : ∀ b ∈ w₀.backlog, ∃ e ∈ w.outbox, Tried w₀ w b e
  later : ∀ e ∈ w.outbox, e.unprocessed = true →
    (∃ b ∈ w₀.backlog, b.id = e.id) ∨ ∀ b ∈ w₀.backlog, b.createdAt < e.createdAt

/-- The events `es` have been tried in turn. -/
structure Worked (w₀ : World) (es : List OutboxEvent) (w w' : World) : Prop where
  progress : Progress w₀ w → Progress w₀ w'
  rows : ∀ e ∈ w.outbox, ∃ e' ∈ w'.outbox, e'.id = e.id
  le : ∀ e ∈ w.outbox, w'.triesLeft e.id ≤ w.triesLeft e.id
  lt : ∀ e ∈ es, w'.triesLeft e.id + 1 ≤ w.triesLeft e.id

theorem Worked.trans {es es' : List OutboxEvent} (h : Worked w₀ es w w₁) (h' : Worked w₀ es' w₁ w₂)
    (hes : ∀ e ∈ es, e ∈ w.outbox) (hes' : ∀ e ∈ es', e ∈ w.outbox) :
    Worked w₀ (es ++ es') w w₂ := by
  have hle : ∀ e ∈ w.outbox, w₂.triesLeft e.id ≤ w₁.triesLeft e.id := by
    intro e he
    obtain ⟨e₁, he₁, hid⟩ := h.rows e he
    rw [← hid]
    exact h'.le e₁ he₁
  refine ⟨fun hp => h'.progress (h.progress hp), fun e he => ?_, fun e he => ?_, fun e he => ?_⟩
  · obtain ⟨e₁, he₁, hid⟩ := h.rows e he
    obtain ⟨e₂, he₂, hid'⟩ := h'.rows e₁ he₁
    exact ⟨e₂, he₂, hid'.trans hid⟩
  · exact Nat.le_trans (hle e he) (h.le e he)
  · rcases List.mem_append.mp he with he | he
    · exact Nat.le_trans (Nat.succ_le_succ (hle e (hes e he))) (h.lt e he)
    · exact Nat.le_trans (h'.lt e he) (h.le e (hes' e he))

theorem Arrived.worked (h : Arrived w₀.backlog w w') : Worked w₀ [] w w' := by
  refine ⟨fun hp => ⟨fun b hb => ?_, fun e he hu => ?_⟩, fun e he => ⟨e, h.events e he, rfl⟩,
    fun e he => ?_, fun e he => ?_⟩
  · obtain ⟨e, he, htried⟩ := hp.tried b hb
    exact ⟨e, h.events e he, { htried with
      failed := fun hnone => (h.attempts _).trans (htried.failed hnone)
      published := fun hsome => (h.attempts b.job).symm ▸ htried.published hsome }⟩
  · exact (h.later e he).elim (fun he => hp.later e he hu) .inr
  · rw [triesLeft_of_mem he, triesLeft_of_mem (h.events e he)]
  · cases he

/-- A row that has been tried has a try less. -/
theorem Attempted.row {event : OutboxEvent} (hunprocessed : event.unprocessed = true)
    (h : Attempted backlog event w w') : ∃ e ∈ w'.outbox, e.job = event.job ∧
      e.createdAt = event.createdAt ∧ OutboxEvent.triesLeft e + 1 ≤ OutboxEvent.triesLeft event ∧
      (e.processedAt ≠ none ∧ e.retryCount = event.retryCount ∨
        e.processedAt = none ∧ e.retryCount = event.retryCount + 1) := by
  have hpos := triesLeft_pos_iff.mpr hunprocessed
  rcases h.settled with ⟨now, hmem⟩ | hmem
  · exact ⟨_, hmem, rfl, rfl, hpos, .inl ⟨Option.some_ne_none now, rfl⟩⟩
  · have hnone : event.processedAt = none ∧ event.retryCount < maxRetries := by
      simpa [OutboxEvent.unprocessed] using hunprocessed
    refine ⟨_, hmem, rfl, rfl, ?_, .inr ⟨hnone.1, rfl⟩⟩
    simp only [OutboxEvent.triesLeft, OutboxEvent.unprocessed, hnone, Option.isNone_none, Bool.true_and,
      decide_true, if_true, decide_eq_true_eq]
    split <;> omega

/-- Setting and clearing the flag is no work. -/
theorem worked_flag (w : World) (processing : Option ℕ) :
    Worked w₀ [] w { w with processing := processing } where
  progress hp := ⟨fun b hb => by
    obtain ⟨e, he, htried⟩ := hp.tried b hb
    exact ⟨e, he, { htried with failed := htried.failed, published := htried.published }⟩, hp.later⟩
  rows e he := ⟨e, he, rfl⟩
  le _ _ := Nat.le_refl _
  lt e he := by cases he

/-- The backlog is still there when one event has been tried. -/
theorem Attempted.progress {event : OutboxEvent} (he : event ∈ w.outbox)
    (hunprocessed : event.unprocessed = true) (h : Attempted w₀.backlog event w w') (hp : Progress w₀ w) :
    Progress w₀ w' := by
  obtain ⟨e', he', hjob, hcreated, -, hsettled⟩ := h.row hunprocessed
  have hid' : e'.id = event.id := id_of_job hjob
  have hretries : event.processedAt = none ∧ event.retryCount < maxRetries := by
    simpa [OutboxEvent.unprocessed] using hunprocessed
  refine ⟨fun b hb => ?_, fun e he₁ hu => ?_⟩
  · obtain ⟨e, he₁, htried⟩ := hp.tried b hb
    by_cases heq : e.id = event.id
    · -- this was the event that was tried: its row counts the attempt, or is marked
      obtain rfl := eq_of_id he₁ he heq
      have hattempts := h.attempts b.job
      rw [if_pos htried.job.symm] at hattempts
      have hfailed := htried.failed hretries.1
      rcases hsettled with ⟨hsome, hcount⟩ | ⟨hnone, hcount⟩
      · exact ⟨e', he', hjob.trans htried.job, hcreated.trans htried.createdAt, by omega,
          fun hnone => absurd hnone hsome, fun _ => by omega⟩
      · exact ⟨e', he', hjob.trans htried.job, hcreated.trans htried.createdAt, by omega,
          fun _ => by omega, fun hsome => absurd hnone hsome⟩
    · -- another event of the backlog has neither been tried nor written
      have hne : b.job ≠ event.job := fun h => heq (id_of_job (htried.job.trans h))
      have hattempts := h.attempts b.job
      rw [if_neg hne, Nat.add_zero] at hattempts
      exact ⟨e, h.others e he₁ heq, { htried with
        failed := fun hnone => hattempts.trans (htried.failed hnone)
        published := fun hsome => hattempts.symm ▸ htried.published hsome }⟩
  · rcases h.later e he₁ with hold | heq | hlater
    · exact hp.later e hold hu
    · obtain rfl := eq_of_id he₁ he' (heq.trans hid'.symm)
      rw [hid', hcreated]
      exact hp.later event he hunprocessed
    · exact .inr hlater

theorem Attempted.worked {event : OutboxEvent} (he : event ∈ w.outbox)
    (hunprocessed : event.unprocessed = true) (h : Attempted w₀.backlog event w w') :
    Worked w₀ [event] w w' := by
  obtain ⟨e', he', hjob, -, hless, -⟩ := h.row hunprocessed
  have hid' : e'.id = event.id := id_of_job hjob
  have hlt : w'.triesLeft event.id + 1 ≤ w.triesLeft event.id := by
    rw [triesLeft_of_mem he, ← hid', triesLeft_of_mem he']
    exact hless
  refine ⟨h.progress he hunprocessed, fun e he₁ => ?_, fun e he₁ => ?_, fun e he₁ => ?_⟩
  · by_cases heq : e.id = event.id
    · exact ⟨e', he', hid'.trans heq.symm⟩
    · exact ⟨e, h.others e he₁ heq, rfl⟩
  · by_cases heq : e.id = event.id
    · rw [heq]
      exact Nat.le_of_succ_le hlt
    · rw [triesLeft_of_mem he₁, triesLeft_of_mem (h.others e he₁ heq)]
  · rw [List.mem_singleton.mp he₁]
    exact hlt

/-! ## One round -/

theorem wp_publishEvents {es : List OutboxEvent} (hnodup : es.Pairwise fun e e' => e.id ≠ e'.id)
    (hes : ∀ e ∈ es, e ∈ w.outbox ∧ e.unprocessed = true) :
    (publishEvents es).wp (server.Transition (Favourable w₀.backlog) i) (Arrived w₀.backlog)
      (fun r w' => r = .ok () ∧ Worked w₀ es w w' ∧ w'.processing = w.processing) w := by
  induction es generalizing w with
  | nil => exact fun w' h => ⟨rfl, h.worked, h.processing⟩
  | cons event es ih =>
    obtain ⟨hne, hnodup⟩ := List.pairwise_cons.mp hnodup
    obtain ⟨hevent, hunprocessed⟩ := hes event List.mem_cons_self
    refine Program.wp_bind .refl (Program.wp_mono (wp_publishEvent hevent) fun r w₁ ⟨hr, h₁⟩ => ?_)
    subst hr
    -- the events that follow are still as the round has found them
    have hrest : ∀ e ∈ es, e ∈ w₁.outbox ∧ e.unprocessed = true := fun e he =>
      ⟨h₁.others e (hes e (List.mem_cons_of_mem _ he)).1 (hne e he).symm,
        (hes e (List.mem_cons_of_mem _ he)).2⟩
    refine Program.wp_mono (ih hnodup hrest) fun r w₂ ⟨hr, h₂, hprocessing⟩ => ⟨hr, ?_, ?_⟩
    · refine (h₁.worked hevent hunprocessed).trans h₂ (fun e he => ?_) fun e he => ?_
      · rwa [List.mem_singleton.mp he]
      · exact (hes e (List.mem_cons_of_mem _ he)).1
    · exact hprocessing.trans h₁.processing

/-- The ids of the backlog. -/
def World.keys (w : World) : List String := w.backlog.map (·.id)

/-- The ids of an outbox table's rows are distinct. -/
theorem pairwise_id {es : List OutboxEvent} (h : es.Nodup) (hes : ∀ e ∈ es, e ∈ w.outbox) :
    es.Pairwise fun e e' => e.id ≠ e'.id :=
  h.imp_of_mem fun he he' hne heq => hne (eq_of_id (hes _ he) (hes _ he') heq)

theorem nodup_order {order : List OutboxEvent} (h : Ordered w order) :
    order.Nodup ∧ ∀ e ∈ order, e ∈ w.outbox ∧ e.unprocessed = true :=
  ⟨h.1.nodup_iff.mpr (w.outbox.nodup.filter _), fun _ he => List.mem_filter.mp (h.1.subset he)⟩

/-- A batch of the oldest events: all of it belongs to the backlog, or all of the backlog to it. -/
theorem full_or_covering (hp : Progress w₀ w) {order : List OutboxEvent} (h : Ordered w order) (n : ℕ) :
    ((order.take n).length = n ∧ ∀ e ∈ order.take n, e.id ∈ w₀.keys) ∨
      ∀ e ∈ order, e.id ∈ w₀.keys → e ∈ order.take n := by
  obtain ⟨-, hrows⟩ := nodup_order h
  have hsorted := h.2
  rw [← List.take_append_drop n order] at hsorted
  obtain ⟨-, -, hbefore⟩ := List.pairwise_append.mp hsorted
  by_cases hall : ∀ e ∈ order, e.id ∈ w₀.keys → e ∈ order.take n
  · exact .inr hall
  · left
    push Not at hall
    obtain ⟨e, he, hkey, hnot⟩ := hall
    have hdrop : e ∈ order.drop n := by
      rw [← List.take_append_drop n order] at he
      exact (List.mem_append.mp he).resolve_left hnot
    refine ⟨List.length_take_of_le ?_, fun e' he' => ?_⟩
    · have := List.length_pos_of_mem hdrop
      rw [List.length_drop] at this
      omega
    · -- an event of the backlog comes after `e'`, so `e'` is not younger than the backlog
      obtain ⟨b, hb, hid⟩ := List.mem_map.mp hkey
      obtain ⟨he'row, hu'⟩ := hrows e' (List.mem_of_mem_take he')
      rcases hp.later e' he'row hu' with ⟨b', hb', hid'⟩ | hlater
      · exact List.mem_map.mpr ⟨b', hb', hid'⟩
      · obtain ⟨e₁, he₁, htried⟩ := hp.tried b hb
        have hsame : e₁ = e :=
          eq_of_id he₁ (hrows e he).1 ((id_of_job htried.job).trans hid)
        have hle := hbefore e' he' e hdrop
        have hlt := hlater b hb
        rw [← hsame, htried.createdAt] at hle
        omega

theorem Worked.triesLeft_le {es : List OutboxEvent} (h : Worked w₀ es w w') (hp : Progress w₀ w) :
    ∀ k ∈ w₀.keys, w'.triesLeft k ≤ w.triesLeft k := by
  intro k hk
  obtain ⟨b, hb, rfl⟩ := List.mem_map.mp hk
  obtain ⟨e, he, htried⟩ := hp.tried b hb
  rw [← id_of_job htried.job]
  exact h.le e he

/-- What a round does, as the backlog sees it. -/
theorem round_of_worked {order : List OutboxEvent} (hp : Progress w₀ w) (h₁ : Worked w₀ [] w w₁)
    (h : Ordered w₁ order) (h₂ : Worked w₀ (order.take 50) w₁ w₂) :
    Draining.Round w₀.keys 50 w.triesLeft w₂.triesLeft := by
  obtain ⟨hnodup, hrows⟩ := nodup_order h
  have hp₁ := h₁.progress hp
  have hle₁ := h₁.triesLeft_le hp
  have hle₂ := h₂.triesLeft_le hp₁
  refine ⟨fun k hk => Nat.le_trans (hle₂ k hk) (hle₁ k hk), ?_⟩
  cases full_or_covering hp₁ h 50 with
  | inl hfull =>
    -- fifty events of the backlog have a try less each
    left
    obtain ⟨hlength, hkeys⟩ := hfull
    have hids : ((order.take 50).map (·.id)).Nodup := List.pairwise_map.mpr
      (pairwise_id (hnodup.sublist (List.take_sublist _ _)) fun e he =>
        (hrows e (List.mem_of_mem_take he)).1)
    have htotal : total w₂.triesLeft w₀.keys + _ ≤ total w₁.triesLeft w₀.keys := total_add_length_le hids
      (List.forall_mem_map.mpr hkeys) hle₂ (List.forall_mem_map.mpr h₂.lt)
    rw [List.length_map, hlength] at htotal
    exact Nat.le_trans htotal (total_le hle₁)
  | inr hcovering =>
    -- every event of the backlog that can be found has a try less
    right
    intro k hk
    obtain ⟨b, hb, rfl⟩ := List.mem_map.mp hk
    obtain ⟨e, he, htried⟩ := hp₁.tried b hb
    have hid : e.id = b.id := id_of_job htried.job
    have hk₁ := hle₁ _ hk
    have hk₂ := hle₂ _ hk
    rw [← hid] at hk hk₁ hk₂ ⊢
    by_cases hu : e.unprocessed = true
    · have horder : e ∈ order := h.1.symm.subset (List.mem_filter.mpr ⟨he, hu⟩)
      have := h₂.lt e (hcovering e horder hk)
      omega
    · have hzero : w₁.triesLeft e.id = 0 := by
        rw [triesLeft_of_mem he]
        exact Nat.eq_zero_of_not_pos fun h => hu (triesLeft_pos_iff.mp h)
      omega

/-- Between rounds. -/
structure Between (w₀ w : World) : Prop where
  progress : Progress w₀ w
  processing : w.processing = none

theorem wp_publishPendingEvents (h : Between w₀ w) :
    publishPendingEvents.wp (server.Transition (Favourable w₀.backlog) i) (Arrived w₀.backlog)
      (fun _ w' => Between w₀ w' ∧ Draining.Round w₀.keys 50 w.triesLeft w'.triesLeft) w := by
  have hrefl : ∀ w, Arrived w₀.backlog w w := .refl
  refine Program.wp_bind hrefl (Program.wp_call fun w₁ r w₂ h₁ ht w₃ h₃ => ?_)
  -- the flag is not set, so the tick sets it and goes on
  obtain ⟨ω, -, hp⟩ := ht
  have henter : r = .ok true ∧ w₂ = { w₁ with processing := some i } := by
    have hnone : w₁.processing = none := h₁.processing.trans h.processing
    simp only [server, perform, hnone, Option.some.injEq, Prod.mk.injEq] at hp
    exact ⟨hp.1.symm, hp.2.symm⟩
  obtain ⟨rfl, rfl⟩ := henter
  have hnil : ∀ {w : World}, ∀ e ∈ ([] : List OutboxEvent), e ∈ w.outbox := fun e he => by cases he
  have h₃ : Worked w₀ [] w w₃ :=
    (h₁.worked.trans (worked_flag w₁ (some i)) hnil hnil).trans h₃.worked hnil hnil
  refine Program.wp_finally hrefl (Program.wp_mono (Q := fun _ w' =>
    Progress w₀ w' ∧ Draining.Round w₀.keys 50 w.triesLeft w'.triesLeft) ?_ ?_)
  · refine Program.wp_bind hrefl (Program.wp_call fun w₄ r w₅ h₄ ht w₆ h₆ => ?_)
    obtain ⟨order, hordered, rfl, rfl⟩ := findUnprocessed_cases ht
    have h₅ : Worked w₀ [] w w₅ := h₃.trans h₄.worked hnil hnil
    -- the events that the round works on, after further arrivals
    have hworked : ∀ w', Worked w₀ (order.take 50) w₆ w' →
        Progress w₀ w' ∧ Draining.Round w₀.keys 50 w.triesLeft w'.triesLeft := by
      intro w' hw'
      have hrows := (nodup_order hordered).2
      have h₅' := h₆.worked.trans hw' hnil fun e he =>
        (hrows e (List.mem_of_mem_take he)).1
      exact ⟨h₅'.progress (h₅.progress h.progress), round_of_worked h.progress h₅ hordered h₅'⟩
    show (if (order.take 50).length = 0 then pure () else publishEvents (order.take 50)).wp _ _ _ _
    split
    · -- nothing is found, so nothing has to be done
      rename_i hempty
      have hempty := List.eq_nil_of_length_eq_zero hempty
      intro w₇ h₇
      refine hworked w₇ ?_
      rw [hempty]
      exact h₇.worked
    · obtain ⟨hnodup, hrows⟩ := nodup_order hordered
      refine Program.wp_mono (wp_publishEvents ?_ fun e he => ?_) fun _ w' hw' => hworked w' hw'.2.1
      · exact (pairwise_id hnodup fun e he => (hrows e he).1).sublist (List.take_sublist _ _)
      · obtain ⟨he, hu⟩ := hrows e (List.mem_of_mem_take he)
        exact ⟨h₆.events e he, hu⟩
  · -- the `finally` block clears the flag
    intro r w₄ h₄
    obtain ⟨hprogress, hround⟩ := h₄
    refine Program.wp_call fun w₅ r' w₆ h₅ ht w₇ h₇ => ?_
    obtain ⟨ω, -, hp⟩ := ht
    simp only [server, perform, Option.some.injEq, Prod.mk.injEq] at hp
    obtain ⟨rfl, rfl⟩ := hp
    intro w₈ h₈
    have hleft : Worked w₀ [] w₄ w₈ := (h₅.worked.trans (worked_flag w₅ none) hnil hnil).trans
      (h₇.trans h₈).worked hnil hnil
    exact ⟨⟨hleft.progress hprogress, h₈.processing.trans h₇.processing⟩,
      hround.mono (hleft.triesLeft_le hprogress)⟩

/-! ## All rounds -/

theorem between_start (hidle : w₀.processing = none)
    (hfresh : ∀ e ∈ w₀.backlog, e.retryCount = 0) : Between w₀ w₀ where
  progress := {
    tried := fun b hb => ⟨b, (List.mem_filter.mp hb).1, {
      job := rfl
      createdAt := rfl
      retries := by
        rw [hfresh b hb]
        exact Nat.zero_le _
      failed := fun _ => by rw [hfresh b hb, Nat.add_zero]
      published := fun hsome => by
        have := (List.mem_filter.mp hb).2
        simp [OutboxEvent.unprocessed, hsome] at this }⟩
    later := fun e he hu => .inl ⟨e, List.mem_filter.mpr ⟨he, hu⟩, rfl⟩ }
  processing := hidle

/-- After any number of rounds. -/
theorem Rounds.between {n : ℕ} {s' : State} (h : Rounds w₀.backlog ⟨w₀, []⟩ n s')
    (hstart : Between w₀ w₀) : Between w₀ s'.world ∧ (∀ c ∈ s'.calls, c.program.All Commits) ∧
      Draining.Rounds w₀.keys 50 w₀.triesLeft n s'.world.triesLeft := by
  induction h with
  | zero => exact ⟨hstart, fun c (hc : c ∈ []) => (by cases hc), .zero⟩
  | @succ n s₁ s₂ s' r _ hn hr ho ih =>
    obtain ⟨hbetween, hcalls, hrounds⟩ := ih
    cases hn
    -- the tick is the last call, and all calls before it can only commit events
    have hamong : Server.Among Commits s₁.calls.length publishPendingEvents
        { s₁ with calls := s₁.calls ++ [⟨.publishPendingEvents, [], publishPendingEvents⟩] } := by
      refine ⟨⟨_, List.getElem?_concat_length, rfl⟩, fun j c hj hc => ?_⟩
      rw [List.getElem?_append] at hc
      split at hc
      · exact hcalls c (List.mem_of_getElem? hc)
      · rename_i hlt
        have := (List.getElem?_eq_some_iff.mp hc).1
        rw [List.length_singleton] at this
        omega
    obtain ⟨⟨hbetween', hround⟩, hcalls'⟩ :=
      hamong.outcome arrivals_surround (wp_publishPendingEvents hbetween) hr ho
    exact ⟨hbetween', hcalls', .succ hrounds hround⟩

/-- For every backlog of `n` events that have not been tried, every pattern of failures of `add` and every
    later arrival: after `n / 10 + 5` rounds each event of the backlog has been tried and is not found any
    more, because it is marked as processed or has been tried exactly `MAX_RETRIES` times. -/
theorem backlog_drains (w₀ : World) (hidle : w₀.processing = none)
    (hfresh : ∀ e ∈ w₀.backlog, e.retryCount = 0) {n : ℕ} {s' : State}
    (h : Rounds w₀.backlog ⟨w₀, []⟩ n s') (hn : w₀.backlog.length / 10 + 5 ≤ n) :
    ∀ b ∈ w₀.backlog, ∃ e ∈ s'.world.outbox, e.job = b.job ∧ e.unprocessed = false ∧
      w₀.attempts b.job < s'.world.attempts b.job ∧
      (e.processedAt ≠ none ∨ s'.world.attempts b.job = w₀.attempts b.job + maxRetries) := by
  obtain ⟨hbetween, -, hrounds⟩ := h.between (between_start hidle hfresh)
  have hlimit : ∀ k ∈ w₀.keys, w₀.triesLeft k ≤ maxRetries := by
    intro k hk
    obtain ⟨b, hb, rfl⟩ := List.mem_map.mp hk
    rw [triesLeft_of_mem (List.mem_filter.mp hb).1, OutboxEvent.triesLeft]
    split <;> omega
  -- 50 tries a round are enough for 5 tries of each event
  have hdrained := hrounds.drained (by decide) hlimit (by
    simp only [World.keys, List.length_map, maxRetries]
    omega)
  intro b hb
  obtain ⟨e, he, htried⟩ := hbetween.progress.tried b hb
  have hzero := hdrained b.id (List.mem_map_of_mem hb)
  rw [← id_of_job htried.job, triesLeft_of_mem he] at hzero
  have hu : e.unprocessed = false := by
    rw [← Bool.not_eq_true, ← triesLeft_pos_iff, hzero]
    exact Nat.lt_irrefl 0
  refine ⟨e, he, htried.job, hu, ?_⟩
  by_cases hprocessed : e.processedAt = none
  · -- never added, so it is the retries that have run out
    have hretries : maxRetries ≤ e.retryCount := by
      simpa [OutboxEvent.unprocessed, hprocessed] using hu
    have hfailed := htried.failed hprocessed
    have hle := htried.retries
    have hpos : 0 < maxRetries := by decide
    exact ⟨by omega, .inr (by omega)⟩
  · -- marked as processed, hence added
    exact ⟨htried.published hprocessed, .inl hprocessed⟩

/-! ## An outage of five rounds -/

instance (backlog : List OutboxEvent) : ∀ o ω, Decidable (Favourable backlog o ω)
  | .add _, _ => .isTrue trivial
  | .saveOutboxEvent _, ω => inferInstanceAs (Decidable (∀ b ∈ backlog, b.createdAt < ω.now))
  | .enter, ω => inferInstanceAs (Decidable (ω.fault = none))
  | .leave, ω => inferInstanceAs (Decidable (ω.fault = none))
  | .findUnprocessed _, ω => inferInstanceAs (Decidable (ω.fault = none))
  | .markProcessed _, ω => inferInstanceAs (Decidable (ω.fault = none))
  | .markFailedAttempt _, ω => inferInstanceAs (Decidable (ω.fault = none))

instance : ∀ req : Request, Decidable (req ≠ .publishPendingEvents)
  | .publishPendingEvents => .isFalse fun h => h rfl
  | .depositSucceeded .. => .isTrue fun h => by cases h
  | .transferCompleted .. => .isTrue fun h => by cases h

/-- Rounds in which nothing arrives, from the choices that the ticks make. -/
def play (backlog : List OutboxEvent) : List (List Choice) → State → Option State
  | [], s => some s
  | ωs :: rounds, s => do
      let s₁ ← server.next s (.start .publishPendingEvents)
      let s₂ ← server.runUnder (Server.Admits (· ≠ .publishPendingEvents) (Favourable backlog))
        (ωs.map (.step s.calls.length)) s₁
      if (s₂.outcome s.calls.length).isSome then play backlog rounds s₂ else none

theorem rounds_of_play {rounds : List (List Choice)} {n : ℕ} {s₀ s s' : State}
    (h : Rounds backlog s₀ n s) (hplay : play backlog rounds s = some s') :
    Rounds backlog s₀ (n + rounds.length) s' := by
  induction rounds generalizing n s with
  | nil =>
    cases hplay
    exact h
  | cons ωs rounds ih =>
    -- the first step, which starts the tick, is always possible
    obtain ⟨s₂, hrun, hplay⟩ := Option.bind_eq_some_iff.mp hplay
    split at hplay
    · rename_i hsome
      obtain ⟨r, ho⟩ := Option.isSome_iff_exists.mp hsome
      rw [List.length_cons, Nat.add_comm rounds.length, ← Nat.add_assoc]
      exact ih (.succ h rfl (Server.reaches_of_runUnder hrun) ho) hplay
    · cases hplay

/-- A later event. -/
def following : OutboxEvent :=
  (buildOutboxPayload .depositSucceeded "w2" "u2" 30 "EUR" none 0).create "e2" 1

/-- Two events are waiting. -/
def waiting : World := ⟨⟨[deposited 0, following], by decide⟩, [], [], none⟩

/-- The choices of a tick that cannot add the first event, which has failed `retryCount` times, and goes on with the
    others that it has found. -/
def rejecting (retryCount : ℕ) (others : List OutboxEvent) : List Choice :=
  let done : Choice := {}
  done :: { order := deposited retryCount :: others } :: { fault := some .unavailable } :: done ::
    (others.flatMap (fun _ => [done, done]) ++ [done])

/-- The event that stands first fails in every round, the one behind it is published in the first. -/
theorem backlog_drains_outage : ∃ s' : State, Rounds waiting.backlog ⟨waiting, []⟩ 5 s' ∧
    s'.world.outbox.rows.map (fun e => (e.id, e.processedAt, e.retryCount)) = [("e1", none, 5), ("e2", some 0, 0)] ∧
      ∀ b ∈ waiting.backlog, ∃ e ∈ s'.world.outbox, e.job = b.job ∧ e.unprocessed = false ∧
        waiting.attempts b.job < s'.world.attempts b.job ∧
        (e.processedAt ≠ none ∨ s'.world.attempts b.job = waiting.attempts b.job + maxRetries) := by
  have hplay : (play waiting.backlog [rejecting 0 [following], rejecting 1 [], rejecting 2 [], rejecting 3 [],
      rejecting 4 []] ⟨waiting, []⟩).map (fun s =>
        s.world.outbox.rows.map fun e => (e.id, e.processedAt, e.retryCount)) =
      some [("e1", none, 5), ("e2", some 0, 0)] := by decide +kernel
  obtain ⟨s', hs', hrows⟩ := Option.map_eq_some_iff.mp hplay
  have hrounds : Rounds waiting.backlog ⟨waiting, []⟩ 5 s' := rounds_of_play .zero hs'
  exact ⟨s', hrounds, hrows, backlog_drains waiting rfl (by decide) hrounds (by decide)⟩

end LiorParisWallet.Outbox
