import LiorParisWallet.Money.Runs
import LiorParisWallet.Outbox.Publisher

/-!
# Delivery

The flag `processing` keeps the ticks apart, so that a tick can rely on the rows that it works on.
An event leaves the set of unprocessed events only when it has been added to the queue, or when adding
it has failed as often as `MAX_RETRIES` allows.
-/

namespace LiorParisWallet.Outbox

open Async Relational

namespace World

/-- The job of the event was added to the queue. -/
def Added (w : World) (e : OutboxEvent) : Prop := e.job ∈ w.domainEvents

/-- How often adding the event has failed. -/
def failures (w : World) (e : OutboxEvent) : ℕ := w.rejected.count e.job

structure Inv (w : World) : Prop where
  processed : ∀ e ∈ w.outbox, e.processedAt ≠ none → w.Added e
  counted : ∀ e ∈ w.outbox, w.Added e ∨ e.retryCount ≤ w.failures e

end World

/-! ## Effects -/

/-- The ways in which the operation `o` of call `i` can settle and change the world. -/
inductive Effect (i : ℕ) (w : World) : (o : Op) → Except Err (Ans o) → World → Prop where
  | failed {o : Op} (e : Err) : (∀ job, o ≠ .add job) → Effect i w o (.error e) w
  | busy {j : ℕ} : w.processing = some j → Effect i w .enter (.ok false) w
  | entered : w.processing = none → Effect i w .enter (.ok true) { w with processing := some i }
  | left : Effect i w .leave (.ok ()) { w with processing := none }
  | found {limit : ℕ} {order : List OutboxEvent} : Ordered w order →
      Effect i w (.findUnprocessed limit) (.ok (order.take limit)) w
  | rejected (job : DomainEventJob) (e : Err) :
      Effect i w (.add job) (.error e) { w with rejected := w.rejected ++ [job] }
  | added (job : DomainEventJob) :
      Effect i w (.add job) (.ok ()) { w with domainEvents := w.domainEvents ++ [job] }
  | markedProcessed (id : String) (now : ℕ) :
      Effect i w (.markProcessed id) (.ok ()) (w.markProcessed id now)
  | markedFailed (id : String) :
      Effect i w (.markFailedAttempt id) (.ok ()) (w.markFailedAttempt id)
  | saved {data : OutboxData} {id : String} {now : ℕ} {outbox : Table OutboxEvent} :
      w.outbox.insert? (data.create id now) = some outbox →
        Effect i w (.saveOutboxEvent data) (.ok ()) { w with outbox := outbox }

variable {w w' w'' : World} {i j : ℕ} {o : Op}

theorem effect_of_perform {ω : Choice} {r : Except Err (Ans o)}
    (h : perform i o ω w = some (r, w')) : Effect i w o r w' := by
  cases o with
  | enter =>
    simp only [perform] at h
    split at h <;> cases h
    · exact .busy ‹_›
    · exact .entered ‹_›
  | leave =>
    cases h
    exact .left
  | findUnprocessed limit =>
    simp only [perform] at h
    split at h
    · cases h
      exact .failed _ fun _ h => nomatch h
    · split at h <;> cases h
      exact .found ‹_›
  | add job =>
    simp only [perform] at h
    split at h <;> cases h
    · exact .rejected job _
    · exact .added job
  | markProcessed id =>
    simp only [perform] at h
    split at h <;> cases h
    · exact .failed _ fun _ h => nomatch h
    · exact .markedProcessed id _
  | markFailedAttempt id =>
    simp only [perform] at h
    split at h <;> cases h
    · exact .failed _ fun _ h => nomatch h
    · exact .markedFailed id
  | saveOutboxEvent data =>
    simp only [perform] at h
    split at h
    · cases h
      exact .failed _ fun _ h => nomatch h
    · cases h
      exact .failed _ fun _ h => nomatch h
    · rename_i hinsert
      cases h
      exact .saved (insertInto_eq_ok.mp hinsert)

theorem mem_markProcessed {id : String} {now : ℕ} {e : OutboxEvent} :
    e ∈ (w.markProcessed id now).outbox ↔ ∃ e' ∈ w.outbox,
      (if e'.id == id then { e' with processedAt := some now } else e') = e :=
  List.mem_map

theorem mem_markFailedAttempt {id : String} {e : OutboxEvent} :
    e ∈ (w.markFailedAttempt id).outbox ↔ ∃ e' ∈ w.outbox,
      (if e'.id == id then { e' with retryCount := e'.retryCount + 1 } else e') = e :=
  List.mem_map

theorem eq_of_id {e e' : OutboxEvent} (he : e ∈ w.outbox) (he' : e' ∈ w.outbox) (h : e.id = e'.id) :
    e = e' :=
  Table.eq_of_clash he he' (by simp [Entity.clash, h])

/-! ## The contract -/

/-- Events stay, and so does what has become of their jobs; what is not found any more is never found
    again. -/
structure Grows (w w' : World) : Prop where
  events : ∀ e ∈ w.outbox, ∃ e' ∈ w'.outbox, e'.job = e.job ∧
    (e.unprocessed = false → e'.unprocessed = false)
  domainEvents : w.domainEvents <+: w'.domainEvents
  rejected : w.rejected <+: w'.rejected

/-- As long as call `i` holds the flag, nobody else publishes. -/
structure Holds (i : ℕ) (w w' : World) : Prop where
  processing : w'.processing = some i
  events : ∀ e ∈ w.outbox, e ∈ w'.outbox
  rejected : w'.rejected = w.rejected

/-- What call `i` has made sure of when it performs the operation. -/
def Guarantee (i : ℕ) : Op → World → Prop
  | .leave, w => w.processing = some i
  | .add _, w => w.processing = some i
  | .markProcessed id, w => w.processing = some i ∧ ∃ e ∈ w.outbox, e.id = id ∧ w.Added e
  | .markFailedAttempt id, w => w.processing = some i ∧ ∃ e ∈ w.outbox, e.id = id ∧
      (w.Added e ∨ e.retryCount < w.failures e)
  | .saveOutboxEvent data, _ => data.processedAt = none ∧ data.retryCount = 0
  | _, _ => True

theorem Grows.refl (w : World) : Grows w w :=
  ⟨fun e he => ⟨e, he, rfl, id⟩, List.prefix_rfl, List.prefix_rfl⟩

theorem Grows.trans (h : Grows w w') (h' : Grows w' w'') : Grows w w'' where
  events e he := by
    obtain ⟨e', he', hj, hu⟩ := h.events e he
    obtain ⟨e'', he'', hj', hu'⟩ := h'.events e' he'
    exact ⟨e'', he'', hj'.trans hj, fun h => hu' (hu h)⟩
  domainEvents := h.domainEvents.trans h'.domainEvents
  rejected := h.rejected.trans h'.rejected

theorem Grows.added (h : Grows w w') {e e' : OutboxEvent} (hj : e'.job = e.job) (he : w.Added e) :
    w'.Added e' := by
  unfold World.Added
  rw [hj]
  exact h.domainEvents.subset he

theorem Grows.failures (h : Grows w w') {e e' : OutboxEvent} (hj : e'.job = e.job) :
    w.failures e ≤ w'.failures e' := by
  unfold World.failures
  rw [hj]
  exact h.rejected.sublist.count_le _

theorem grows_of_effect {r : Except Err (Ans o)} (he : Effect i w o r w') : Grows w w' := by
  cases he with
  | failed e _ => exact .refl w
  | busy _ => exact .refl w
  | entered _ => exact { Grows.refl w with }
  | left => exact { Grows.refl w with }
  | found _ => exact .refl w
  | rejected job e => exact { Grows.refl w with rejected := List.prefix_append _ _ }
  | added job => exact { Grows.refl w with domainEvents := List.prefix_append _ _ }
  | markedProcessed id now =>
    refine { Grows.refl w with events := fun e he => ?_ }
    refine ⟨_, mem_markProcessed.mpr ⟨e, he, rfl⟩, ?_⟩
    split
    · exact ⟨rfl, fun _ => rfl⟩
    · exact ⟨rfl, fun h => h⟩
  | markedFailed id =>
    refine { Grows.refl w with events := fun e he => ?_ }
    refine ⟨_, mem_markFailedAttempt.mpr ⟨e, he, rfl⟩, ?_⟩
    split
    · refine ⟨rfl, fun h => ?_⟩
      simp only [OutboxEvent.unprocessed, Bool.and_eq_false_iff, decide_eq_false_iff_not] at h ⊢
      exact h.imp (fun h => h) fun h => by omega
    · exact ⟨rfl, fun h => h⟩
  | saved inserted =>
    exact { Grows.refl w with
      events := fun e he => ⟨e, (Table.mem_insert? inserted).mpr (.inl he), rfl, id⟩ }

theorem holds_of_effect (hij : i ≠ j) {r : Except Err (Ans o)} (hpre : Guarantee j o w)
    (he : Effect j w o r w') (hi : w.processing = some i) : Holds i w w' := by
  have hj : w.processing ≠ some j := fun h => hij (Option.some.inj (hi.symm.trans h))
  cases he with
  | failed e _ => exact ⟨hi, fun _ he => he, rfl⟩
  | busy _ => exact ⟨hi, fun _ he => he, rfl⟩
  | entered hnone => cases hnone.symm.trans hi
  | left => exact absurd hpre hj
  | found _ => exact ⟨hi, fun _ he => he, rfl⟩
  | rejected job e => exact absurd hpre hj
  | added job => exact absurd hpre hj
  | markedProcessed id now => exact absurd hpre.1 hj
  | markedFailed id => exact absurd hpre.1 hj
  | saved inserted => exact ⟨hi, fun e he => (Table.mem_insert? inserted).mpr (.inl he), rfl⟩

theorem inv_of_effect {r : Except Err (Ans o)} (hinv : w.Inv) (hpre : Guarantee i o w)
    (he : Effect i w o r w') : w'.Inv := by
  have hgrows := grows_of_effect he
  cases he with
  | failed e _ => exact hinv
  | busy _ => exact hinv
  | entered _ => exact ⟨hinv.processed, hinv.counted⟩
  | left => exact ⟨hinv.processed, hinv.counted⟩
  | found _ => exact hinv
  | rejected job e =>
    refine ⟨hinv.processed, fun e he => ?_⟩
    rcases hinv.counted e he with hadded | hcount
    · exact .inl hadded
    · exact .inr (hcount.trans (hgrows.failures rfl))
  | added job =>
    refine ⟨fun e he hp => hgrows.added rfl (hinv.processed e he hp), fun e he => ?_⟩
    exact (hinv.counted e he).imp (hgrows.added rfl) id
  | markedProcessed id now =>
    obtain ⟨-, e₀, he₀, rfl, hadded⟩ := hpre
    constructor
    · intro e' he' hp
      obtain ⟨e, he, rfl⟩ := mem_markProcessed.mp he'
      by_cases hid : e.id = e₀.id
      · obtain rfl := eq_of_id he he₀ hid
        rw [if_pos (beq_self_eq_true _)]
        exact hadded
      · rw [if_neg (by simpa using hid)] at hp ⊢
        exact hinv.processed e he hp
    · intro e' he'
      obtain ⟨e, he, rfl⟩ := mem_markProcessed.mp he'
      have hcounted := hinv.counted e he
      split <;> exact hcounted
  | markedFailed id =>
    obtain ⟨-, e₀, he₀, rfl, hcount⟩ := hpre
    constructor
    · intro e' he' hp
      obtain ⟨e, he, rfl⟩ := mem_markFailedAttempt.mp he'
      have hprocessed := hinv.processed e he
      split at hp <;> split <;> first | contradiction | exact hprocessed hp
    · intro e' he'
      obtain ⟨e, he, rfl⟩ := mem_markFailedAttempt.mp he'
      by_cases hid : e.id = e₀.id
      · obtain rfl := eq_of_id he he₀ hid
        rw [if_pos (beq_self_eq_true _)]
        exact hcount.imp id Nat.succ_le_of_lt
      · rw [if_neg (by simpa using hid)]
        exact hinv.counted e he
  | saved inserted =>
    constructor
    · intro e he hp
      rcases (Table.mem_insert? inserted).mp he with he | rfl
      · exact hinv.processed e he hp
      · exact absurd hpre.1 hp
    · intro e he
      rcases (Table.mem_insert? inserted).mp he with he | rfl
      · exact hinv.counted e he
      · right
        show _ ≤ _
        rw [show (OutboxData.create _ _ _).retryCount = 0 from hpre.2]
        exact Nat.zero_le _

def publisherContract : Contract server where
  Inv := World.Inv
  Pre _ i o w := Guarantee i o w
  Rely i w w' := Grows w w' ∧ (w.processing = some i → Holds i w w')
  rely_refl i w := ⟨.refl w, fun h => ⟨h, fun _ he => he, rfl⟩⟩
  rely_trans := by
    rintro i w₁ w₂ w₃ ⟨hg, hh⟩ ⟨hg', hh'⟩
    refine ⟨hg.trans hg', fun h => ?_⟩
    have h₂ := hh h
    have h₃ := hh' h₂.processing
    exact ⟨h₃.processing, fun e he => h₃.events e (h₂.events e he), h₃.rejected.trans h₂.rejected⟩
  inv_perform hinv hpre hp := inv_of_effect hinv hpre (effect_of_perform hp)
  rely_perform hij _ hpre hp :=
    ⟨grows_of_effect (effect_of_perform hp), holds_of_effect hij hpre (effect_of_perform hp)⟩

/-! ## The publisher keeps the contract -/

section Specs

variable {req : Request} {answers : List (Answer Ans Err)}

theorem processing_of_effect {r : Except Err (Ans o)} (he : Effect i w o r w') (henter : o ≠ .enter)
    (hleave : o ≠ .leave) : w'.processing = w.processing := by
  cases he <;> first | rfl | contradiction

theorem id_of_job {e e' : OutboxEvent} (h : e'.job = e.job) : e'.id = e.id :=
  (congrArg DomainEventJob.outboxId h :)

theorem added_of_effect {e : OutboxEvent} {job : DomainEventJob} (hjob : e.job = job)
    (he : Effect i w (.add job) (.ok ()) w') : w'.outbox = w.outbox ∧ w'.Added e := by
  cases he
  exact ⟨rfl, List.mem_append_right _ (List.mem_singleton.mpr hjob)⟩

theorem failures_of_effect {e : OutboxEvent} {job : DomainEventJob} {err : Err} (hjob : e.job = job)
    (he : Effect i w (.add job) (.error err) w') : w'.outbox = w.outbox ∧
      w'.failures e = w.failures e + 1 := by
  subst hjob
  cases he with
  | failed _ h => exact absurd rfl (h e.job)
  | rejected =>
    refine ⟨rfl, ?_⟩
    show List.count e.job (w.rejected ++ [e.job]) = List.count e.job w.rejected + 1
    rw [List.count_append, List.count_singleton_self]

/-- The tick still holds the flag, and no event is lost. -/
def Working (i : ℕ) (w : World) {α : Type} (_ : List (Answer Ans Err)) (_ : Except Err α)
    (w' : World) : Prop :=
  w'.processing = some i ∧ Grows w w'

theorem markFailedAttempt_spec {e : OutboxEvent} (hi : w.processing = some i) (he : e ∈ w.outbox)
    (hcount : w.Added e ∨ e.retryCount < w.failures e) :
    publisherContract.wp req i (await (.markFailedAttempt e.id)) (Working i w) answers w := by
  refine Contract.wp_call fun w₁ ⟨hg, hh⟩ _ => ?_
  have hheld := hh hi
  refine ⟨⟨hheld.processing, e, hheld.events e he, rfl, ?_⟩, fun ω r w₂ hp => ?_⟩
  · exact hcount.imp (hg.added rfl) fun h => h.trans_le (hg.failures rfl)
  · have heffect : Effect i w₁ (.markFailedAttempt e.id) r w₂ := effect_of_perform hp
    exact ⟨(processing_of_effect heffect (fun h => nomatch h) (fun h => nomatch h)).trans
      hheld.processing, hg.trans (grows_of_effect heffect)⟩

theorem publishEvent_spec {event : OutboxEvent} (hi : w.processing = some i)
    (hevent : ∃ e ∈ w.outbox, e.job = event.job) :
    publisherContract.wp req i (publishEvent event) (Working i w) answers w := by
  refine Contract.wp_handle.mpr (Contract.wp_bind.mpr (Contract.wp_call fun w₁ ⟨hg₁, hh₁⟩ hinv₁ => ?_))
  have hheld₁ := hh₁ hi
  refine ⟨hheld₁.processing, fun ω r w₂ hp => ?_⟩
  obtain ⟨e, he, hjob⟩ := hevent
  have he₁ := hheld₁.events e he
  have heffect : Effect i w₁ (.add event.job) r w₂ := effect_of_perform hp
  have hi₂ : w₂.processing = some i :=
    (processing_of_effect heffect (fun h => nomatch h) (fun h => nomatch h)).trans hheld₁.processing
  have hg₂ : Grows w w₂ := hg₁.trans (grows_of_effect heffect)
  have hmark : ∀ {w₃ : World} {answers : List (Answer Ans Err)}, w₃.processing = some i →
      Grows w w₃ → e ∈ w₃.outbox → (w₃.Added e ∨ e.retryCount < w₃.failures e) →
      publisherContract.wp req i (await (.markFailedAttempt event.id)) (Working i w) answers w₃ := by
    intro w₃ answers hi₃ hg₃ he₃ hcount
    rw [← id_of_job hjob]
    exact Contract.wp_mono (markFailedAttempt_spec hi₃ he₃ hcount) fun _ _ w₄ h =>
      ⟨h.1, hg₃.trans h.2⟩
  cases r with
  | error err =>
    -- the event was not added, and this is one failure more
    obtain ⟨houtbox, hfailures⟩ := failures_of_effect hjob heffect
    refine hmark hi₂ hg₂ (houtbox ▸ he₁) ?_
    refine (hinv₁.counted e he₁).imp ((grows_of_effect heffect).added rfl) fun hcount => ?_
    rw [hfailures]
    omega
  | ok _ =>
    obtain ⟨houtbox, hadded⟩ := added_of_effect hjob heffect
    have he₂ : e ∈ w₂.outbox := houtbox ▸ he₁
    refine Contract.wp_call fun w₃ ⟨hg₃, hh₃⟩ _ => ?_
    have hheld₃ := hh₃ hi₂
    have hadded₃ : w₃.Added e := hg₃.added rfl hadded
    refine ⟨⟨hheld₃.processing, e, hheld₃.events e he₂, id_of_job hjob, hadded₃⟩,
      fun ω r w₄ hp => ?_⟩
    have heffect₄ : Effect i w₃ (.markProcessed event.id) r w₄ := effect_of_perform hp
    have hi₄ : w₄.processing = some i :=
      (processing_of_effect heffect₄ (fun h => nomatch h) (fun h => nomatch h)).trans
        hheld₃.processing
    have hg₄ : Grows w w₄ := (hg₂.trans hg₃).trans (grows_of_effect heffect₄)
    cases r with
    | ok _ => exact ⟨hi₄, hg₄⟩
    | error err =>
      -- the event is in the queue already, and will be added once more
      refine hmark hi₄ hg₄ ?_ (.inl ((grows_of_effect heffect₄).added rfl hadded₃))
      cases heffect₄
      exact hheld₃.events e he₂

theorem publishEvents_spec {events : List OutboxEvent} (hi : w.processing = some i)
    (hevents : ∀ event ∈ events, ∃ e ∈ w.outbox, e.job = event.job) :
    publisherContract.wp req i (publishEvents events) (Working i w) answers w := by
  induction events generalizing w answers with
  | nil => exact ⟨hi, .refl w⟩
  | cons event events ih =>
    refine Contract.wp_bind.mpr (Contract.wp_mono
      (publishEvent_spec hi (hevents event List.mem_cons_self)) fun answers₁ r w₁ ⟨hi₁, hg₁⟩ => ?_)
    cases r with
    | error e => exact ⟨hi₁, hg₁⟩
    | ok _ =>
      refine Contract.wp_mono (ih hi₁ fun event' hmem => ?_) fun _ _ w₂ h => ⟨h.1, hg₁.trans h.2⟩
      obtain ⟨e, he, hjob⟩ := hevents event' (List.mem_cons_of_mem _ hmem)
      obtain ⟨e', he', hjob', -⟩ := hg₁.events e he
      exact ⟨e', he', hjob'.trans hjob⟩

theorem publishPendingEvents_spec :
    publisherContract.wp req i publishPendingEvents (fun _ _ _ => True) answers w := by
  unfold publishPendingEvents
  refine Contract.wp_bind.mpr (Contract.wp_call fun w₁ _ _ => ⟨trivial, fun ω r w₂ hp => ?_⟩)
  have hp : perform i .enter ω w₁ = some (r, w₂) := hp
  have heffect := effect_of_perform hp
  cases heffect with
  | failed e _ => trivial
  | busy _ => trivial
  | entered _ =>
    -- the tick holds the flag until the `finally` block has run
    refine Contract.wp_finally (Contract.wp_mono (Q := Working i { w₁ with processing := some i }) ?_ ?_)
    · refine Contract.wp_bind.mpr (Contract.wp_call fun w₃ ⟨hg₃, hh₃⟩ _ => ⟨trivial, fun ω r w₄ hp => ?_⟩)
      have hheld := hh₃ rfl
      have heffect : Effect i w₃ (.findUnprocessed 50) r w₄ := effect_of_perform hp
      cases heffect with
      | failed e _ => exact ⟨hheld.processing, hg₃⟩
      | @found _ order hordered =>
        show publisherContract.wp req i (if (order.take 50).length = 0 then pure () else _) _ _ _
        split
        · exact ⟨hheld.processing, hg₃⟩
        · refine Contract.wp_mono (publishEvents_spec hheld.processing fun event hmem => ?_)
            fun _ _ w₅ h => ⟨h.1, hg₃.trans h.2⟩
          have hrow := hordered.1.subset (List.mem_of_mem_take hmem)
          exact ⟨event, (List.mem_filter.mp hrow).1, rfl⟩
    · intro answers r w₃ hworking
      refine Contract.wp_call fun w₄ ⟨_, hh₄⟩ _ => ⟨(hh₄ hworking.1).processing, fun ω r' w₅ _ => ?_⟩
      cases r' <;> trivial

theorem serve_spec :
    publisherContract.wp req i (serve req) (fun _ _ _ => True) answers w := by
  cases req with
  | publishPendingEvents => exact publishPendingEvents_spec
  | depositSucceeded walletId userId amount currency userEmail now =>
    exact Contract.wp_call fun _ _ _ => ⟨⟨rfl, rfl⟩, fun _ _ _ _ => trivial⟩
  | transferCompleted transferId fromUserId toUserId amount currency fromUserEmail fromUserName toUser
      now =>
    exact Contract.wp_call fun _ _ _ => ⟨⟨rfl, rfl⟩, fun _ _ _ _ => trivial⟩

end Specs

theorem publisher_meets : publisherContract.Meets fun _ _ _ _ _ => True :=
  fun _ _ _ _ => serve_spec

theorem inv_initial (hw : w.Initial) : w.Inv where
  processed e he hp := absurd (hw.outbox e he).1 hp
  counted e he := .inr (by rw [(hw.outbox e he).2]; exact Nat.zero_le _)

variable {s s' : State}

theorem Reachable.sound (h : Reachable s) : publisherContract.Sound (fun _ _ _ _ _ => True) s :=
  let ⟨_, hw, hr⟩ := h
  Contract.sound_reaches publisher_meets (Contract.sound_idle (inv_initial hw)) hr

theorem Reachable.grows (h : Reachable s) (hr : server.Reaches Server.Any s s') :
    Grows s.world s'.world := by
  refine Contract.reaches_induction publisher_meets h.sound hr (fun s' => Grows s.world s'.world)
    (.refl _) (fun _ _ _ hg => hg) ?_
  intro s₁ i ω c o next r world _ _ _ _ _ hp hg
  exact hg.trans (grows_of_effect (effect_of_perform hp))

/-- No event is lost before it has been tried often enough.  Every event of a reachable state is still
    there later on, and has been added to the queue at least once, or is still found by
    `findUnprocessed`, or adding it has failed at least `MAX_RETRIES` times. -/
theorem added_or_unprocessed (h : Reachable s) (hr : server.Reaches Server.Any s s') :
    ∀ e ∈ s.world.outbox, ∃ e' ∈ s'.world.outbox, e'.job = e.job ∧
      (e'.job ∈ s'.world.domainEvents ∨ e'.unprocessed = true ∨
        maxRetries ≤ s'.world.rejected.count e'.job) := by
  intro e he
  obtain ⟨e', he', hjob, -⟩ := (h.grows hr).events e he
  refine ⟨e', he', hjob, ?_⟩
  have hinv := (Contract.sound_reaches publisher_meets h.sound hr).inv
  cases hprocessed : e'.processedAt with
  | some now => exact .inl (hinv.processed e' he' (by rw [hprocessed]; exact Option.some_ne_none now))
  | none =>
    rcases hinv.counted e' he' with hadded | hcount
    · exact .inl hadded
    · right
      by_cases hretries : e'.retryCount < maxRetries
      · left
        simp [OutboxEvent.unprocessed, hprocessed, hretries]
      · right
        exact (Nat.le_of_not_lt hretries).trans hcount

/-! ## Where the events come from -/

/-- The services build such an event. -/
def Arrives (data : OutboxData) : Prop :=
  ∃ req : Request, serve req = await (.saveOutboxEvent data)

/-- A step of the money server leaves the outbox alone, or an event arrives. -/
theorem outbox_of_effect {w w' : LiorParisWallet.World} {req : LiorParisWallet.Request} {i : ℕ}
    {o : LiorParisWallet.Op} (hpre : LiorParisWallet.Guarantee req i o w)
    (he : LiorParisWallet.Effect i w o w') : w'.db.outbox = w.db.outbox ∨
      ∃ data id now, Arrives data ∧ w.db.outbox.insert? (data.create id now) = some w'.db.outbox := by
  cases he with
  | settleTransaction fresh wallet_mem enough entry event =>
    obtain ⟨userEmail, now, rfl⟩ := hpre.payload
    exact .inr ⟨_, _, _, ⟨.depositSucceeded _ _ _ _ userEmail now, rfl⟩, event⟩
  | executeTransfer fresh sender_mem receiver_mem enough debit credit event =>
    obtain ⟨fromUserEmail, fromUserName, toUser, now, rfl⟩ := hpre.payload
    exact .inr ⟨_, _, _, ⟨.transferCompleted _ _ _ _ _ fromUserEmail fromUserName toUser now, rfl⟩,
      event⟩
  | _ => exact .inl rfl

/-- The publisher admits an arrival at any moment. -/
theorem Reachable.arrive {s : State} (hs : Reachable s) {data : OutboxData} (hdata : Arrives data)
    {id : String} {now : ℕ} {outbox : Table OutboxEvent}
    (hinsert : s.world.outbox.insert? (data.create id now) = some outbox) :
    ∃ s' : State, Reachable s' ∧ s'.world.outbox = outbox := by
  obtain ⟨req, hreq⟩ := hdata
  obtain ⟨w, hw, hr⟩ := hs
  have hstart : server.next s (.start req) =
      some ⟨s.world, s.calls ++ [⟨req, [], await (.saveOutboxEvent data)⟩]⟩ := by
    rw [← hreq]
    rfl
  have hperform : server.perform s.calls.length (.saveOutboxEvent data) { uuid := id, now := now }
      s.world = some (.ok (), { s.world with outbox := outbox }) := by
    simp only [server, perform, insertInto_eq_ok.mpr hinsert]
  have hstep := Server.step_of_await (S := server)
    (s := ⟨s.world, s.calls ++ [⟨req, [], await (.saveOutboxEvent data)⟩]⟩)
    List.getElem?_concat_length rfl hperform
  exact ⟨_, ⟨w, hw, (hr.tail trivial hstart).tail (l := .step _ _) trivial hstep⟩, rfl⟩

/-- Whatever the money server writes to the outbox, the publisher can find it there. -/
theorem exists_publisher_state {registry : PaymentGatewayRegistry} {w : LiorParisWallet.World}
    {s : LiorParisWallet.State} (hw : w.Initial)
    (hpending : ∀ e ∈ w.db.outbox, e.processedAt = none ∧ e.retryCount = 0)
    (hr : (LiorParisWallet.server registry).Reaches Server.Any ⟨w, []⟩ s) :
    ∃ s' : State, Reachable s' ∧ s'.world.outbox = s.world.db.outbox := by
  induction hr with
  | refl =>
    have hinitial : World.Initial ⟨w.db.outbox, [], [], none⟩ := ⟨hpending, rfl, rfl, rfl⟩
    exact ⟨_, ⟨_, hinitial, .refl⟩, rfl⟩
  | @tail s₁ s₂ l hr _ hn ih =>
    obtain ⟨s', hs', houtbox⟩ := ih
    cases l with
    | start req =>
      cases hn
      exact ⟨s', hs', houtbox⟩
    | step i ω =>
      have hs₁ : LiorParisWallet.Reachable registry s₁ := ⟨w, hw, hr⟩
      obtain ⟨c, o, next, r, w', hc, hp, -⟩ := Server.step_cases hn
      obtain ⟨c', hc', hpre, he⟩ := hs₁.effect hn (System.awaits_eq hc hp)
      rcases outbox_of_effect hpre he with hsame | ⟨data, id, now, hdata, hinsert⟩
      · exact ⟨s', hs', houtbox.trans hsame.symm⟩
      · exact hs'.arrive hdata (houtbox ▸ hinsert)

/-! ## An outage -/

def committed : List (Label Request Choice) :=
  [.start (.depositSucceeded "w1" "u1" 50 "EUR" none 0), .step 0 { uuid := "e1" }]

def deposited (retryCount : ℕ) : OutboxEvent :=
  { (buildOutboxPayload .depositSucceeded "w1" "u1" 50 "EUR" none 0).create "e1" 0 with
    retryCount := retryCount }

/-- A tick, call `i`, that tries to publish the event for the next time after `retryCount` failures. -/
def tick (i retryCount : ℕ) (fault : Option Err) : List (Label Request Choice) :=
  [.start .publishPendingEvents, .step i {}, .step i { order := [deposited retryCount] },
    .step i { fault := fault }, .step i {}, .step i {}]

theorem added_or_unprocessed_published : ∃ s : State, ∃ e ∈ s.world.outbox,
    e.job ∈ s.world.domainEvents ∨ e.unprocessed = true ∨
      maxRetries ≤ s.world.rejected.count e.job := by
  have hrun : (server.run (committed ++ tick 1 0 none) ⟨World.empty, []⟩).map
      (fun s => s.world.outbox.rows) = some [{ deposited 0 with processedAt := some 0 }] := rfl
  obtain ⟨s, hs, hrows⟩ := Option.map_eq_some_iff.mp hrun
  have he : { deposited 0 with processedAt := some 0 } ∈ s.world.outbox := by
    rw [Table.mem_def, hrows]
    exact List.mem_singleton.mpr rfl
  obtain ⟨e, he, -, hadded⟩ := added_or_unprocessed (reachable_of_run hs) .refl _ he
  exact ⟨s, e, he, hadded⟩

/-- The queue is out of reach for five ticks. -/
def outage : List (Label Request Choice) :=
  committed ++ tick 1 0 (some .unavailable) ++ tick 2 1 (some .unavailable) ++
    tick 3 2 (some .unavailable) ++ tick 4 3 (some .unavailable) ++ tick 5 4 (some .unavailable)

/-- After that the event was never added, and it will never be found again. -/
theorem outage_loses_event : ∃ (s : State) (e : OutboxEvent), Reachable s ∧ e ∈ s.world.outbox ∧
    s.world.domainEvents = [] ∧ e.unprocessed = false ∧
    ∀ s', server.Reaches Server.Any s s' →
      ∃ e' ∈ s'.world.outbox, e'.job = e.job ∧ e'.unprocessed = false := by
  have hrun : (server.run outage ⟨World.empty, []⟩).map
      (fun s => (s.world.outbox.rows, s.world.domainEvents)) = some ([deposited 5], []) := rfl
  obtain ⟨s, hs, hrun⟩ := Option.map_eq_some_iff.mp hrun
  obtain ⟨hrows, hjobs⟩ := Prod.mk.inj hrun
  have he : deposited 5 ∈ s.world.outbox := by
    rw [Table.mem_def, hrows]
    exact List.mem_singleton.mpr rfl
  refine ⟨s, _, reachable_of_run hs, he, hjobs, rfl, fun s' hr => ?_⟩
  obtain ⟨e', he', hjob, hunprocessed⟩ := ((reachable_of_run hs).grows hr).events _ he
  exact ⟨e', he', hjob, hunprocessed rfl⟩

end LiorParisWallet.Outbox
