import LiorParisWallet.Queues.Attempts

/-!
# Completed jobs

A job is completed only when what it stands for has been done, in an attempt on this very job.  This holds even where
two workers have the same job because BullMQ took one of them for dead, so it asks nothing of who else holds it.
-/

namespace LiorParisWallet.Queues

open Async Jobs

namespace World

/-- The job `y` is the notification, and was added in an attempt on the job `k` of an event. -/
structure Notes (k : ℕ) (eventName : String) (payload : Record) (y : Entry (Option Attempt) JobData) : Prop where
  origin : ∃ a, y.origin = some ⟨.domainEvents, k, a⟩
  eventName : y.data.eventName = eventName
  payload : y.data.payload = payload

/-- Such a job has got into the queue. -/
def Noted (w : World) (k : ℕ) (eventName : String) (payload : Record) : Prop :=
  ∃ n y, w.job .notifications n = some y ∧ Notes k eventName payload y

/-- In an attempt on the job `n`, the notification was passed to the mail service with success. -/
def Passed (w : World) (n : ℕ) (eventName : String) (payload : Record) : Prop :=
  ∃ x ∈ w.sendings, (∃ a, x.attempt = some ⟨.notifications, n, a⟩) ∧ x.eventName = eventName ∧ x.payload = payload ∧
    x.ok = true

end World

/-- What the job `id` with this data stands for has been done. -/
def Served (w : World) : (q : QueueName) → ℕ → Data q → Prop
  | .domainEvents, id, data => ∀ eventName ∈ notificationsFor data.eventName, w.Noted id eventName data.payload
  | .notifications, id, data => w.Passed id data.eventName data.payload
  | .deadLetter, _, _ => True

def World.Completed (w : World) : Prop :=
  ∀ q k e, w.job q k = some e → e.status = .completed → Served w q k e.data

/-- Jobs stay, with their data and where they come from, and so does what was sent. -/
structure Keeps (w w' : World) : Prop where
  jobs : ∀ q k e, w.job q k = some e → ∃ e', w'.job q k = some e' ∧ e'.data = e.data ∧ e'.origin = e.origin
  sendings : ∀ x ∈ w.sendings, x ∈ w'.sendings

/-- The attempt of call `i` stays too. -/
structure KeepsAttempt (i : ℕ) (w w' : World) : Prop extends Keeps w w' where
  holds : w'.holds i = w.holds i

variable {w w' w'' : World} {i : ℕ} {o : Op} {q : QueueName} {id : ℕ}

/-! ## What is kept -/

theorem Keeps.refl (w : World) : Keeps w w :=
  ⟨fun _ _ e he => ⟨e, he, rfl, rfl⟩, fun _ hx => hx⟩

theorem Keeps.trans (h : Keeps w w') (h' : Keeps w' w'') : Keeps w w'' where
  jobs q k e he := by
    obtain ⟨e', he', hdata, horigin⟩ := h.jobs q k e he
    obtain ⟨e'', he'', hdata', horigin'⟩ := h'.jobs q k e' he'
    exact ⟨e'', he'', hdata'.trans hdata, horigin'.trans horigin⟩
  sendings x hx := h'.sendings x (h.sendings x hx)

theorem KeepsAttempt.trans (h : KeepsAttempt i w w') (h' : KeepsAttempt i w' w'') : KeepsAttempt i w w'' :=
  ⟨h.toKeeps.trans h'.toKeeps, h'.holds.trans h.holds⟩

theorem World.Noted.keeps {k : ℕ} {eventName : String} {payload : Record} (h : w.Noted k eventName payload)
    (hk : Keeps w w') : w'.Noted k eventName payload := by
  obtain ⟨n, y, hy, horigin, hname, hpayload⟩ := h
  obtain ⟨y', hy', hdata, horigin'⟩ := hk.jobs _ n y hy
  exact ⟨n, y', hy', by rwa [horigin'], by rw [hdata, hname], by rw [hdata, hpayload]⟩

theorem Served.keeps {data : Data q} (h : Served w q id data) (hk : Keeps w w') : Served w' q id data := by
  cases q with
  | domainEvents => exact fun eventName hmem => (h eventName hmem).keeps hk
  | notifications =>
    obtain ⟨x, hx, hsent⟩ := h
    exact ⟨x, hk.sendings x hx, hsent⟩
  | deadLetter => trivial

theorem keeps_add {name : String} {data : Data q} {origin : Option Attempt} :
    Keeps w (w.add q name data origin) :=
  ⟨fun _ _ e he => ⟨e, World.job_add_old he, rfl, rfl⟩, fun _ hx => hx⟩

theorem keeps_modify {f : Entry (Option Attempt) (Data q) → Entry (Option Attempt) (Data q)}
    (hf : ∀ e, (f e).data = e.data ∧ (f e).origin = e.origin) : Keeps w (w.modify q id f) := by
  refine ⟨fun q' k e he => ?_, fun _ hx => hx⟩
  by_cases hsame : q' = q ∧ k = id
  · obtain ⟨rfl, rfl⟩ := hsame
    exact ⟨f e, World.job_modify_self he, hf e⟩
  · exact ⟨e, (World.job_modify_ne hsame).trans he, rfl, rfl⟩

theorem keeps_of_effect {r : Except Error (Ans o)} (he : Effect i w o r w') : Keeps w w' := by
  cases he with
  | refused => exact ⟨(Keeps.refl w).jobs, fun _ hx => hx⟩
  | added => exact keeps_add
  | @took q id e hjob hwaiting =>
    have htaken : Keeps w (w.modify q id .take) := keeps_modify fun _ => ⟨rfl, rfl⟩
    exact ⟨htaken.jobs, htaken.sendings⟩
  | missed => exact .refl w
  | completed => exact keeps_modify fun _ => ⟨rfl, rfl⟩
  | failed => exact keeps_modify fun _ => ⟨rfl, rfl⟩
  | sent => exact ⟨(Keeps.refl w).jobs, fun _ hx => List.mem_append_left _ hx⟩
  | unsent => exact ⟨(Keeps.refl w).jobs, fun _ hx => List.mem_append_left _ hx⟩

theorem keeps_of_perform {ω : Choice} {r : Except Error (Ans o)} (h : server.perform i o ω w = some (r, w')) :
    Keeps w w' :=
  keeps_of_effect (effect_of_perform h)

/-- A call changes its attempt only when it takes a job. -/
theorem holds_of_effect {j : ℕ} {r : Except Error (Ans o)} (he : Effect j w o r w')
    (h : i ≠ j ∨ ∀ q id, o ≠ .take q id) : w'.holds i = w.holds i := by
  cases he with
  | took =>
    rcases h with hother | htake
    · exact Function.update_of_ne hother _ _
    · exact absurd rfl (htake _ _)
  | _ => rfl

theorem keepsAttempt_of_perform {j : ℕ} {ω : Choice} {r : Except Error (Ans o)}
    (h : i ≠ j ∨ ∀ q id, o ≠ .take q id) (hp : server.perform j o ω w = some (r, w')) : KeepsAttempt i w w' :=
  ⟨keeps_of_perform hp, holds_of_effect (effect_of_perform hp) h⟩

/-! ## What completed jobs stand for -/

theorem World.Completed.add (h : w.Completed) {name : String} {data : Data q} {origin : Option Attempt} :
    (w.add q name data origin).Completed := by
  have hk : Keeps w (w.add q name data origin) := keeps_add
  refine World.job_add (P := fun q k e => e.status = .completed → Served _ q k e.data) ?_ ?_
  · exact fun q k e he hcompleted => (h q k e he hcompleted).keeps hk
  · intro hcompleted
    cases hcompleted

/-- A job that is changed is completed only if it was before, or if it has been served. -/
theorem World.Completed.modify (h : w.Completed)
    {f : Entry (Option Attempt) (Data q) → Entry (Option Attempt) (Data q)}
    (hf : ∀ e, (f e).data = e.data ∧ (f e).origin = e.origin)
    (hcompletes : ∀ e, w.job q id = some e → (f e).status = .completed →
      e.status = .completed ∨ Served w q id e.data) : (w.modify q id f).Completed := by
  have hk : Keeps w (w.modify q id f) := keeps_modify hf
  refine World.job_modify (P := fun q k e => e.status = .completed → Served _ q k e.data) ?_ ?_
  · exact fun q' k e he _ hcompleted => (h q' k e he hcompleted).keeps hk
  · intro e he hcompleted
    rw [(hf e).1]
    rcases hcompletes e he hcompleted with hbefore | hserved
    · exact (h q id e he hbefore).keeps hk
    · exact hserved.keeps hk

/-- A job is completed when it has been served. -/
def Completes : Op → World → Prop
  | .complete q id, w => ∀ e, w.job q id = some e → Served w q id e.data
  | _, _ => True

theorem completed_of_effect {r : Except Error (Ans o)} (hw : w.Completed) (hpre : Completes o w)
    (he : Effect i w o r w') : w'.Completed := by
  have hk := keeps_of_effect he
  cases he with
  | refused => exact fun q k e he hcompleted => (hw q k e he hcompleted).keeps hk
  | added => exact hw.add
  | @took q id e hjob hwaiting =>
    have htaken : (w.modify q id .take).Completed := by
      refine hw.modify (fun _ => ⟨rfl, rfl⟩) fun e _ hcompleted => ?_
      cases hcompleted
    exact fun q' k e he hcompleted =>
      (htaken q' k e he hcompleted).keeps ⟨fun _ _ e he => ⟨e, he, rfl, rfl⟩, fun _ hx => hx⟩
  | missed => exact hw
  | completed => exact hw.modify (fun _ => ⟨rfl, rfl⟩) fun e he _ => .inr (hpre e he)
  | failed q id =>
    refine hw.modify (fun _ => ⟨rfl, rfl⟩) fun e _ hcompleted => ?_
    simp only [Entry.fail] at hcompleted
    split at hcompleted <;> cases hcompleted
  | sent => exact fun q k e he hcompleted => (hw q k e he hcompleted).keeps hk
  | unsent => exact fun q k e he hcompleted => (hw q k e he hcompleted).keeps hk

def completion : Contract server where
  Inv := World.Completed
  Pre _ _ o w := Completes o w
  Rely := KeepsAttempt
  rely_refl _ w := ⟨.refl w, rfl⟩
  rely_trans h h' := h.trans h'
  inv_perform hinv hpre hp := completed_of_effect hinv hpre (effect_of_perform hp)
  rely_perform hij _ _ hp := keepsAttempt_of_perform (.inl hij) hp

section Workers

variable {req : Request} {answers : List (Answer Ans Error)}

/-- What is added to the notifications has got into their queue. -/
theorem notify_noted {k a : ℕ} {name : String} {data : ℕ → JobData} {eventName : String} {payload : Record}
    (hholds : w.holds i = some ⟨.domainEvents, k, a⟩)
    (hdata : ∀ now, (data now).eventName = eventName ∧ (data now).payload = payload) :
    completion.wp req i (await (.add .notifications name data))
      (fun _ r w' => KeepsAttempt i w w' ∧ (r = .ok () → w'.Noted k eventName payload)) answers w := by
  refine Contract.wp_call fun w₁ hrely _ => ⟨trivial, fun ω r w₂ hp => ?_⟩
  refine ⟨hrely.trans (keepsAttempt_of_perform (.inr fun _ _ h => by cases h) hp), fun hr => ?_⟩
  subst hr
  have heffect : Effect i w₁ (.add .notifications name data) (.ok ()) w₂ := effect_of_perform (ω := ω) hp
  cases heffect with
  | added _ _ _ now => exact ⟨_, _, World.job_add_new, ⟨a, hrely.holds.trans hholds⟩, (hdata now).1, (hdata now).2⟩

/-- The postcondition of an attempt: when it succeeds, the job has been served. -/
def Serves (w : World) (q : QueueName) (id : ℕ) (data : Data q) (_ : List (Answer Ans Error)) (r : Except Error Unit)
    (w' : World) : Prop :=
  Keeps w w' ∧ (r = .ok () → Served w' q id data)

theorem process_domainEvents_serves {a : ℕ} {job : Job JobData}
    (hholds : w.holds i = some ⟨.domainEvents, job.id, a⟩) :
    completion.wp req i (DomainEventsProcessor.process job) (Serves w .domainEvents job.id job.data) answers w := by
  unfold DomainEventsProcessor.process
  dsimp only
  split
  · rename_i htransfer
    have hdue : notificationsFor job.data.eventName =
        [DomainEventName.transferSent.value, DomainEventName.transferReceived.value] := by
      rw [htransfer]
      rfl
    apply Contract.wp_bind.mpr
    refine Contract.wp_mono (notify_noted hholds fun _ => ⟨rfl, rfl⟩) fun _ r w₁ ⟨hk₁, hsent⟩ => ?_
    cases r with
    | error e => exact ⟨hk₁.toKeeps, fun h => by cases h⟩
    | ok _ =>
      apply Contract.wp_bind.mpr
      -- the second notification is added in the same attempt
      have hholds₁ := hk₁.holds.trans hholds
      refine Contract.wp_mono (notify_noted hholds₁ fun _ => ⟨rfl, rfl⟩) fun _ r w₂ ⟨hk₂, hreceived⟩ => ?_
      cases r with
      | error e => exact ⟨(hk₁.trans hk₂).toKeeps, fun h => by cases h⟩
      | ok _ =>
        refine ⟨(hk₁.trans hk₂).toKeeps, fun _ eventName hmem => ?_⟩
        rw [hdue] at hmem
        rcases List.mem_pair.mp hmem with rfl | rfl
        · exact (hsent rfl).keeps hk₂.toKeeps
        · exact hreceived rfl
  · rename_i htransfer
    split
    · refine Contract.wp_mono (notify_noted hholds fun _ => ⟨rfl, rfl⟩) fun _ r w₁ ⟨hk, hnoted⟩ =>
        ⟨hk.toKeeps, fun hr => ?_⟩
      intro eventName hmem
      rw [notificationsFor, if_neg htransfer] at hmem
      split at hmem
      · rename_i hdeposit
        rw [List.mem_singleton.mp hmem, ← hdeposit]
        exact hnoted hr
      · cases hmem
    · rename_i hother
      refine ⟨.refl w, fun _ eventName hmem => ?_⟩
      have hdeposit : job.data.eventName ≠ DomainEventName.depositSucceeded.value := by simpa using hother
      rw [notificationsFor, if_neg htransfer, if_neg hdeposit] at hmem
      cases hmem

theorem process_notifications_serves {a : ℕ} {job : Job JobData}
    (hholds : w.holds i = some ⟨.notifications, job.id, a⟩) :
    completion.wp req i (NotificationsProcessor.process job) (Serves w .notifications job.id job.data) answers w := by
  refine Contract.wp_call fun w₁ hrely _ => ⟨trivial, fun ω r w₂ hp => ?_⟩
  refine ⟨hrely.toKeeps.trans (keeps_of_perform hp), fun hr => ?_⟩
  subst hr
  have heffect : Effect i w₁ (.send job.data.eventName job.data.payload) (.ok ()) w₂ := effect_of_perform (ω := ω) hp
  cases heffect with
  | sent => exact ⟨_, List.mem_append_right _ List.mem_cons_self, ⟨a, hrely.holds.trans hholds⟩, rfl, rfl, rfl⟩

theorem process_deadLetter_serves {job : Job DeadLetterData} :
    completion.wp req i (DeadLetterProcessor.process job) (Serves w .deadLetter job.id job.data) answers w := by
  unfold DeadLetterProcessor.process
  dsimp only
  split
  · exact ⟨.refl w, fun _ => trivial⟩
  · cases hqueue : DeadLetterProcessor.queueMap job.data.originalQueue with
    | none => exact ⟨.refl w, fun _ => trivial⟩
    | some add =>
      have hadds : ∀ name data, ∃ q entry, add name data = await (.add q name entry) := by
        intro name data
        unfold DeadLetterProcessor.queueMap at hqueue
        split at hqueue
        · cases hqueue
          exact ⟨.notifications, _, rfl⟩
        · split at hqueue <;> cases hqueue
          exact ⟨.domainEvents, _, rfl⟩
      obtain ⟨q, entry, heq⟩ :=
        hadds job.data.originalJobName { job.data.data with dlqMeta := some (job.data.dlqCount.getD 0 + 1) }
      show completion.wp req i (add _ _) _ _ _
      rw [heq]
      refine Contract.wp_call fun w₁ hrely _ => ⟨trivial, fun ω r w₂ hp => ?_⟩
      exact ⟨hrely.toKeeps.trans (keeps_of_perform hp), fun _ => trivial⟩

theorem process_serves {a : ℕ} {job : Job (Data q)} (hholds : w.holds i = some ⟨q, job.id, a⟩) :
    completion.wp req i (process q job) (Serves w q job.id job.data) answers w := by
  cases q with
  | domainEvents => exact process_domainEvents_serves hholds
  | notifications => exact process_notifications_serves hholds
  | deadLetter => exact process_deadLetter_serves

theorem onFailed_completes {job : Job (Data q)} {err : Error} :
    completion.wp req i (onFailed q job err) (fun _ _ _ => True) answers w := by
  cases q with
  | domainEvents => trivial
  | notifications =>
    unfold onFailed NotificationsProcessor.onFailed
    dsimp only
    split
    · exact Contract.wp_call fun _ _ _ => ⟨trivial, fun _ _ _ _ => trivial⟩
    · trivial
  | deadLetter => trivial

theorem work_completes (q : QueueName) (id : ℕ) :
    completion.wp req i (work q id) (fun _ _ _ => True) answers w := by
  apply Contract.wp_bind.mpr
  refine Contract.wp_call fun w₁ _ _ => ⟨trivial, fun ω r w₂ hp => ?_⟩
  have hk := keeps_of_perform hp
  have heffect : Effect i w₁ (.take q id) r w₂ := effect_of_perform (ω := ω) hp
  cases heffect with
  | missed => trivial
  | @took _ _ e hjob hwaiting =>
    -- from here on the call holds this attempt, whatever becomes of the job
    obtain ⟨e₂, he₂, hdata₂, -⟩ := hk.jobs q id e hjob
    have hholds : (w₁.begin i ⟨q, id, e.attemptsStarted + 1⟩).holds i = some ⟨q, id, e.attemptsStarted + 1⟩ :=
      Function.update_self ..
    apply Contract.wp_bind.mpr
    apply Contract.wp_settled.mpr
    refine Contract.wp_mono (process_serves hholds) fun _ r w₃ ⟨hk₃, hserved⟩ => ?_
    cases r with
    | ok _ =>
      refine Contract.wp_call fun w₄ hk₄ _ => ⟨fun e₄ he₄ => ?_, fun _ _ _ _ => trivial⟩
      -- the job has the data with which it was taken
      obtain ⟨e', he', hdata', -⟩ := (hk₃.trans hk₄.toKeeps).jobs q id e₂ he₂
      obtain rfl := Option.some.inj (he'.symm.trans he₄)
      rw [hdata', hdata₂]
      exact (hserved rfl).keeps hk₄.toKeeps
    | error err =>
      apply Contract.wp_bind.mpr
      refine Contract.wp_call fun w₄ _ _ => ⟨trivial, fun _ r _ _ => ?_⟩
      cases r with
      | error e => trivial
      | ok _ => exact onFailed_completes

end Workers

end LiorParisWallet.Queues
