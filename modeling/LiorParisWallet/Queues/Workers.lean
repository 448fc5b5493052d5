import LiorParisWallet.Queues.Attempts

/-!
# The workers keep the contract

A worker that goes on with its job finds it as it was, and ends its attempt with what the outcome of
`process` promises.  A notification whose last attempt has failed is in the `dead-letter` queue when the
handler has ended.
-/

namespace LiorParisWallet.Queues

open Async Jobs

variable {req : Request} {answers : List (Answer Ans Error)} {i : ℕ} {w w' : World} {t : Attempt}

/-- Call `i` makes the attempt on the job `e` that has begun last. -/
structure Working (i : ℕ) (q : QueueName) (id : ℕ) (e : Entry (Option Attempt) (Data q)) (w : World) :
    Prop where
  holds : w.holds i = some ⟨q, id, e.attemptsStarted⟩
  job : w.job q id = some e
  active : e.status = .active

section Working

variable {q : QueueName} {id : ℕ} {e : Entry (Option Attempt) (Data q)}

theorem Working.running (h : Working i q id e w) : Running w ⟨q, id, e.attemptsStarted⟩ :=
  ⟨e, h.job, h.active, rfl⟩

theorem Working.spares (h : Working i q id e w) (hs : Spares i w w') : Working i q id e w' :=
  ⟨hs.holds.trans h.holds, (hs.running _ h.holds h.running).trans h.job, h.active⟩

theorem Working.add {q' : QueueName} {name : String} {data : Data q'} {origin : Option Attempt}
    (h : Working i q id e w) : Working i q id e (w.add q' name data origin) :=
  ⟨h.holds, World.job_add_old h.job, h.active⟩

/-- The attempt is under way, or it has ended with the outcome `ok`. -/
def Leaves (i : ℕ) (q : QueueName) (id : ℕ) (e : Entry (Option Attempt) (Data q))
    (_ : List (Answer Ans Error)) (r : Except Error Unit) (w : World) : Prop :=
  Working i q id e w ∧ Outcome w ⟨q, id, e.attemptsStarted⟩ r.isOk

end Working

/-! ## `DomainEventsProcessor` -/

/-- In the attempt, just these notifications have been added. -/
structure Notified (w : World) (t : Attempt) (names : List String) (payload : Record) : Prop where
  only : ∀ n y, w.job .notifications n = some y → y.origin = some t → y.data.eventName ∈ names
  all : ∀ name ∈ names, Notifies w t name payload
  refusals : ∀ x ∈ w.refusals, x.attempt ≠ some t

/-- The notifications could not be added, but for some of these names. -/
def Unnotified (w : World) (t : Attempt) (names : List String) : Prop :=
  (∃ x ∈ w.refusals, x.attempt = some t) ∧
    ∀ n y, w.job .notifications n = some y → y.origin = some t → y.data.eventName ∈ names

theorem Idle.notified (h : Idle w t) (payload : Record) : Notified w t [] payload :=
  ⟨fun n y hy ht => absurd ht (h.jobs _ n y hy), (fun _ hname => nomatch hname), h.refusals⟩

theorem Notified.spares {names : List String} {payload : Record} (h : Notified w t names payload)
    (hholds : w.holds i = some t) (hs : Spares i w w') : Notified w' t names payload where
  only n y hy ht := by
    obtain ⟨y₀, hy₀, hlater⟩ := (hs.still t hholds).jobs _ n y hy ht
    rw [hlater.data]
    exact h.only n y₀ hy₀ (hlater.origin ▸ ht)
  all name hname := (h.all name hname).grows hs.grows
  refusals x hx ht := h.refusals x ((hs.still t hholds).refusals x hx ht) ht

theorem add_notification {d : ℕ} {e : Entry (Option Attempt) JobData} {names : List String}
    {name : String} {payload : Record} (h : Working i .domainEvents d e w)
    (hnotified : Notified w ⟨.domainEvents, d, e.attemptsStarted⟩ names payload) :
    queueContract.wp req i
      (await (.add .notifications name (DomainEventsProcessor.notification name payload)))
      (fun _ r w' => Working i .domainEvents d e w' ∧ match r with
        | .ok _ => Notified w' ⟨.domainEvents, d, e.attemptsStarted⟩ (names ++ [name]) payload
        | .error _ => Unnotified w' ⟨.domainEvents, d, e.attemptsStarted⟩ names) answers w := by
  refine Contract.wp_call fun w₁ hs _ => ?_
  have h₁ := h.spares hs
  have hnotified₁ := hnotified.spares h.holds hs
  refine ⟨?_, fun ω r w₂ hp => ?_⟩
  · show Obliged i (.add _ _ _) w₁
    simp only [Obliged, h₁.holds]
    exact ⟨.inl h₁.running, fun hne => absurd rfl hne, fun _ => .notification⟩
  · have heffect : Effect i w₁ (.add _ _ _) r w₂ := effect_of_perform hp
    cases heffect with
    | refused _ _ _ error =>
      refine ⟨⟨h₁.holds, h₁.job, h₁.active⟩, ⟨_, List.mem_append_right _ (List.mem_singleton_self _), ?_⟩,
        hnotified₁.only⟩
      exact h₁.holds
    | added _ _ _ now =>
      have hgrows : Grows w₁ (w₁.add .notifications name
          (DomainEventsProcessor.notification name payload now) (w₁.holds i)) :=
        { Grows.refl w₁ with jobs := fun q k e he => ⟨e, World.job_add_old he, .refl e⟩ }
      refine ⟨h₁.add, ?_, fun name' hname' => ?_, hnotified₁.refusals⟩
      · intro n y hy ht
        rcases World.job_add_same hy with hy | ⟨-, rfl⟩
        · exact List.mem_append_left _ (hnotified₁.only n y hy ht)
        · exact List.mem_append_right _ (List.mem_singleton_self _)
      · rcases List.mem_append.mp hname' with hname' | hname'
        · exact (hnotified₁.all name' hname').grows hgrows
        · rw [List.mem_singleton.mp hname']
          exact ⟨_, _, World.job_add_new, h₁.holds, rfl, rfl⟩

theorem Unnotified.outcome {d a : ℕ} {e : Entry (Option Attempt) JobData} {names : List String}
    {name : String} (h : Unnotified w ⟨.domainEvents, d, a⟩ names)
    (hjob : w.job .domainEvents d = some e)
    (hlast : (notificationsFor e.data.eventName).getLast? = some name) (hname : name ∉ names) :
    Outcome w ⟨.domainEvents, d, a⟩ false := by
  refine ⟨h.1, fun e' he' => ?_⟩
  obtain rfl := Option.some.inj (hjob.symm.trans he')
  refine ⟨name, hlast, fun n y hy ht heq => hname ?_⟩
  rw [← heq]
  exact h.2 n y hy ht

theorem Notified.outcome {d a : ℕ} {e : Entry (Option Attempt) JobData}
    (h : Notified w ⟨.domainEvents, d, a⟩ (notificationsFor e.data.eventName) e.data.payload)
    (hjob : w.job .domainEvents d = some e) : Outcome w ⟨.domainEvents, d, a⟩ true := by
  refine ⟨h.refusals, fun e' he' => ?_⟩
  obtain rfl := Option.some.inj (hjob.symm.trans he')
  exact h.all

theorem notificationsFor_transfer : notificationsFor DomainEventName.transferCompleted.value =
    [DomainEventName.transferSent.value, DomainEventName.transferReceived.value] :=
  if_pos rfl

theorem notificationsFor_deposit : notificationsFor DomainEventName.depositSucceeded.value =
    [DomainEventName.depositSucceeded.value] := by
  decide

theorem process_domainEvents {d m : ℕ} {e : Entry (Option Attempt) JobData}
    (h : Working i .domainEvents d e w) (hidle : Idle w ⟨.domainEvents, d, e.attemptsStarted⟩) :
    queueContract.wp req i (DomainEventsProcessor.process ⟨d, e.name, e.data, m⟩)
      (Leaves i .domainEvents d e) answers w := by
  have hnotified := hidle.notified e.data.payload
  unfold DomainEventsProcessor.process
  dsimp only
  split
  · rename_i htransfer
    have hnames : notificationsFor e.data.eventName =
        [DomainEventName.transferSent.value, DomainEventName.transferReceived.value] := by
      rw [show e.data.eventName = _ from htransfer]
      exact notificationsFor_transfer
    refine Contract.wp_bind.mpr (Contract.wp_mono (add_notification h hnotified) ?_)
    rintro answers r w₁ ⟨h₁, hr⟩
    cases r with
    | error err => exact ⟨h₁, hr.outcome h₁.job (by rw [hnames]; rfl) fun hm => nomatch hm⟩
    | ok _ =>
      refine Contract.wp_bind.mpr (Contract.wp_mono (add_notification h₁ hr) ?_)
      rintro answers r w₂ ⟨h₂, hr⟩
      cases r with
      | error err => exact ⟨h₂, hr.outcome h₂.job (by rw [hnames]; rfl) (by decide)⟩
      | ok _ => exact ⟨h₂, Notified.outcome (by rw [hnames]; exact hr) h₂.job⟩
  · rename_i htransfer
    by_cases hdeposit : e.data.eventName = DomainEventName.depositSucceeded.value
    · have hnames : notificationsFor e.data.eventName = [e.data.eventName] := by
        rw [hdeposit]
        exact notificationsFor_deposit
      rw [if_pos (List.mem_singleton.mpr hdeposit)]
      refine Contract.wp_mono (add_notification h hnotified) ?_
      rintro answers r w₁ ⟨h₁, hr⟩
      cases r with
      | error err => exact ⟨h₁, hr.outcome h₁.job (by rw [hnames]; rfl) fun hm => nomatch hm⟩
      | ok _ => exact ⟨h₁, Notified.outcome (by rw [hnames]; exact hr) h₁.job⟩
    · have hnames : notificationsFor e.data.eventName = [] := by
        rw [notificationsFor, if_neg htransfer, if_neg hdeposit]
      rw [if_neg fun hm => hdeposit (List.mem_singleton.mp hm)]
      exact ⟨h, Notified.outcome (by rw [hnames]; exact hnotified) h.job⟩

/-! ## `NotificationsProcessor` -/

theorem process_notifications {n m : ℕ} {e : Entry (Option Attempt) JobData}
    (h : Working i .notifications n e w) (hidle : Idle w ⟨.notifications, n, e.attemptsStarted⟩) :
    queueContract.wp req i (NotificationsProcessor.process ⟨n, e.name, e.data, m⟩)
      (Leaves i .notifications n e) answers w := by
  refine Contract.wp_call fun w₁ hs _ => ?_
  have h₁ := h.spares hs
  have hidle₁ := hidle.still (hs.still _ h.holds)
  refine ⟨⟨n, e, _, h₁.holds, h₁.running, h₁.job, rfl, rfl, hidle₁.sendings⟩, fun ω r w₂ hp => ?_⟩
  have heffect : Effect i w₁ (.send e.data.eventName e.data.payload) r w₂ := effect_of_perform hp
  have hlast : ∀ ok, ∃ x ∈ w₁.sendings ++ [⟨w₁.holds i, e.data.eventName, e.data.payload, ok⟩],
      x.attempt = some ⟨.notifications, n, e.attemptsStarted⟩ ∧ x.ok = ok := fun ok =>
    ⟨_, List.mem_append_right _ (List.mem_singleton_self _), h₁.holds, rfl⟩
  cases heffect with
  | sent _ _ => exact ⟨⟨h₁.holds, h₁.job, h₁.active⟩, hlast true⟩
  | unsent _ _ err => exact ⟨⟨h₁.holds, h₁.job, h₁.active⟩, hlast false⟩

/-! ## `DeadLetterProcessor` -/

theorem process_deadLetter {k m : ℕ} {e : Entry (Option Attempt) DeadLetterData}
    (h : Working i .deadLetter k e w) (hidle : Idle w ⟨.deadLetter, k, e.attemptsStarted⟩)
    (hqueue : e.data.originalQueue = QueueName.notifications.value) :
    queueContract.wp req i (DeadLetterProcessor.process ⟨k, e.name, e.data, m⟩)
      (Leaves i .deadLetter k e) answers w := by
  unfold DeadLetterProcessor.process
  dsimp only
  split
  · rename_i hmax
    refine ⟨h, fun e' he' hcount => ?_⟩
    obtain rfl := Option.some.inj (h.job.symm.trans he')
    omega
  · rename_i hcount
    rw [show DeadLetterProcessor.queueMap e.data.originalQueue = some _ from if_pos hqueue]
    refine Contract.wp_call fun w₁ hs _ => ?_
    have h₁ := h.spares hs
    have hidle₁ := hidle.still (hs.still _ h.holds)
    refine ⟨?_, fun ω r w₂ hp => ?_⟩
    · show Obliged i (.add _ _ _) w₁
      simp only [Obliged, h₁.holds]
      exact ⟨.inl h₁.running, fun _ => hidle₁.jobs _,
        fun _ => .again h₁.job (Nat.lt_of_not_le hcount) rfl rfl⟩
    · have heffect : Effect i w₁ (.add _ _ _) r w₂ := effect_of_perform hp
      cases heffect with
      | refused _ _ _ err =>
        exact ⟨⟨h₁.holds, h₁.job, h₁.active⟩,
          ⟨_, List.mem_append_right _ (List.mem_singleton_self _), h₁.holds⟩⟩
      | added _ _ _ now => exact ⟨h₁.add, fun _ _ _ => ⟨_, _, World.job_add_new, h₁.holds⟩⟩

/-- Every job of the `dead-letter` queue is a notification that has failed. -/
theorem World.Inv.originalQueue (hinv : w.Inv) {k : ℕ} {x : Entry (Option Attempt) DeadLetterData}
    (hx : w.job .deadLetter k = some x) : x.data.originalQueue = QueueName.notifications.value := by
  obtain ⟨t, ht⟩ := Option.ne_none_iff_exists'.mp (hinv.deadLetter .deadLetter k x hx rfl)
  cases (hinv.made .deadLetter k x hx t ht).2 with
  | deadLetter error now _ _ _ hdata => rw [hdata]; rfl

theorem process_spec {q : QueueName} {id m : ℕ} {e : Entry (Option Attempt) (Data q)} (hinv : w.Inv)
    (h : Working i q id e w) (hidle : Idle w ⟨q, id, e.attemptsStarted⟩) :
    queueContract.wp req i (process q ⟨id, e.name, e.data, m⟩) (Leaves i q id e) answers w := by
  cases q with
  | domainEvents => exact process_domainEvents h hidle
  | notifications => exact process_notifications h hidle
  | deadLetter => exact process_deadLetter h hidle (hinv.originalQueue h.job)

/-! ## A worker -/

/-- The notification has a job of the `dead-letter` queue. -/
def Buried (w : World) (n : ℕ) : Prop :=
  ∃ k x, w.job .deadLetter k = some x ∧ x.data.originalJobId = n

/-- The attempt has ended, and if it was the last one of a notification and has failed, then the
    notification was buried, or could not be. -/
structure Finished (w : World) (t : Attempt) : Prop where
  ended : ∃ e, w.job t.queue t.job = some e ∧ t.number ≤ e.attemptsMade
  buried : t.queue = .notifications → t.number < QueueName.notifications.maxAttempts ∨
    (∃ y, w.job .notifications t.job = some y ∧ y.status = .completed) ∨ Buried w t.job ∨
      ∃ x ∈ w.refusals, x.attempt = some t ∧ x.queue = .deadLetter

theorem Buried.grows {n : ℕ} (h : Buried w n) (hg : Grows w w') : Buried w' n := by
  obtain ⟨k, x, hx, hid⟩ := h
  obtain ⟨x', hx', hlater⟩ := hg.jobs _ k x hx
  exact ⟨k, x', hx', by rwa [hlater.data]⟩

theorem Finished.grows (h : Finished w t) (hg : Grows w w') : Finished w' t where
  ended := by
    obtain ⟨e, he, hle⟩ := h.ended
    obtain ⟨e', he', hlater⟩ := hg.jobs _ _ e he
    exact ⟨e', he', hle.trans hlater.made⟩
  buried hqueue := by
    rcases h.buried hqueue with hlt | ⟨y, hy, hcompleted⟩ | hburied | ⟨x, hx, hrefused⟩
    · exact .inl hlt
    · obtain ⟨y', hy', hlater⟩ := hg.jobs _ _ y hy
      obtain rfl := hlater.ended (.inl hcompleted)
      exact .inr (.inl ⟨y', hy', hcompleted⟩)
    · exact .inr (.inr (.inl (hburied.grows hg)))
    · exact .inr (.inr (.inr ⟨x, hg.refusals.subset hx, hrefused⟩))

/-- A call that ends has finished the attempt that it has begun. -/
def Ends (i : ℕ) (_ : Request) (_ : List (Answer Ans Error)) (_ : Except Error Unit) (w : World) : Prop :=
  ∀ t, w.holds i = some t → Finished w t

/-- The handler of the event `failed`, after the attempt has been taken down. -/
theorem onFailed_spec {n : ℕ} {y : Entry (Option Attempt) JobData} {err : Error}
    (hvalid : y.Valid QueueName.notifications.maxAttempts) (hactive : y.status = .active)
    (hholds : w.holds i = some ⟨.notifications, n, y.attemptsStarted⟩)
    (hy : w.job .notifications n = some (y.fail QueueName.notifications.maxAttempts))
    (hidle : ∀ k x, w.job .deadLetter k = some x →
      x.origin ≠ some ⟨.notifications, n, y.attemptsStarted⟩) :
    queueContract.wp req i
      (NotificationsProcessor.onFailed ⟨n, y.name, y.data, y.attemptsMade + 1⟩ err)
      (Ends i req) answers w := by
  obtain ⟨hstarted, hlt⟩ := hvalid.active hactive
  have hover : ∀ w', Grows w w' → ∃ e, w'.job .notifications n = some e ∧
      y.attemptsStarted ≤ e.attemptsMade := by
    intro w' hg
    obtain ⟨e, he, hlater⟩ := hg.jobs _ n _ hy
    exact ⟨e, he, hstarted ▸ hlater.made⟩
  unfold NotificationsProcessor.onFailed
  split
  · rename_i hmax
    have hmade : y.attemptsMade + 1 = QueueName.notifications.maxAttempts := Nat.le_antisymm hlt hmax
    have hfailed : (y.fail QueueName.notifications.maxAttempts).status = .failed :=
      if_neg (Nat.not_lt.mpr hmade.symm.le)
    refine Contract.wp_call fun w₁ hs _ => ?_
    have hholds₁ := hs.holds.trans hholds
    have hy₁ : w₁.job .notifications n = some (y.fail QueueName.notifications.maxAttempts) := by
      obtain ⟨e, he, hlater⟩ := hs.grows.jobs _ n _ hy
      -- the job has failed for good
      rw [he, hlater.ended (.inr hfailed)]
    refine ⟨?_, fun ω r w₂ hp t ht => ?_⟩
    · show Obliged i (.add _ _ _) w₁
      simp only [Obliged, hholds₁]
      refine ⟨.inr trivial, fun _ k x hx horigin => ?_, fun now => ?_⟩
      · obtain ⟨x₀, hx₀, hlater⟩ := (hs.still _ hholds).jobs _ k x hx horigin
        exact hidle k x₀ hx₀ (hlater.origin ▸ horigin)
      · exact .deadLetter (y := y.fail QueueName.notifications.maxAttempts) err now hy₁ hfailed rfl rfl
    · have heffect : Effect i w₁ (.add _ _ _) r w₂ := effect_of_perform hp
      cases heffect with
      | refused _ _ _ e =>
        obtain rfl := Option.some.inj (hholds₁.symm.trans ht)
        exact ⟨hover _ (hs.grows.trans
            { Grows.refl w₁ with refusals := List.prefix_append _ _ }), fun _ =>
          .inr (.inr (.inr ⟨_, List.mem_append_right _ (List.mem_singleton_self _), hholds₁, rfl⟩))⟩
      | added _ _ _ now =>
        obtain rfl := Option.some.inj (hholds₁.symm.trans ht)
        exact ⟨hover _ (hs.grows.trans
            { Grows.refl w₁ with jobs := fun q k e he => ⟨e, World.job_add_old he, .refl e⟩ }), fun _ =>
          .inr (.inr (.inl ⟨_, _, World.job_add_new, rfl⟩))⟩
  · rename_i hmax
    intro t ht
    obtain rfl := Option.some.inj (hholds.symm.trans ht)
    exact ⟨hover w (.refl w), fun _ => .inl (hstarted ▸ Nat.lt_of_not_le hmax)⟩

section Work

variable {q : QueueName} {id : ℕ}

/-- Nothing has been done in an attempt that has not begun. -/
theorem World.Inv.idle (hinv : w.Inv) (h : ¬ Began w t) : Idle w t where
  jobs q k e he ht := h (hinv.made q k e he t ht).1
  sendings x hx ht := by
    obtain ⟨n, y, a, hy, ht', hpos, hle, -⟩ := hinv.sendings x hx
    obtain rfl := Option.some.inj (ht'.symm.trans ht)
    exact h ⟨y, hy, hpos, hle⟩
  refusals x hx ht := h (hinv.refusals x hx t ht)

theorem Began.le {e : Entry (Option Attempt) (Data q)} {a : ℕ} (h : Began w ⟨q, id, a⟩)
    (hjob : w.job q id = some e) : a ≤ e.attemptsStarted := by
  obtain ⟨e', he', -, hle⟩ := h
  obtain rfl := Option.some.inj (hjob.symm.trans he')
  exact hle

/-- The job that a worker has just taken. -/
theorem working_of_took {e : Entry (Option Attempt) (Data q)} (hjob : w.job q id = some e)
    (hwaiting : e.status = .waiting) (hinv : w.Inv) :
    Working i q id e.take (w.begin i ⟨q, id, e.attemptsStarted + 1⟩) ∧
      Idle (w.begin i ⟨q, id, e.attemptsStarted + 1⟩) ⟨q, id, e.attemptsStarted + 1⟩ := by
  have hidle := hinv.idle fun h : Began w ⟨q, id, e.attemptsStarted + 1⟩ =>
    Nat.not_succ_le_self _ (h.le hjob)
  refine ⟨⟨Function.update_self .., World.job_modify_self hjob, rfl⟩, ?_⟩
  exact hidle.still { still_modify hjob (Entry.later_take hwaiting) _ with }

/-- Nothing is buried on behalf of an attempt that is running. -/
theorem Working.unburied {n : ℕ} {y : Entry (Option Attempt) JobData}
    (h : Working i .notifications n y w) (hinv : w.Inv) :
    ∀ k x, w.job .deadLetter k = some x → x.origin ≠ some ⟨.notifications, n, y.attemptsStarted⟩ := by
  intro k x hx horigin
  generalize ht : (⟨.notifications, n, y.attemptsStarted⟩ : Attempt) = t at horigin
  cases (hinv.made .deadLetter k x hx t horigin).2 with
  | deadLetter error now hy hfailed =>
    obtain rfl := congrArg Attempt.job ht
    obtain rfl := Option.some.inj (h.job.symm.trans hy)
    exact nomatch h.active.symm.trans hfailed

/-- What has come of the attempt stays while the others act. -/
theorem Working.outcome {e : Entry (Option Attempt) (Data q)} {ok : Bool} (h : Working i q id e w)
    (hs : Spares i w w') (houtcome : Outcome w ⟨q, id, e.attemptsStarted⟩ ok) :
    Outcome w' ⟨q, id, e.attemptsStarted⟩ ok := by
  have h₁ := h.spares hs
  refine houtcome.later hs.grows (hs.still _ h.holds) ?_
  rw [h.job]
  exact Option.some_ne_none e

theorem complete_spec {e : Entry (Option Attempt) (Data q)} (h : Working i q id e w)
    (houtcome : Outcome w ⟨q, id, e.attemptsStarted⟩ true) :
    queueContract.wp req i (await (.complete q id)) (Ends i req) answers w := by
  refine Contract.wp_call fun w₁ hs hinv₁ => ?_
  have h₁ := h.spares hs
  refine ⟨⟨_, h₁.holds, h₁.running, h.outcome hs houtcome⟩,
    fun ω r w₂ hp t ht => ?_⟩
  cases hp
  obtain rfl := Option.some.inj (h₁.holds.symm.trans ht)
  refine ⟨⟨_, World.job_modify_self h₁.job, ?_⟩, fun hq => .inr (.inl ?_)⟩
  · exact ((hinv₁.valid q id e h₁.job).active h₁.active).1.le
  · obtain rfl : q = .notifications := hq
    exact ⟨_, World.job_modify_self h₁.job, rfl⟩

theorem fail_spec {e : Entry (Option Attempt) (Data q)} {err : Error} (h : Working i q id e w)
    (houtcome : Outcome w ⟨q, id, e.attemptsStarted⟩ false) :
    queueContract.wp req i
      (do
        await (.fail q id)
        onFailed q ⟨id, e.name, e.data, e.attemptsMade + 1⟩ err)
      (Ends i req) answers w := by
  refine Contract.wp_bind.mpr (Contract.wp_call fun w₁ hs hinv₁ => ?_)
  have h₁ := h.spares hs
  refine ⟨⟨_, h₁.holds, h₁.running, h.outcome hs houtcome⟩,
    fun ω r w₂ hp => ?_⟩
  cases hp
  have hvalid := hinv₁.valid q id e h₁.job
  have hjob : (w₁.modify q id (.fail q.maxAttempts)).job q id = some (e.fail q.maxAttempts) :=
    World.job_modify_self h₁.job
  -- without a handler the call ends here
  have hends : q ≠ .notifications → Ends i req answers (.ok ())
      (w₁.modify q id (.fail q.maxAttempts)) := by
    intro hq t ht
    obtain rfl := Option.some.inj (h₁.holds.symm.trans ht)
    exact ⟨⟨_, hjob, (hvalid.active h₁.active).1.le⟩, fun hq' => absurd hq' hq⟩
  cases q with
  | domainEvents => exact hends fun hq => nomatch hq
  | notifications =>
    refine onFailed_spec hvalid h₁.active h₁.holds hjob fun k x hx => ?_
    have hne : ¬ (QueueName.deadLetter = .notifications ∧ k = id) := fun h => nomatch h.1
    exact h₁.unburied hinv₁ k x ((World.job_modify_ne hne).symm.trans hx)
  | deadLetter => exact hends fun hq => nomatch hq

theorem work_spec (hnew : w.holds i = none) :
    queueContract.wp req i (work q id) (Ends i req) answers w := by
  refine Contract.wp_bind.mpr (Contract.wp_call fun w₁ hs hinv₁ => ?_)
  have hpre : Obliged i (.take q id) w₁ := hs.holds.trans hnew
  refine ⟨hpre, fun ω r w₂ hp => ?_⟩
  have heffect : Effect i w₁ (.take q id) r w₂ := effect_of_perform (ω := ω) hp
  have hinv₂ : w₂.Inv := inv_of_effect hinv₁ hpre heffect
  cases heffect with
  | missed _ _ => exact fun t ht => nomatch hpre.symm.trans ht
  | @took _ _ e hjob hwaiting =>
    obtain ⟨h₂, hidle⟩ := working_of_took (i := i) hjob hwaiting hinv₁
    refine Contract.wp_bind.mpr (Contract.wp_settled.mpr (Contract.wp_mono
      (process_spec (e := e.take) hinv₂ h₂ hidle) ?_))
    rintro answers r w₃ ⟨h₃, houtcome⟩
    cases r with
    | ok _ => exact complete_spec h₃ houtcome
    | error err => exact fail_spec (e := e.take) h₃ houtcome

end Work

/-- A call of which the queues know nothing. -/
def New (i : ℕ) (w : World) : Prop := w.holds i = none

theorem new_unmarked : Contract.Unmarked server New := by
  intro i j o ω w r w' hij hnew hp
  have heffect : Effect j w o r w' := effect_of_perform hp
  cases heffect with
  | took _ _ => exact (Function.update_of_ne hij _ _).trans hnew
  | _ => exact hnew

/-- A job that comes from outside of the workers. -/
theorem add_spec {q : QueueName} {name : String} {data : Data q} (hq : q ≠ .deadLetter)
    (hnew : w.holds i = none) :
    queueContract.wp req i (await (.add q name fun _ => data)) (Ends i req) answers w := by
  refine Contract.wp_call fun w₁ hs _ => ?_
  have hnew₁ := hs.holds.trans hnew
  refine ⟨?_, fun ω r w₂ hp t ht => ?_⟩
  · show Obliged i (.add _ _ _) w₁
    simp only [Obliged, hnew₁]
    exact hq
  · have heffect : Effect i w₁ (.add _ _ _) r w₂ := effect_of_perform hp
    cases heffect <;> cases hnew₁.symm.trans ht

theorem queue_meets : queueContract.MeetsNew New Ends := by
  intro i req w _ hnew
  cases req with
  | publish job => exact add_spec (fun h => nomatch h) hnew
  | notify name data => exact add_spec (fun h => nomatch h) hnew
  | work q id => exact work_spec hnew

end LiorParisWallet.Queues
