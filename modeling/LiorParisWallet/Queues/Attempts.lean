import LiorParisWallet.Async.Contract
import LiorParisWallet.Queues.Processors

/-!
# Attempts

Every attempt belongs to the one call that has begun it, and what is added and sent in it depends on
its job alone.  So the calls keep out of each other's way: while one call works on a job, no other
touches the job or does anything on behalf of this attempt.
-/

namespace LiorParisWallet.Queues

open Async Jobs

/-! ## Effects -/

/-- The ways in which the operation `o` of call `i` can settle and change the world. -/
inductive Effect (i : ℕ) (w : World) : (o : Op) → Except Error (Ans o) → World → Prop where
  | refused (q : QueueName) (name : String) (data : ℕ → Data q) (e : Error) :
      Effect i w (.add q name data) (.error e) { w with refusals := w.refusals ++ [⟨w.holds i, q⟩] }
  | added (q : QueueName) (name : String) (data : ℕ → Data q) (now : ℕ) :
      Effect i w (.add q name data) (.ok ()) (w.add q name (data now) (w.holds i))
  | took {q : QueueName} {id : ℕ} {e : Entry (Option Attempt) (Data q)} :
      (w.jobs q)[id]? = some e → e.status = .waiting →
        Effect i w (.take q id) (.ok (some ⟨id, e.name, e.data, e.attemptsMade⟩))
          (w.begin i ⟨q, id, e.attemptsStarted + 1⟩)
  | missed (q : QueueName) (id : ℕ) : Effect i w (.take q id) (.ok none) w
  | completed (q : QueueName) (id : ℕ) :
      Effect i w (.complete q id) (.ok ()) (w.modify q id .complete)
  | failed (q : QueueName) (id : ℕ) :
      Effect i w (.fail q id) (.ok ()) (w.modify q id (.fail q.maxAttempts))
  | sent (eventName : String) (payload : Record) : Effect i w (.send eventName payload) (.ok ())
      { w with sendings := w.sendings ++ [⟨w.holds i, eventName, payload, true⟩] }
  | unsent (eventName : String) (payload : Record) (e : Error) :
      Effect i w (.send eventName payload) (.error e)
        { w with sendings := w.sendings ++ [⟨w.holds i, eventName, payload, false⟩] }

variable {w w' w'' : World} {i j : ℕ} {o : Op} {t : Attempt}

theorem effect_of_perform {ω : Choice} {r : Except Error (Ans o)}
    (h : perform i o ω w = some (r, w')) : Effect i w o r w' := by
  cases o with
  | add q name data =>
    simp only [perform] at h
    split at h <;> cases h
    · exact .refused q name data _
    · exact .added q name data _
  | take q id =>
    simp only [perform] at h
    split at h
    · split at h <;> cases h
      · exact .took ‹_› ‹_›
      · exact .missed q id
    · cases h
      exact .missed q id
  | complete q id =>
    cases h
    exact .completed q id
  | fail q id =>
    cases h
    exact .failed q id
  | send eventName payload =>
    simp only [perform] at h
    split at h <;> cases h
    · exact .unsent eventName payload _
    · exact .sent eventName payload

namespace World

/-- The job `k` of the queue. -/
def job (w : World) (q : QueueName) (k : ℕ) : Option (Entry (Option Attempt) (Data q)) :=
  (w.jobs q)[k]?

section Job

variable {q : QueueName} {id : ℕ} {name : String} {data : Data q} {origin : Option Attempt}
variable {f : Entry (Option Attempt) (Data q) → Entry (Option Attempt) (Data q)}

theorem jobs_setJobs_self {jobs : Queue (Option Attempt) (Data q)} : (w.setJobs q jobs).jobs q = jobs :=
  Function.update_self ..

theorem jobs_setJobs_of_ne {q' : QueueName} {jobs : Queue (Option Attempt) (Data q)} (h : q' ≠ q) :
    (w.setJobs q jobs).jobs q' = w.jobs q' :=
  Function.update_of_ne h ..

theorem job_add_same {k : ℕ} {e : Entry (Option Attempt) (Data q)}
    (h : (w.add q name data origin).job q k = some e) :
    w.job q k = some e ∨ k = (w.jobs q).length ∧ e = .new name data origin := by
  rw [job, World.add, jobs_setJobs_self] at h
  exact Queue.getElem?_add h

/-- What holds of the jobs that were there and of the new one holds of all. -/
theorem job_add {P : (q : QueueName) → ℕ → Entry (Option Attempt) (Data q) → Prop}
    (hold : ∀ q k e, w.job q k = some e → P q k e)
    (hnew : P q (w.jobs q).length (.new name data origin)) :
    ∀ q' k e, (w.add q name data origin).job q' k = some e → P q' k e := by
  intro q' k e h
  by_cases hq : q' = q
  · subst hq
    rcases job_add_same h with h | ⟨rfl, rfl⟩
    · exact hold q' k e h
    · exact hnew
  · rw [job, World.add, jobs_setJobs_of_ne hq] at h
    exact hold q' k e h

theorem job_add_old {q' : QueueName} {k : ℕ} {e : Entry (Option Attempt) (Data q')}
    (h : w.job q' k = some e) : (w.add q name data origin).job q' k = some e := by
  by_cases hq : q' = q
  · subst hq
    rw [job, World.add, jobs_setJobs_self]
    exact Queue.getElem?_add_left h
  · rw [job, World.add, jobs_setJobs_of_ne hq]
    exact h

theorem job_add_new :
    (w.add q name data origin).job q (w.jobs q).length = some (.new name data origin) := by
  rw [job, World.add, jobs_setJobs_self]
  exact List.getElem?_concat_length

/-- What holds of the other jobs and of the changed one holds of all. -/
theorem job_modify {P : (q : QueueName) → ℕ → Entry (Option Attempt) (Data q) → Prop}
    (hold : ∀ q' k e, w.job q' k = some e → ¬ (q' = q ∧ k = id) → P q' k e)
    (hnew : ∀ e, w.job q id = some e → P q id (f e)) :
    ∀ q' k e, (w.modify q id f).job q' k = some e → P q' k e := by
  intro q' k e h
  by_cases hq : q' = q
  · subst hq
    rw [job, World.modify, jobs_setJobs_self] at h
    obtain ⟨e₀, he₀, rfl⟩ := Queue.getElem?_modify h
    split
    · subst id
      exact hnew e₀ he₀
    · rename_i hk
      exact hold q' k e₀ he₀ fun h => hk h.2.symm
  · rw [job, World.modify, jobs_setJobs_of_ne hq] at h
    exact hold q' k e h fun h => hq h.1

theorem job_modify_self {e : Entry (Option Attempt) (Data q)} (h : w.job q id = some e) :
    (w.modify q id f).job q id = some (f e) := by
  rw [job, World.modify, jobs_setJobs_self]
  exact Queue.getElem?_modify_self h

theorem job_modify_ne {q' : QueueName} {k : ℕ} (h : ¬ (q' = q ∧ k = id)) :
    (w.modify q id f).job q' k = w.job q' k := by
  by_cases hq : q' = q
  · subst hq
    rw [job, World.modify, jobs_setJobs_self]
    exact List.getElem?_modify_ne _ _ fun hk => h ⟨rfl, Eq.symm hk⟩
  · rw [job, World.modify, jobs_setJobs_of_ne hq]
    rfl

end Job

end World

/-! ## What an attempt does -/

/-- The attempt has begun. -/
def Began (w : World) (t : Attempt) : Prop :=
  ∃ e, w.job t.queue t.job = some e ∧ 0 < t.number ∧ t.number ≤ e.attemptsStarted

/-- The attempt has not ended. -/
def Running (w : World) (t : Attempt) : Prop :=
  ∃ e, w.job t.queue t.job = some e ∧ e.status = .active ∧ e.attemptsStarted = t.number

/-- Nothing has been done in the attempt. -/
structure Idle (w : World) (t : Attempt) : Prop where
  jobs : ∀ q k e, w.job q k = some e → e.origin ≠ some t
  sendings : ∀ x ∈ w.sendings, x.attempt ≠ some t
  refusals : ∀ x ∈ w.refusals, x.attempt ≠ some t

/-- Nothing more has been done in the attempt. -/
structure Still (t : Attempt) (w w' : World) : Prop where
  jobs : ∀ q k e', w'.job q k = some e' → e'.origin = some t → ∃ e, w.job q k = some e ∧ e.Later e'
  sendings : ∀ x ∈ w'.sendings, x.attempt = some t → x ∈ w.sendings
  refusals : ∀ x ∈ w'.refusals, x.attempt = some t → x ∈ w.refusals

/-- Jobs stay, and so does what was sent and refused. -/
structure Grows (w w' : World) : Prop where
  jobs : ∀ q k e, w.job q k = some e → ∃ e', w'.job q k = some e' ∧ e.Later e'
  sendings : w.sendings <+: w'.sendings
  refusals : w.refusals <+: w'.refusals

/-- The notifications that an event requires. -/
def notificationsFor (eventName : String) : List String :=
  if eventName = DomainEventName.transferCompleted.value then
    [DomainEventName.transferSent.value, DomainEventName.transferReceived.value]
  else if eventName = DomainEventName.depositSucceeded.value then
    [DomainEventName.depositSucceeded.value]
  else []

/-- The notification `y` was added in the attempt. -/
def Notifies (w : World) (t : Attempt) (eventName : String) (payload : Record) : Prop :=
  ∃ n y, w.job .notifications n = some y ∧ y.origin = some t ∧ y.data.eventName = eventName ∧
    y.data.payload = payload

/-- What an attempt that has succeeded, or failed, leaves behind. -/
def Outcome (w : World) (t : Attempt) : Bool → Prop
  | true => match t.queue with
      | .domainEvents => (∀ x ∈ w.refusals, x.attempt ≠ some t) ∧
          ∀ e, w.job .domainEvents t.job = some e → ∀ eventName ∈ notificationsFor e.data.eventName,
            Notifies w t eventName e.data.payload
      | .notifications => ∃ x ∈ w.sendings, x.attempt = some t ∧ x.ok = true
      | .deadLetter => ∀ e, w.job .deadLetter t.job = some e →
          e.data.dlqCount.getD 0 < DeadLetterProcessor.maxDlqReprocess →
            ∃ n y, w.job .notifications n = some y ∧ y.origin = some t
  | false => match t.queue with
      | .domainEvents => (∃ x ∈ w.refusals, x.attempt = some t) ∧
          ∀ e, w.job .domainEvents t.job = some e →
            -- the last notification is not added by any attempt that fails
            ∃ eventName, (notificationsFor e.data.eventName).getLast? = some eventName ∧
              ∀ n y, w.job .notifications n = some y → y.origin = some t →
                y.data.eventName ≠ eventName
      | .notifications => ∃ x ∈ w.sendings, x.attempt = some t ∧ x.ok = false
      | .deadLetter => ∃ x ∈ w.refusals, x.attempt = some t

/-- What a job that was added in an attempt looks like. -/
inductive Made (w : World) :
    (q : QueueName) → Attempt → Entry (Option Attempt) (Data q) → Prop where
  | notification {d a : ℕ} {y : Entry (Option Attempt) JobData} :
      Made w .notifications ⟨.domainEvents, d, a⟩ y
  | deadLetter {n : ℕ} {y : Entry (Option Attempt) JobData}
      {x : Entry (Option Attempt) DeadLetterData} (error : Error) (now : ℕ) :
      w.job .notifications n = some y → y.status = .failed → x.name = "dlq:" ++ y.name →
        x.data = NotificationsProcessor.deadLetter ⟨n, y.name, y.data, y.attemptsMade⟩ error now →
          Made w .deadLetter ⟨.notifications, n, y.attemptsStarted⟩ x
  | again {k a : ℕ} {x : Entry (Option Attempt) DeadLetterData}
      {y : Entry (Option Attempt) JobData} :
      w.job .deadLetter k = some x →
        x.data.dlqCount.getD 0 < DeadLetterProcessor.maxDlqReprocess →
          y.name = x.data.originalJobName →
            y.data = { x.data.data with dlqMeta := some (x.data.dlqCount.getD 0 + 1) } →
              Made w .notifications ⟨.deadLetter, k, a⟩ y

/-- The attempt `n` on the job has succeeded. -/
def succeeded {α : Type} (e : Entry (Option Attempt) α) (n : ℕ) : Bool :=
  decide (e.status = .completed ∧ n = e.attemptsMade)

structure World.Inv (w : World) : Prop where
  valid : ∀ q k e, w.job q k = some e → e.Valid q.maxAttempts
  began : ∀ i t, w.holds i = some t → Began w t
  alone : ∀ i j t, w.holds i = some t → w.holds j = some t → i = j
  held : ∀ t, Began w t → ∃ i, w.holds i = some t
  made : ∀ q k e, w.job q k = some e → ∀ t, e.origin = some t → Began w t ∧ Made w q t e
  deadLetter : ∀ q k e, w.job q k = some e → q = .deadLetter → e.origin ≠ none
  /-- Outside the `domain-events` queue an attempt adds one job at most. -/
  once : ∀ q k e, w.job q k = some e → ∀ t, e.origin = some t → t.queue ≠ .domainEvents →
    ∀ k' e', w.job q k' = some e' → e'.origin = some t → k' = k
  sendings : ∀ x ∈ w.sendings, ∃ n y a, w.job .notifications n = some y ∧
    x.attempt = some ⟨.notifications, n, a⟩ ∧ 0 < a ∧ a ≤ y.attemptsStarted ∧
      x.eventName = y.data.eventName ∧ x.payload = y.data.payload
  distinct : (w.sendings.map (·.attempt)).Nodup
  refusals : ∀ x ∈ w.refusals, ∀ t, x.attempt = some t → Began w t
  outcome : ∀ q k e, w.job q k = some e → ∀ a, 0 < a → a ≤ e.attemptsMade →
    Outcome w ⟨q, k, a⟩ (succeeded e a)

/-- What call `i` has made sure of when it performs the operation. -/
def Obliged (i : ℕ) : Op → World → Prop
  | .add q name data, w => match w.holds i with
      | none => q ≠ .deadLetter
      | some t => (Running w t ∨ q = .deadLetter) ∧
          (t.queue ≠ .domainEvents → ∀ k e, w.job q k = some e → e.origin ≠ some t) ∧
          ∀ now, Made w q t (.new name (data now) (some t))
  | .take _ _, w => w.holds i = none
  | .complete q id, w => ∃ a, w.holds i = some ⟨q, id, a⟩ ∧ Running w ⟨q, id, a⟩ ∧
      Outcome w ⟨q, id, a⟩ true
  | .fail q id, w => ∃ a, w.holds i = some ⟨q, id, a⟩ ∧ Running w ⟨q, id, a⟩ ∧
      Outcome w ⟨q, id, a⟩ false
  | .send eventName payload, w => ∃ n y a, w.holds i = some ⟨.notifications, n, a⟩ ∧
      Running w ⟨.notifications, n, a⟩ ∧ w.job .notifications n = some y ∧
      eventName = y.data.eventName ∧ payload = y.data.payload ∧
      ∀ x ∈ w.sendings, x.attempt ≠ some ⟨.notifications, n, a⟩

/-! ## The frame of a step -/

/-- Whatever call `j` does, it does in the attempt that it has begun. -/
structure Acts (j : ℕ) (w w' : World) : Prop where
  grows : Grows w w'
  holds : ∀ i, i ≠ j → w'.holds i = w.holds i
  still : ∀ t, w.holds j ≠ some t → Still t w w'
  running : ∀ t, w.holds j ≠ some t → Running w t → w'.job t.queue t.job = w.job t.queue t.job

theorem Grows.refl (w : World) : Grows w w :=
  ⟨fun _ _ e he => ⟨e, he, .refl e⟩, List.prefix_rfl, List.prefix_rfl⟩

theorem Grows.trans (h : Grows w w') (h' : Grows w' w'') : Grows w w'' where
  jobs q k e he := by
    obtain ⟨e', he', hlater⟩ := h.jobs q k e he
    obtain ⟨e'', he'', hlater'⟩ := h'.jobs q k e' he'
    exact ⟨e'', he'', hlater.trans hlater'⟩
  sendings := h.sendings.trans h'.sendings
  refusals := h.refusals.trans h'.refusals

theorem Still.refl (t : Attempt) (w : World) : Still t w w :=
  ⟨fun _ _ e he _ => ⟨e, he, .refl e⟩, fun _ hx _ => hx, fun _ hx _ => hx⟩

theorem Still.trans (h : Still t w w') (h' : Still t w' w'') : Still t w w'' where
  jobs q k e'' he'' horigin := by
    obtain ⟨e', he', hlater'⟩ := h'.jobs q k e'' he'' horigin
    obtain ⟨e, he, hlater⟩ := h.jobs q k e' he' (hlater'.origin ▸ horigin)
    exact ⟨e, he, hlater.trans hlater'⟩
  sendings x hx ht := h.sendings x (h'.sendings x hx ht) ht
  refusals x hx ht := h.refusals x (h'.refusals x hx ht) ht

theorem Grows.later (h : Grows w w') {q : QueueName} {k : ℕ}
    {e e' : Entry (Option Attempt) (Data q)} (he : w.job q k = some e) (he' : w'.job q k = some e') :
    e.Later e' := by
  obtain ⟨e'', he'', hlater⟩ := h.jobs q k e he
  rw [he''] at he'
  cases he'
  exact hlater

theorem Began.grows (h : Began w t) (hg : Grows w w') : Began w' t := by
  obtain ⟨e, he, hpos, hle⟩ := h
  obtain ⟨e', he', hlater⟩ := hg.jobs _ _ e he
  exact ⟨e', he', hpos, hle.trans hlater.started⟩

theorem Idle.still (h : Idle w t) (hs : Still t w w') : Idle w' t where
  jobs q k e' he' horigin := by
    obtain ⟨e, he, hlater⟩ := hs.jobs q k e' he' horigin
    exact h.jobs q k e he (hlater.origin ▸ horigin)
  sendings x hx ht := h.sendings x (hs.sendings x hx ht) ht
  refusals x hx ht := h.refusals x (hs.refusals x hx ht) ht

theorem Made.grows {q : QueueName} {e e' : Entry (Option Attempt) (Data q)} (h : Made w q t e)
    (hg : Grows w w') (hlater : e.Later e') : Made w' q t e' := by
  cases h with
  | notification => exact .notification
  | deadLetter error now hjob hfailed hname hdata =>
    obtain ⟨y', hy', hlater'⟩ := hg.jobs _ _ _ hjob
    -- a job that has failed does not change any more
    obtain rfl := hlater'.ended (.inr hfailed)
    exact .deadLetter error now hy' hfailed (hlater.name.trans hname) (hlater.data.trans hdata)
  | again hjob hcount hname hdata =>
    obtain ⟨x', hx', hlater'⟩ := hg.jobs _ _ _ hjob
    refine .again hx' ?_ ?_ ?_
    · rwa [hlater'.data]
    · rw [hlater'.data]
      exact hlater.name.trans hname
    · rw [hlater'.data]
      exact hlater.data.trans hdata

theorem Notifies.grows {eventName : String} {payload : Record} (h : Notifies w t eventName payload)
    (hg : Grows w w') : Notifies w' t eventName payload := by
  obtain ⟨n, y, hy, horigin, hname, hpayload⟩ := h
  obtain ⟨y', hy', hlater⟩ := hg.jobs _ _ y hy
  refine ⟨n, y', hy', hlater.origin.trans horigin, ?_, ?_⟩
  · rwa [hlater.data]
  · rwa [hlater.data]

/-- What an attempt has left behind stays as long as nothing more is done in it. -/
theorem Outcome.later {ok : Bool} (h : Outcome w t ok) (hg : Grows w w') (hs : Still t w w')
    (hjob : w.job t.queue t.job ≠ none) : Outcome w' t ok := by
  obtain ⟨q, k, a⟩ := t
  obtain ⟨e, he⟩ := Option.ne_none_iff_exists'.mp hjob
  cases q with
  | domainEvents =>
    cases ok with
    | true =>
      refine ⟨fun x hx ht => h.1 x (hs.refusals x hx ht) ht, fun e' he' eventName hname => ?_⟩
      have hlater := hg.later he he'
      rw [hlater.data] at hname ⊢
      exact (h.2 e he eventName hname).grows hg
    | false =>
      obtain ⟨⟨x, hx, ht⟩, hlast⟩ := h
      refine ⟨⟨x, hg.refusals.subset hx, ht⟩, fun e' he' => ?_⟩
      obtain ⟨eventName, hname, hnever⟩ := hlast e he
      refine ⟨eventName, by rwa [(hg.later he he').data], fun n y hy horigin => ?_⟩
      obtain ⟨y₀, hy₀, hlater⟩ := hs.jobs _ n y hy horigin
      rw [hlater.data]
      exact hnever n y₀ hy₀ (hlater.origin ▸ horigin)
  | notifications =>
    cases ok <;> exact let ⟨x, hx, ht⟩ := h; ⟨x, hg.sendings.subset hx, ht⟩
  | deadLetter =>
    cases ok with
    | true =>
      intro e' he' hcount
      rw [(hg.later he he').data] at hcount
      obtain ⟨n, y, hy, horigin⟩ := h e he hcount
      obtain ⟨y', hy', hlater⟩ := hg.jobs _ n y hy
      exact ⟨n, y', hy', hlater.origin.trans horigin⟩
    | false => exact let ⟨x, hx, ht⟩ := h; ⟨x, hg.refusals.subset hx, ht⟩

section Frame

variable {q : QueueName} {id : ℕ} {e : Entry (Option Attempt) (Data q)}
variable {f : Entry (Option Attempt) (Data q) → Entry (Option Attempt) (Data q)}

theorem grows_modify (hjob : w.job q id = some e) (hlater : e.Later (f e)) :
    Grows w (w.modify q id f) where
  jobs q' k e' he' := by
    by_cases hk : q' = q ∧ k = id
    · obtain ⟨rfl, rfl⟩ := hk
      obtain rfl := Option.some.inj (hjob.symm.trans he')
      exact ⟨f e, World.job_modify_self he', hlater⟩
    · exact ⟨e', (World.job_modify_ne hk).trans he', .refl e'⟩
  sendings := List.prefix_rfl
  refusals := List.prefix_rfl

theorem back_modify (hjob : w.job q id = some e) (hlater : e.Later (f e)) :
    ∀ q' k e', (w.modify q id f).job q' k = some e' → ∃ e, w.job q' k = some e ∧ e.Later e' :=
  World.job_modify (fun _ _ e' he' _ => ⟨e', he', .refl e'⟩) fun e' he' => by
    obtain rfl := Option.some.inj (hjob.symm.trans he')
    exact ⟨e, he', hlater⟩

theorem still_modify (hjob : w.job q id = some e) (hlater : e.Later (f e)) (t : Attempt) :
    Still t w (w.modify q id f) where
  jobs q' k e' he' _ := back_modify hjob hlater q' k e' he'
  sendings _ hx _ := hx
  refusals _ hx _ := hx

/-- A worker ends its attempt. -/
theorem acts_end {a : ℕ} (hholds : w.holds j = some ⟨q, id, a⟩) (hrunning : Running w ⟨q, id, a⟩)
    (hlater : ∀ e : Entry (Option Attempt) (Data q), e.status = .active → e.Later (f e)) :
    Acts j w (w.modify q id f) := by
  obtain ⟨e, he, hactive, hnumber⟩ := hrunning
  refine ⟨grows_modify he (hlater e hactive), fun _ _ => rfl,
    fun t _ => still_modify he (hlater e hactive) t, fun t hne hrunning => ?_⟩
  refine World.job_modify_ne fun hk => hne ?_
  -- the job has one running attempt at a time
  obtain ⟨q', k', a'⟩ := t
  obtain ⟨rfl, rfl⟩ := hk
  obtain ⟨e', he', -, hnumber'⟩ := hrunning
  obtain rfl := Option.some.inj (he.symm.trans he')
  have hsame : a = a' := hnumber.symm.trans hnumber'
  rw [hholds, hsame]

end Frame

theorem acts_of_effect {r : Except Error (Ans o)} (hpre : Obliged j o w) (he : Effect j w o r w') :
    Acts j w w' := by
  cases he with
  | refused q name data e =>
    refine ⟨{ Grows.refl w with refusals := List.prefix_append _ _ }, fun _ _ => rfl, fun t hne => ?_,
      fun _ _ _ => rfl⟩
    refine { Still.refl t w with refusals := fun x hx ht => ?_ }
    rcases List.mem_append.mp hx with hx | hx
    · exact hx
    · rw [List.mem_singleton.mp hx] at ht
      exact absurd ht hne
  | added q name data now =>
    refine ⟨?_, fun _ _ => rfl, fun t hne => ?_, fun t _ hrunning => ?_⟩
    · exact { Grows.refl w with jobs := fun q k e he => ⟨e, World.job_add_old he, .refl e⟩ }
    · exact { Still.refl t w with
        jobs := World.job_add (fun q k e he _ => ⟨e, he, .refl e⟩) fun horigin => absurd horigin hne }
    · obtain ⟨e, he, -⟩ := hrunning
      rw [he]
      exact World.job_add_old he
  | @took q id e hjob hwaiting =>
    have hlater := Entry.later_take hwaiting
    refine ⟨{ grows_modify hjob hlater with }, fun i hi => Function.update_of_ne hi _ _,
      fun t _ => { still_modify hjob hlater t with }, fun t _ hrunning => ?_⟩
    refine World.job_modify_ne (w := w) fun hk => ?_
    obtain ⟨q', k', a'⟩ := t
    obtain ⟨rfl, rfl⟩ := hk
    obtain ⟨e', he', hactive, -⟩ := hrunning
    obtain rfl := Option.some.inj (Eq.trans hjob.symm he')
    rw [hwaiting] at hactive
    cases hactive
  | missed q id => exact ⟨.refl w, fun _ _ => rfl, fun t _ => .refl t w, fun _ _ _ => rfl⟩
  | completed q id =>
    obtain ⟨a, hholds, hrunning, -⟩ := hpre
    exact acts_end hholds hrunning fun _ => Entry.later_complete
  | failed q id =>
    obtain ⟨a, hholds, hrunning, -⟩ := hpre
    exact acts_end hholds hrunning fun _ => Entry.later_fail
  | sent eventName payload | unsent eventName payload e =>
    refine ⟨{ Grows.refl w with sendings := List.prefix_append _ _ }, fun _ _ => rfl, fun t hne => ?_,
      fun _ _ _ => rfl⟩
    refine { Still.refl t w with sendings := fun x hx ht => ?_ }
    rcases List.mem_append.mp hx with hx | hx
    · exact hx
    · rw [List.mem_singleton.mp hx] at ht
      exact absurd ht hne

/-! ## The invariant -/

section Inv

variable {q : QueueName} {id : ℕ} {e : Entry (Option Attempt) (Data q)}

theorem succeeded_eq_false {α : Type} {e : Entry (Option Attempt) α} (h : e.status ≠ .completed)
    (n : ℕ) : succeeded e n = false :=
  decide_eq_false fun hc => h hc.1

/-- A running attempt has not ended. -/
theorem World.Inv.running_lt (hinv : w.Inv) {a : ℕ} (hrunning : Running w ⟨q, id, a⟩)
    (hjob : w.job q id = some e) : a = e.attemptsMade + 1 := by
  obtain ⟨e', he', hactive, hnumber⟩ := hrunning
  obtain rfl := Option.some.inj (hjob.symm.trans he')
  exact hnumber.symm.trans ((hinv.valid q id e hjob).active hactive).1

/-- A completed job, by its last attempt. -/
theorem World.Inv.outcome_completed (hinv : w.Inv) (hjob : w.job q id = some e)
    (hcompleted : e.status = .completed) :
    0 < e.attemptsMade ∧ e.attemptsMade ≤ q.maxAttempts ∧ Outcome w ⟨q, id, e.attemptsMade⟩ true := by
  obtain ⟨-, hpos, hle⟩ := (hinv.valid q id e hjob).completed hcompleted
  have houtcome := hinv.outcome q id e hjob e.attemptsMade hpos (Nat.le_refl _)
  rw [show succeeded e e.attemptsMade = true from decide_eq_true ⟨hcompleted, rfl⟩] at houtcome
  exact ⟨hpos, hle, houtcome⟩

/-- A failed job, by each of its attempts. -/
theorem World.Inv.outcome_failed (hinv : w.Inv) (hjob : w.job q id = some e)
    (hfailed : e.status = .failed) {a : ℕ} (hpos : 0 < a) (hle : a ≤ q.maxAttempts) :
    Outcome w ⟨q, id, a⟩ false := by
  have hmade := ((hinv.valid q id e hjob).failed hfailed).2
  have houtcome := hinv.outcome q id e hjob a hpos (hle.trans hmade.symm.le)
  rwa [succeeded_eq_false (by rw [hfailed]; exact fun h => nomatch h)] at houtcome

/-- What the attempts that have ended left behind is still there after a step. -/
theorem World.Inv.outcome_kept (hinv : w.Inv) (hacts : Acts i w w')
    (howner : ∀ t, w.holds i = some t → Running w t ∨ t.queue = .notifications)
    (hjob : w.job q id = some e) {a : ℕ} (hpos : 0 < a) (hle : a ≤ e.attemptsMade) :
    Outcome w' ⟨q, id, a⟩ (succeeded e a) := by
  have houtcome := hinv.outcome q id e hjob a hpos hle
  by_cases hown : w.holds i = some ⟨q, id, a⟩
  · rcases howner _ hown with hrunning | hqueue
    · have := hinv.running_lt hrunning hjob
      omega
    · -- a handler still runs, but sends nothing
      obtain rfl : q = .notifications := hqueue
      revert houtcome
      generalize succeeded e a = ok
      intro houtcome
      cases ok <;> exact let ⟨x, hx, ht⟩ := houtcome; ⟨x, hacts.grows.sendings.subset hx, ht⟩
  · refine houtcome.later hacts.grows (hacts.still _ hown) ?_
    rw [show w.job q id = some e from hjob]
    exact Option.some_ne_none e

theorem made_kept (hinv : w.Inv) (hg : Grows w w')
    (hback : ∀ q k e', w'.job q k = some e' → ∃ e, w.job q k = some e ∧ e.Later e') :
    ∀ q k e, w'.job q k = some e → ∀ t, e.origin = some t → Began w' t ∧ Made w' q t e := by
  intro q k e' he' t horigin
  obtain ⟨e, he, hlater⟩ := hback q k e' he'
  obtain ⟨hbegan, hmade⟩ := hinv.made q k e he t (hlater.origin ▸ horigin)
  exact ⟨hbegan.grows hg, hmade.grows hg hlater⟩

theorem deadLetter_kept (hinv : w.Inv)
    (hback : ∀ q k e', w'.job q k = some e' → ∃ e, w.job q k = some e ∧ e.Later e') :
    ∀ q k e, w'.job q k = some e → q = .deadLetter → e.origin ≠ none := by
  intro q k e' he' hq
  obtain ⟨e, he, hlater⟩ := hback q k e' he'
  rw [hlater.origin]
  exact hinv.deadLetter q k e he hq

theorem once_kept (hinv : w.Inv)
    (hback : ∀ q k e', w'.job q k = some e' → ∃ e, w.job q k = some e ∧ e.Later e') :
    ∀ q k e, w'.job q k = some e → ∀ t, e.origin = some t → t.queue ≠ .domainEvents →
      ∀ k' e', w'.job q k' = some e' → e'.origin = some t → k' = k := by
  intro q k e he t horigin hqueue k' e' he' horigin'
  obtain ⟨e₀, he₀, hlater⟩ := hback q k e he
  obtain ⟨e₀', he₀', hlater'⟩ := hback q k' e' he'
  exact hinv.once q k e₀ he₀ t (hlater.origin ▸ horigin) hqueue k' e₀' he₀' (hlater'.origin ▸ horigin')

theorem sendings_kept (hinv : w.Inv) (hg : Grows w w') :
    ∀ x ∈ w.sendings, ∃ n y a, w'.job .notifications n = some y ∧
      x.attempt = some ⟨.notifications, n, a⟩ ∧ 0 < a ∧ a ≤ y.attemptsStarted ∧
        x.eventName = y.data.eventName ∧ x.payload = y.data.payload := by
  intro x hx
  obtain ⟨n, y, a, hy, ht, hpos, hle, hname, hpayload⟩ := hinv.sendings x hx
  obtain ⟨y', hy', hlater⟩ := hg.jobs _ n y hy
  refine ⟨n, y', a, hy', ht, hpos, hle.trans hlater.started, ?_, ?_⟩
  · rwa [hlater.data]
  · rwa [hlater.data]

theorem refusals_kept (hinv : w.Inv) (hg : Grows w w') :
    ∀ x ∈ w.refusals, ∀ t, x.attempt = some t → Began w' t :=
  fun x hx t ht => (hinv.refusals x hx t ht).grows hg

/-- Only `take` begins attempts. -/
theorem began_back (hback : ∀ q k e', w'.job q k = some e' →
    e'.attemptsStarted = 0 ∨ ∃ e, w.job q k = some e ∧ e'.attemptsStarted = e.attemptsStarted)
    (h : Began w' t) : Began w t := by
  obtain ⟨e', he', hpos, hle⟩ := h
  rcases hback _ _ e' he' with hzero | ⟨e, he, hsame⟩
  · omega
  · exact ⟨e, he, hpos, hsame ▸ hle⟩

theorem inv_refused {name : String} {data : ℕ → Data q} (hinv : w.Inv)
    (hpre : Obliged i (.add q name data) w)
    (hacts : Acts i w { w with refusals := w.refusals ++ [⟨w.holds i, q⟩] }) :
    World.Inv { w with refusals := w.refusals ++ [⟨w.holds i, q⟩] } := by
  have howner : ∀ t, w.holds i = some t → Running w t ∨ t.queue = .notifications := by
    intro t ht
    simp only [Obliged, ht] at hpre
    refine hpre.1.imp id fun hq => ?_
    subst hq
    cases hpre.2.2 0
    rfl
  refine { hinv with
    refusals := fun x hx t ht => ?_
    outcome := fun q k e he a hpos hle => hinv.outcome_kept hacts howner he hpos hle
    made := made_kept hinv hacts.grows fun _ _ e he => ⟨e, he, .refl e⟩ }
  rcases List.mem_append.mp hx with hx | hx
  · exact hinv.refusals x hx t ht
  · rw [List.mem_singleton.mp hx] at ht
    exact hinv.began i t ht

theorem inv_added {name : String} {data : ℕ → Data q} {now : ℕ} (hinv : w.Inv)
    (hpre : Obliged i (.add q name data) w) (hacts : Acts i w (w.add q name (data now) (w.holds i))) :
    (w.add q name (data now) (w.holds i)).Inv := by
  have howner : ∀ t, w.holds i = some t → (Running w t ∨ t.queue = .notifications) ∧
      (q = .deadLetter → t.queue ≠ .domainEvents) ∧
      (t.queue ≠ .domainEvents → ∀ k e, w.job q k = some e → e.origin ≠ some t) ∧
      Made w q t (.new name (data now) (some t)) := by
    intro t ht
    simp only [Obliged, ht] at hpre
    refine ⟨hpre.1.imp id fun hq => ?_, fun hq => ?_, hpre.2.1, hpre.2.2 now⟩ <;>
      subst hq <;> cases hpre.2.2 0
    · rfl
    · exact fun h => nomatch h
  have hback : ∀ t, Began (w.add q name (data now) (w.holds i)) t → Began w t := fun t =>
    began_back (World.job_add (fun _ _ e he => .inr ⟨e, he, rfl⟩) (.inl rfl))
  exact {
    valid := World.job_add hinv.valid (Entry.valid_new (by cases q <;> decide) _ _ _)
    began := fun j t ht => (hinv.began j t ht).grows hacts.grows
    alone := hinv.alone
    held := fun t ht => hinv.held t (hback t ht)
    made := World.job_add
      (fun q k e he t ht =>
        ⟨(hinv.made q k e he t ht).1.grows hacts.grows,
          (hinv.made q k e he t ht).2.grows hacts.grows (.refl e)⟩)
      fun t ht => ⟨(hinv.began i t ht).grows hacts.grows, by
        have hmade := (howner t ht).2.2.2.grows hacts.grows (.refl _)
        rwa [← ht] at hmade⟩
    deadLetter := World.job_add hinv.deadLetter fun hq hnone => by
      simp only [Obliged, show w.holds i = none from hnone] at hpre
      exact hpre hq
    once := by
      refine World.job_add (fun q' k e he t ht hqueue k' e' he' => ?_)
        fun t ht hqueue k' e' he' => ?_
      · refine World.job_add (P := fun q'' k' e' => q'' = q' → e'.origin = some t → k' = k) ?_ ?_
          q' k' e' he' rfl
        · rintro q'' n y hy rfl ht'
          exact hinv.once _ k e he t ht hqueue n y hy ht'
        · rintro rfl ht'
          exact absurd ht ((howner t ht').2.2.1 hqueue k e he)
      · refine World.job_add (P := fun q' k' e' => q' = q → e'.origin = some t → k' = _) ?_ ?_
          q k' e' he' rfl
        · rintro q' n y hy rfl ht'
          exact absurd ht' ((howner t ht).2.2.1 hqueue n y hy)
        · exact fun _ _ => rfl
    sendings := sendings_kept (w := w) hinv hacts.grows
    distinct := hinv.distinct
    refusals := refusals_kept (w := w) hinv hacts.grows
    outcome := World.job_add
      (fun q k e he a hpos hle =>
        hinv.outcome_kept hacts (fun t ht => (howner t ht).1) he hpos hle)
      fun a hpos hle => absurd hpos (Nat.not_lt.mpr hle) }

theorem inv_took (hinv : w.Inv) (hjob : w.job q id = some e) (hwaiting : e.status = .waiting)
    (hnew : w.holds i = none) (hacts : Acts i w (w.begin i ⟨q, id, e.attemptsStarted + 1⟩)) :
    (w.begin i ⟨q, id, e.attemptsStarted + 1⟩).Inv := by
  have hback := back_modify hjob (Entry.later_take hwaiting)
  have hself : (w.begin i ⟨q, id, e.attemptsStarted + 1⟩).holds i =
      some ⟨q, id, e.attemptsStarted + 1⟩ := Function.update_self ..
  have hbegan : ¬ Began w ⟨q, id, e.attemptsStarted + 1⟩ := by
    rintro ⟨e', he', -, hle⟩
    obtain rfl := Option.some.inj (hjob.symm.trans he')
    exact Nat.not_succ_le_self _ hle
  have hholds : ∀ j t, (w.begin i ⟨q, id, e.attemptsStarted + 1⟩).holds j = some t →
      w.holds j = some t ∨ j = i ∧ t = ⟨q, id, e.attemptsStarted + 1⟩ := by
    intro j t ht
    by_cases hj : j = i
    · subst hj
      exact .inr ⟨rfl, (Option.some.inj (hself.symm.trans ht)).symm⟩
    · exact .inl (hacts.holds j hj ▸ ht)
  refine {
    valid := World.job_modify (fun q' k e' he' _ => hinv.valid q' k e' he') fun e' he' => ?_
    began := fun j t ht => ?_
    alone := fun j k t hj hk => ?_
    held := fun t ht => ?_
    made := made_kept hinv hacts.grows hback
    deadLetter := deadLetter_kept hinv hback
    once := once_kept hinv hback
    sendings := sendings_kept (w := w) hinv hacts.grows
    distinct := hinv.distinct
    refusals := refusals_kept (w := w) hinv hacts.grows
    outcome := World.job_modify (fun q' k e' he' _ a hpos hle => ?_) fun e' he' a hpos hle => ?_ }
  · obtain rfl := Option.some.inj (hjob.symm.trans he')
    exact (hinv.valid q id e he').take hwaiting
  · rcases hholds j t ht with ht | ⟨-, rfl⟩
    · exact (hinv.began j t ht).grows hacts.grows
    · exact ⟨e.take, World.job_modify_self hjob, Nat.succ_pos _, Nat.le_refl _⟩
  · rcases hholds j t hj with hold | ⟨rfl, rfl⟩
    · rcases hholds k t hk with hold' | ⟨rfl, rfl⟩
      · exact hinv.alone j k t hold hold'
      · exact absurd (hinv.began j _ hold) hbegan
    · rcases hholds k _ hk with hold' | ⟨rfl, -⟩
      · exact absurd (hinv.began k _ hold') hbegan
      · rfl
  · by_cases heq : t = ⟨q, id, e.attemptsStarted + 1⟩
    · exact ⟨i, heq ▸ hself⟩
    · have hold : Began w t := by
        obtain ⟨q', k, a⟩ := t
        obtain ⟨e', he', hpos, hle⟩ := ht
        by_cases hk : q' = q ∧ k = id
        · obtain ⟨rfl, rfl⟩ := hk
          obtain rfl := Option.some.inj ((World.job_modify_self hjob).symm.trans he')
          refine ⟨e, hjob, hpos, Nat.le_of_lt_succ (Nat.lt_of_le_of_ne hle fun ha => heq ?_)⟩
          rw [show a = e.attemptsStarted + 1 from ha]
        · exact ⟨e', (World.job_modify_ne hk).symm.trans he', hpos, hle⟩
      obtain ⟨j, hj⟩ := hinv.held t hold
      have hne : j ≠ i := by
        rintro rfl
        rw [hnew] at hj
        cases hj
      exact ⟨j, (hacts.holds j hne).trans hj⟩
  · exact hinv.outcome_kept hacts (fun t ht => by rw [hnew] at ht; cases ht) he' hpos hle
  · obtain rfl := Option.some.inj (hjob.symm.trans he')
    have houtcome := hinv.outcome_kept hacts (fun t ht => by rw [hnew] at ht; cases ht) hjob hpos hle
    rw [succeeded_eq_false (by rw [hwaiting]; decide)] at houtcome
    rwa [succeeded_eq_false (e := e.take) fun h => nomatch h]

/-- An attempt ends, and has left behind what it should. -/
theorem inv_ended {f : Entry (Option Attempt) (Data q) → Entry (Option Attempt) (Data q)} {a : ℕ}
    {ok : Bool} (hinv : w.Inv) (hholds : w.holds i = some ⟨q, id, a⟩)
    (hrunning : Running w ⟨q, id, a⟩) (houtcome : Outcome w ⟨q, id, a⟩ ok)
    (hacts : Acts i w (w.modify q id f))
    (hf : ∀ e : Entry (Option Attempt) (Data q), e.Valid q.maxAttempts → e.status = .active →
      e.Later (f e) ∧ (f e).Valid q.maxAttempts ∧ (f e).attemptsStarted = e.attemptsStarted ∧
      (f e).attemptsMade = e.attemptsMade + 1 ∧
      ∀ n, succeeded (f e) n = if n = e.attemptsMade + 1 then ok else false) :
    (w.modify q id f).Inv := by
  have hrunning' := hrunning
  obtain ⟨e, hjob, hactive, -⟩ := hrunning'
  obtain ⟨hlater, hvalid, hstarted, hmade, hsucceeded⟩ := hf e (hinv.valid q id e hjob) hactive
  have hback := back_modify hjob hlater
  have howner : ∀ t, w.holds i = some t → Running w t ∨ t.queue = .notifications := by
    intro t ht
    obtain rfl := Option.some.inj (hholds.symm.trans ht)
    exact .inl hrunning
  have hbegan : ∀ t, Began (w.modify q id f) t → Began w t := fun t =>
    began_back (World.job_modify (fun _ _ e' he' _ => .inr ⟨e', he', rfl⟩) fun e' he' => by
      obtain rfl := Option.some.inj (hjob.symm.trans he')
      exact .inr ⟨e, he', hstarted⟩)
  refine {
    valid := World.job_modify (fun q' k e' he' _ => hinv.valid q' k e' he') fun e' he' => ?_
    began := fun j t ht => (hinv.began j t ht).grows hacts.grows
    alone := hinv.alone
    held := fun t ht => hinv.held t (hbegan t ht)
    made := made_kept hinv hacts.grows hback
    deadLetter := deadLetter_kept hinv hback
    once := once_kept hinv hback
    sendings := sendings_kept (w := w) hinv hacts.grows
    distinct := hinv.distinct
    refusals := refusals_kept (w := w) hinv hacts.grows
    outcome := World.job_modify
      (fun q' k e' he' _ n hpos hle => hinv.outcome_kept hacts howner he' hpos hle)
      fun e' he' n hpos hle => ?_ }
  · obtain rfl := Option.some.inj (hjob.symm.trans he')
    exact hvalid
  · obtain rfl := Option.some.inj (hjob.symm.trans he')
    rw [hsucceeded]
    split
    · -- the attempt that ends now
      rename_i hn
      obtain rfl : n = a := hn.trans (hinv.running_lt hrunning hjob).symm
      refine houtcome.later hacts.grows (still_modify hjob hlater _) ?_
      rw [show w.job q id = some e from hjob]
      exact Option.some_ne_none e
    · rename_i hn
      have hkept := hinv.outcome_kept hacts howner hjob hpos (by omega)
      rwa [succeeded_eq_false (by rw [hactive]; decide)] at hkept

theorem inv_send {n a : ℕ} {y : Entry (Option Attempt) JobData} {ok : Bool} (hinv : w.Inv)
    (hholds : w.holds i = some ⟨.notifications, n, a⟩) (hrunning : Running w ⟨.notifications, n, a⟩)
    (hy : w.job .notifications n = some y)
    (hfirst : ∀ x ∈ w.sendings, x.attempt ≠ some ⟨.notifications, n, a⟩)
    (hacts : Acts i w
      { w with sendings := w.sendings ++ [⟨w.holds i, y.data.eventName, y.data.payload, ok⟩] }) :
    World.Inv
      { w with sendings := w.sendings ++ [⟨w.holds i, y.data.eventName, y.data.payload, ok⟩] } := by
  have howner : ∀ t, w.holds i = some t → Running w t ∨ t.queue = .notifications := by
    intro t ht
    obtain rfl := Option.some.inj (hholds.symm.trans ht)
    exact .inl hrunning
  refine { hinv with
    made := made_kept hinv hacts.grows fun _ _ e he => ⟨e, he, .refl e⟩
    sendings := fun x hx => ?_
    distinct := ?_
    outcome := fun q k e he n hpos hle => hinv.outcome_kept hacts howner he hpos hle }
  · rcases List.mem_append.mp hx with hx | hx
    · exact hinv.sendings x hx
    · rw [List.mem_singleton.mp hx]
      obtain ⟨y', hy', hpos, hle⟩ := hinv.began i _ hholds
      obtain rfl := Option.some.inj (hy.symm.trans hy')
      exact ⟨n, y, a, hy, hholds, hpos, hle, rfl, rfl⟩
  · rw [List.map_append, List.map_singleton, hholds]
    refine List.nodup_append.mpr ⟨hinv.distinct, List.nodup_singleton _, fun t ht t' ht' heq => ?_⟩
    obtain ⟨x, hx, rfl⟩ := List.mem_map.mp ht
    exact hfirst x hx (heq.trans (List.mem_singleton.mp ht'))

theorem inv_of_effect {r : Except Error (Ans o)} (hinv : w.Inv) (hpre : Obliged i o w)
    (he : Effect i w o r w') : w'.Inv := by
  have hacts := acts_of_effect hpre he
  cases he with
  | refused q name data e => exact inv_refused hinv hpre hacts
  | added q name data now => exact inv_added hinv hpre hacts
  | took hjob hwaiting => exact inv_took hinv hjob hwaiting hpre hacts
  | missed q id => exact hinv
  | completed q id =>
    obtain ⟨a, hholds, hrunning, houtcome⟩ := hpre
    refine inv_ended hinv hholds hrunning houtcome hacts fun e hvalid hactive =>
      ⟨Entry.later_complete hactive, hvalid.complete hactive, rfl, rfl, fun n => ?_⟩
    show decide (_ ∧ n = e.attemptsMade + 1) = _
    by_cases hn : n = e.attemptsMade + 1 <;> simp [hn, Entry.complete]
  | failed q id =>
    obtain ⟨a, hholds, hrunning, houtcome⟩ := hpre
    refine inv_ended hinv hholds hrunning houtcome hacts fun e hvalid hactive =>
      ⟨Entry.later_fail hactive, hvalid.fail hactive, rfl, rfl, fun n => ?_⟩
    rw [succeeded_eq_false, ite_self]
    show (if _ then Status.waiting else Status.failed) ≠ _
    split <;> decide
  | sent eventName payload | unsent eventName payload =>
    obtain ⟨n, y, a, hholds, hrunning, hy, rfl, rfl, hfirst⟩ := hpre
    exact inv_send hinv hholds hrunning hy hfirst hacts

end Inv

/-! ## The contract -/

/-- What the other calls leave to call `i`. -/
structure Spares (i : ℕ) (w w' : World) : Prop where
  grows : Grows w w'
  holds : w'.holds i = w.holds i
  still : ∀ t, w.holds i = some t → Still t w w'
  running : ∀ t, w.holds i = some t → Running w t → w'.job t.queue t.job = w.job t.queue t.job

theorem spares_of_acts (hij : i ≠ j) (hinv : w.Inv) (h : Acts j w w') : Spares i w w' := by
  have hne : ∀ t, w.holds i = some t → w.holds j ≠ some t :=
    fun t hi hj => hij (hinv.alone i j t hi hj)
  exact ⟨h.grows, h.holds i hij, fun t ht => h.still t (hne t ht), fun t ht => h.running t (hne t ht)⟩

def queueContract : Contract server where
  Inv := World.Inv
  Pre _ i o w := Obliged i o w
  Rely := Spares
  rely_refl i w := ⟨.refl w, rfl, fun t _ => .refl t w, fun _ _ _ => rfl⟩
  rely_trans := by
    rintro i w₁ w₂ w₃ h h'
    refine ⟨h.grows.trans h'.grows, h'.holds.trans h.holds, fun t ht => ?_, fun t ht hrunning => ?_⟩
    · exact (h.still t ht).trans (h'.still t (h.holds.trans ht))
    · have hsame := h.running t ht hrunning
      have hrunning' : Running w₂ t := let ⟨e, he, hrest⟩ := hrunning; ⟨e, hsame.trans he, hrest⟩
      exact (h'.running t (h.holds.trans ht) hrunning').trans hsame
  inv_perform hinv hpre hp := inv_of_effect hinv hpre (effect_of_perform hp)
  rely_perform hij hinv hpre hp := spares_of_acts hij hinv (acts_of_effect hpre (effect_of_perform hp))

end LiorParisWallet.Queues
