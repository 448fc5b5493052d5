import LiorParisWallet.Async.History
import LiorParisWallet.Outbox.Delivery

/-!
# Publisher safety

At most one tick is past the guard, and it takes the flag down however it ends.  A job is added again for
an event only after `markProcessed` has failed for it.
-/

namespace LiorParisWallet.Outbox

open Async Relational

abbrev Journal : Type := Recorded Op Ans Err World

abbrev JournalState : Type := History Op Ans Err Request Unit World

/-- How many jobs were ever added for the event. -/
def World.jobsFor (w : World) (id : String) : ℕ := w.domainEvents.countP (·.outboxId == id)

/-- `markProcessed` has failed for the event. -/
def marksInVain (id : String) : Answer Ans Err → Bool
  | ⟨.markProcessed id', .error _⟩ => id' == id
  | _ => false

def failedMarks (log : List (Event Op Ans Err World)) (id : String) : ℕ :=
  log.countP fun e => marksInVain id ⟨e.op, e.answer⟩

/-- For every job that was added for the event, `markProcessed` has failed. -/
def Clear (w : Journal) (id : String) : Prop := w.world.jobsFor id ≤ failedMarks w.log id

/-- The events that were not marked are clear, all but one perhaps. -/
def ClearBut (w : Journal) (id? : Option String) : Prop :=
  ∀ e ∈ w.world.outbox, e.processedAt = none → id? ≠ some e.id → Clear w e.id

def Stored (w : Journal) (id : String) : Prop := ∃ e ∈ w.world.outbox, e.id = id

structure Safe (w : Journal) : Prop where
  bounded : ∀ id, w.world.jobsFor id ≤ failedMarks w.log id + 1
  stored : ∀ job ∈ w.world.domainEvents, Stored w job.outboxId
  clear : w.world.processing = none → ClearBut w none
  entered : ∀ i, w.world.processing = some i →
    ∃ e ∈ w.log, e.call = i ∧ (⟨e.op, e.answer⟩ : Answer Ans Err) = ⟨.enter, .ok true⟩

/-- As long as call `i` holds the flag, nobody else adds jobs or marks events. -/
structure Undisturbed (i : ℕ) (w w' : Journal) : Prop where
  processing : w'.world.processing = some i
  domainEvents : w'.world.domainEvents = w.world.domainEvents
  marks : ∀ id, failedMarks w'.log id = failedMarks w.log id
  kept : ∀ e ∈ w.world.outbox, e ∈ w'.world.outbox
  new : ∀ e ∈ w'.world.outbox, e ∈ w.world.outbox ∨ w.world.jobsFor e.id = 0

/-- What call `i` has made sure of when it performs the operation. -/
def Obliged (req : Request) (i : ℕ) : Op → Journal → Prop
  | .enter, _ => req = .publishPendingEvents
  | .leave, w => w.world.processing = some i ∧ ClearBut w none
  | .findUnprocessed _, w => w.world.processing = some i
  | .add job, w => w.world.processing = some i ∧ Clear w job.outboxId ∧ Stored w job.outboxId
  | .markProcessed _, w => w.world.processing = some i
  | .markFailedAttempt _, w => w.world.processing = some i
  | .saveOutboxEvent _, _ => True

section Counting

variable {log : List (Event Op Ans Err World)} {e : Event Op Ans Err World} {id : String} {w : World}

theorem failedMarks_append : failedMarks (log ++ [e]) id =
    failedMarks log id + if marksInVain id ⟨e.op, e.answer⟩ then 1 else 0 := by
  rw [failedMarks, List.countP_append, List.countP_singleton]
  rfl

theorem jobsFor_add {job : DomainEventJob} {w' : World}
    (h : w'.domainEvents = w.domainEvents ++ [job]) :
    w'.jobsFor id = w.jobsFor id + if job.outboxId = id then 1 else 0 := by
  rw [World.jobsFor, h, List.countP_append, List.countP_singleton]
  simp only [beq_iff_eq]
  rfl

theorem jobsFor_eq_zero (h : ∀ job ∈ w.domainEvents, job.outboxId ≠ id) : w.jobsFor id = 0 :=
  List.countP_eq_zero.mpr fun job hjob => by simpa using h job hjob

end Counting

section Step

variable {req : Request} {i j : ℕ} {o : Op} {r : Except Err (Ans o)} {w w' : Journal}

theorem failedMarks_le (h : w.log <+: w'.log) (id : String) :
    failedMarks w.log id ≤ failedMarks w'.log id :=
  h.sublist.countP_le

theorem jobsFor_congr (h : w'.world.domainEvents = w.world.domainEvents) (id : String) :
    w'.world.jobsFor id = w.world.jobsFor id := by
  rw [World.jobsFor, World.jobsFor, h]

/-- What was clear stays clear until a job is added. -/
theorem Clear.later {id : String} (h : Clear w id)
    (hjobs : w'.world.domainEvents = w.world.domainEvents) (hlog : w.log <+: w'.log) : Clear w' id := by
  rw [Clear, jobsFor_congr hjobs]
  exact h.trans (failedMarks_le hlog id)

theorem ClearBut.later {id? : Option String} (h : ClearBut w id?)
    (hjobs : w'.world.domainEvents = w.world.domainEvents) (hlog : w.log <+: w'.log)
    (hrows : ∀ e ∈ w'.world.outbox, e.processedAt = none →
      (∃ e₀ ∈ w.world.outbox, e₀.processedAt = none ∧ e₀.id = e.id) ∨ w.world.jobsFor e.id = 0) :
    ClearBut w' id? := by
  intro e he hnone hne
  rcases hrows e he hnone with ⟨e₀, he₀, hnone₀, hid⟩ | hzero
  · rw [← hid] at hne ⊢
    exact (h e₀ he₀ hnone₀ hne).later hjobs hlog
  · rw [Clear, jobsFor_congr hjobs, hzero]
    exact Nat.zero_le _

/-- A step that adds no job. -/
theorem Safe.later (h : Safe w) (hjobs : w'.world.domainEvents = w.world.domainEvents)
    (hlog : w.log <+: w'.log) (hrows : ∀ id, Stored w id → Stored w' id)
    (hclear : w'.world.processing = none → ClearBut w' none)
    (hprocessing : w'.world.processing = w.world.processing) : Safe w' where
  bounded id := by
    rw [jobsFor_congr hjobs]
    exact (h.bounded id).trans (Nat.add_le_add_right (failedMarks_le hlog id) 1)
  stored job hjob := hrows _ (h.stored job (hjobs ▸ hjob))
  clear := hclear
  entered j hj :=
    let ⟨e, he, hentered⟩ := h.entered j (hprocessing ▸ hj)
    ⟨e, hlog.subset he, hentered⟩

/-- No job was added yet for an event that is stored now. -/
theorem Safe.jobsFor_new (h : Safe w) {e : OutboxEvent} {outbox : Table OutboxEvent}
    (inserted : w.world.outbox.insert? e = some outbox) : w.world.jobsFor e.id = 0 := by
  refine jobsFor_eq_zero fun job hjob hid => ?_
  obtain ⟨e', he', hid'⟩ := h.stored job hjob
  have hclash := (Table.insert?_eq_some inserted).1 e' he'
  simp [Entity.clash, hid', hid] at hclash

theorem safe_of_effect (hsafe : Safe w) (hpre : Obliged req i o w)
    (he : Effect i w.world o r w'.world) (hlog : w'.log = w.log ++ [⟨i, o, r, w.world⟩]) : Safe w' := by
  have hprefix : w.log <+: w'.log := hlog ▸ List.prefix_append _ _
  obtain ⟨world', log'⟩ := w'
  have hsame : ∀ e ∈ w.world.outbox, e.processedAt = none →
      (∃ e₀ ∈ w.world.outbox, e₀.processedAt = none ∧ e₀.id = e.id) ∨ w.world.jobsFor e.id = 0 :=
    fun e he hnone => .inl ⟨e, he, hnone, rfl⟩
  cases he with
  | failed _ _ | busy _ | found _ =>
    exact hsafe.later rfl hprefix (fun _ h => h) (fun hnone => (hsafe.clear hnone).later rfl hprefix hsame)
      rfl
  | rejected job e =>
    exact hsafe.later rfl hprefix (fun _ h => h) (fun hnone => (hsafe.clear hnone).later rfl hprefix hsame)
      rfl
  | entered _ =>
    refine ⟨fun id => (hsafe.bounded id).trans (Nat.add_le_add_right (failedMarks_le hprefix id) 1),
      hsafe.stored, (fun h => nomatch h), fun j hj => ?_⟩
    cases hj
    exact ⟨⟨i, _, _, w.world⟩, hlog ▸ List.mem_append_right _ (List.mem_singleton_self _), rfl, rfl⟩
  | left =>
    exact ⟨fun id => (hsafe.bounded id).trans (Nat.add_le_add_right (failedMarks_le hprefix id) 1),
      hsafe.stored, fun _ => hpre.2.later rfl hprefix hsame, fun _ h => nomatch h⟩
  | added job =>
    obtain ⟨hi, hclear, hstored⟩ := hpre
    refine ⟨fun id => ?_, fun job' hjob' => ?_, fun hnone => ?_, fun j hj => ?_⟩
    · rw [jobsFor_add rfl]
      have hmono := failedMarks_le hprefix id
      split
      · rename_i hid
        subst hid
        have : w.world.jobsFor job.outboxId ≤ failedMarks w.log job.outboxId := hclear
        omega
      · have := hsafe.bounded id
        omega
    · rcases List.mem_append.mp hjob' with hjob' | hjob'
      · exact hsafe.stored job' hjob'
      · rw [List.mem_singleton.mp hjob']
        exact hstored
    · cases hi.symm.trans hnone
    · obtain ⟨e, he, hentered⟩ := hsafe.entered j hj
      exact ⟨e, hprefix.subset he, hentered⟩
  | markedProcessed id now =>
    refine hsafe.later rfl hprefix ?_ (fun hnone => nomatch hpre.symm.trans hnone) rfl
    rintro _ ⟨e, he, rfl⟩
    refine ⟨_, mem_markProcessed.mpr ⟨e, he, rfl⟩, ?_⟩
    split <;> rfl
  | markedFailed id =>
    refine hsafe.later rfl hprefix ?_ (fun hnone => nomatch hpre.symm.trans hnone) rfl
    rintro _ ⟨e, he, rfl⟩
    refine ⟨_, mem_markFailedAttempt.mpr ⟨e, he, rfl⟩, ?_⟩
    split <;> rfl
  | saved inserted =>
    refine hsafe.later rfl hprefix ?_ (fun hnone => (hsafe.clear hnone).later rfl hprefix ?_) rfl
    · rintro _ ⟨e, he, rfl⟩
      exact ⟨e, (Table.mem_insert? inserted).mpr (.inl he), rfl⟩
    · intro e he hnone
      rcases (Table.mem_insert? inserted).mp he with he | rfl
      · exact .inl ⟨e, he, hnone, rfl⟩
      · exact .inr (hsafe.jobsFor_new inserted)

theorem marksInVain_of_ne {id : String} (h : ∀ id', o ≠ .markProcessed id') :
    marksInVain id ⟨o, r⟩ = false := by
  cases o with
  | markProcessed id' => exact absurd rfl (h id')
  | _ => rfl

theorem undisturbed_of_effect (hij : i ≠ j) (hsafe : Safe w) (hpre : Obliged req j o w)
    (he : Effect j w.world o r w'.world) (hlog : w'.log = w.log ++ [⟨j, o, r, w.world⟩])
    (hi : w.world.processing = some i) : Undisturbed i w w' := by
  have hj : w.world.processing ≠ some j := fun h => hij (Option.some.inj (hi.symm.trans h))
  have hmarks : ∀ id, failedMarks w'.log id = failedMarks w.log id := by
    intro id
    have hne : ∀ id', o ≠ .markProcessed id' := by
      rintro id' rfl
      exact hj hpre
    rw [hlog, failedMarks_append, marksInVain_of_ne hne]
    rfl
  obtain ⟨world', log'⟩ := w'
  cases he with
  | failed _ _ | busy _ | found _ => exact ⟨hi, rfl, hmarks, fun _ he => he, fun _ he => .inl he⟩
  | rejected job e => exact absurd hpre.1 hj
  | entered hnone => cases hnone.symm.trans hi
  | left => exact absurd hpre.1 hj
  | added job => exact absurd hpre.1 hj
  | markedProcessed id now => exact absurd hpre hj
  | markedFailed id => exact absurd hpre hj
  | saved inserted =>
    refine ⟨hi, rfl, hmarks, fun e he => (Table.mem_insert? inserted).mpr (.inl he), fun e he => ?_⟩
    rcases (Table.mem_insert? inserted).mp he with he | rfl
    · exact .inl he
    · exact .inr (hsafe.jobsFor_new inserted)

theorem Undisturbed.clearBut {id? : Option String} (h : Undisturbed i w w') (hclear : ClearBut w id?) :
    ClearBut w' id? := by
  intro e he hnone hne
  rw [Clear, jobsFor_congr h.domainEvents, h.marks]
  rcases h.new e he with he | hzero
  · exact hclear e he hnone hne
  · rw [hzero]
    exact Nat.zero_le _

theorem Undisturbed.isClear {id : String} (h : Undisturbed i w w') (hclear : Clear w id) : Clear w' id := by
  rw [Clear, jobsFor_congr h.domainEvents, h.marks]
  exact hclear

theorem Undisturbed.isStored {id : String} (h : Undisturbed i w w') (hstored : Stored w id) :
    Stored w' id :=
  let ⟨e, he, hid⟩ := hstored
  ⟨e, h.kept e he, hid⟩

theorem processing_ne_of_effect (hij : i ≠ j) (he : Effect j w.world o r w'.world)
    (hi : w.world.processing ≠ some i) : w'.world.processing ≠ some i := by
  obtain ⟨world', log'⟩ := w'
  cases he with
  | entered _ => exact fun h => hij (Option.some.inj h).symm
  | left => exact fun h => nomatch h
  | _ => exact hi

end Step

def safetyContract : Contract server.recorded where
  Inv := Safe
  Pre := Obliged
  Rely i w w' := (w.world.processing = some i → Undisturbed i w w') ∧
    (w.world.processing ≠ some i → w'.world.processing ≠ some i)
  rely_refl i w := ⟨fun h => ⟨h, rfl, fun _ => rfl, fun _ he => he, fun _ he => .inl he⟩, id⟩
  rely_trans := by
    rintro i w₁ w₂ w₃ ⟨hu, hne⟩ ⟨hu', hne'⟩
    refine ⟨fun h => ?_, fun h => hne' (hne h)⟩
    have h₂ := hu h
    have h₃ := hu' h₂.processing
    refine ⟨h₃.processing, h₃.domainEvents.trans h₂.domainEvents,
      fun id => (h₃.marks id).trans (h₂.marks id), fun e he => h₃.kept e (h₂.kept e he), fun e he => ?_⟩
    rcases h₃.new e he with he | hzero
    · exact h₂.new e he
    · exact .inr (by rwa [jobsFor_congr h₂.domainEvents] at hzero)
  inv_perform hinv hpre hp :=
    have hp := Server.recorded_perform.mp hp
    safe_of_effect hinv hpre (effect_of_perform hp.1) hp.2
  rely_perform hij hinv hpre hp :=
    have hp := Server.recorded_perform.mp hp
    ⟨undisturbed_of_effect hij hinv hpre (effect_of_perform hp.1) hp.2,
      processing_ne_of_effect hij (effect_of_perform hp.1)⟩

/-! ## The publisher keeps the contract -/

section Specs

variable {req : Request} {answers : List (Answer Ans Err)} {i : ℕ} {w w' : Journal} {id : String}

/-- The tick holds the flag, and has no job to account for. -/
def Tidy (i : ℕ) (w : Journal) : Prop := w.world.processing = some i ∧ ClearBut w none

/-- The step spares the events with other ids. -/
def Spares (id? : Option String) (w w' : Journal) : Prop :=
  ∀ id, id? ≠ some id → (Clear w id → Clear w' id) ∧ (Stored w id → Stored w' id)

theorem Spares.trans {id? : Option String} {w'' : Journal} (h : Spares id? w w')
    (h' : Spares id? w' w'') : Spares id? w w'' :=
  fun id hne => ⟨fun hc => (h' id hne).1 ((h id hne).1 hc), fun hs => (h' id hne).2 ((h id hne).2 hs)⟩

theorem Spares.weaken {id? : Option String} (h : Spares none w w') : Spares id? w w' :=
  fun id _ => h id fun h => nomatch h

theorem Undisturbed.spares (h : Undisturbed i w w') : Spares none w w' :=
  fun _ _ => ⟨h.isClear, h.isStored⟩

theorem Undisturbed.tidy (h : Undisturbed i w w') (htidy : Tidy i w) : Tidy i w' :=
  ⟨h.processing, h.clearBut htidy.2⟩

/-- An operation that adds no job and keeps the unmarked rows unmarked. -/
theorem spares_of_rows (hjobs : w'.world.domainEvents = w.world.domainEvents)
    (hlog : w.log <+: w'.log) (hrows : ∀ id, Stored w id → Stored w' id) : Spares none w w' :=
  fun id _ => ⟨fun hc => hc.later hjobs hlog, hrows id⟩

theorem markFailedAttempt_tidy (h : Tidy i w) :
    safetyContract.wp req i (await (.markFailedAttempt id))
      (fun _ _ w' => Tidy i w' ∧ Spares none w w') answers w := by
  refine Contract.wp_call fun w₁ ⟨hu, _⟩ _ => ?_
  have hu₁ := hu h.1
  have htidy := hu₁.tidy h
  refine ⟨hu₁.processing, fun ω r w₂ hp => ?_⟩
  obtain ⟨hp, hlog⟩ := Server.recorded_perform.mp hp
  have hprefix : w₁.log <+: w₂.log := hlog ▸ List.prefix_append _ _
  have heffect : Effect i w₁.world (.markFailedAttempt id) r w₂.world := effect_of_perform hp
  obtain ⟨world₂, log₂⟩ := w₂
  cases heffect with
  | failed _ _ =>
    exact ⟨⟨htidy.1, htidy.2.later rfl hprefix fun e he hnone => .inl ⟨e, he, hnone, rfl⟩⟩,
      hu₁.spares.trans (spares_of_rows rfl hprefix fun _ h => h)⟩
  | markedFailed _ =>
    refine ⟨⟨htidy.1, htidy.2.later rfl hprefix fun e he hnone => ?_⟩,
      hu₁.spares.trans (spares_of_rows rfl hprefix ?_)⟩
    · obtain ⟨e₀, he₀, rfl⟩ := mem_markFailedAttempt.mp he
      refine .inl ⟨e₀, he₀, ?_, ?_⟩
      · split at hnone <;> exact hnone
      · split <;> rfl
    · rintro _ ⟨e, he, rfl⟩
      refine ⟨_, mem_markFailedAttempt.mpr ⟨e, he, rfl⟩, ?_⟩
      split <;> rfl

/-- The rest of the body once the job has been added. -/
theorem markProcessed_tidy (id : String) (hi : w.world.processing = some i) (hclear : ClearBut w (some id)) :
    safetyContract.wp req i (await (.markProcessed id))
      (fun _ _ w' => Tidy i w' ∧ Spares (some id) w w') answers w := by
  refine Contract.wp_call fun w₁ ⟨hu, _⟩ hsafe => ?_
  have hu₁ := hu hi
  have hclear₁ := hu₁.clearBut hclear
  refine ⟨hu₁.processing, fun ω r w₂ hp => ?_⟩
  obtain ⟨hp, hlog⟩ := Server.recorded_perform.mp hp
  have hprefix : w₁.log <+: w₂.log := hlog ▸ List.prefix_append _ _
  have heffect : Effect i w₁.world (.markProcessed id) r w₂.world := effect_of_perform hp
  obtain ⟨world₂, log₂⟩ := w₂
  cases heffect with
  | failed err _ =>
    -- one job more, and one `markProcessed` more that has failed
    have hspares : Spares none w₁ ⟨w₁.world, log₂⟩ := spares_of_rows rfl hprefix fun _ h => h
    refine ⟨⟨hu₁.processing, fun e he hnone _ => ?_⟩, (hu₁.spares.trans hspares).weaken⟩
    by_cases hid : id = e.id
    · subst hid
      have hvain : marksInVain e.id ⟨.markProcessed e.id, .error err⟩ = true := beq_self_eq_true e.id
      have hmarks : failedMarks log₂ e.id = failedMarks w₁.log e.id + 1 := by
        rw [show log₂ = _ from hlog, failedMarks_append]
        exact congrArg _ (if_pos hvain)
      show w₁.world.jobsFor e.id ≤ failedMarks log₂ e.id
      rw [hmarks]
      exact hsafe.bounded e.id
    · exact (hclear₁ e he hnone fun h => hid (Option.some.inj h)).later rfl hprefix
  | markedProcessed _ now =>
    have hspares : Spares none w₁ ⟨w₁.world.markProcessed id now, log₂⟩ := by
      refine spares_of_rows rfl hprefix ?_
      rintro _ ⟨e, he, rfl⟩
      refine ⟨_, mem_markProcessed.mpr ⟨e, he, rfl⟩, ?_⟩
      split <;> rfl
    refine ⟨⟨hu₁.processing, fun e he hnone _ => ?_⟩, (hu₁.spares.trans hspares).weaken⟩
    · obtain ⟨e₀, he₀, rfl⟩ := mem_markProcessed.mp he
      split at hnone
      · cases hnone
      · rename_i hid
        rw [if_neg hid]
        refine (hclear₁ e₀ he₀ hnone fun h => hid ?_).later rfl hprefix
        rw [Option.some.inj h]
        exact beq_self_eq_true _

theorem publishEvent_tidy {event : OutboxEvent} (h : Tidy i w) (hclear : Clear w event.id)
    (hstored : Stored w event.id) :
    safetyContract.wp req i (publishEvent event)
      (fun _ _ w' => Tidy i w' ∧ Spares (some event.id) w w') answers w := by
  have hfailed : ∀ {w₃ : Journal} {answers : List (Answer Ans Err)}, Tidy i w₃ →
      Spares (some event.id) w w₃ → safetyContract.wp req i (await (.markFailedAttempt event.id))
        (fun _ _ w' => Tidy i w' ∧ Spares (some event.id) w w') answers w₃ := by
    intro w₃ answers htidy hspares
    exact Contract.wp_mono (markFailedAttempt_tidy htidy) fun _ _ w₄ h => ⟨h.1, hspares.trans h.2.weaken⟩
  refine Contract.wp_handle.mpr (Contract.wp_bind.mpr (Contract.wp_call fun w₁ ⟨hu, _⟩ hsafe => ?_))
  have hu₁ := hu h.1
  have htidy := hu₁.tidy h
  refine ⟨⟨hu₁.processing, hu₁.isClear hclear, hu₁.isStored hstored⟩, fun ω r w₂ hp => ?_⟩
  obtain ⟨hp, hlog⟩ := Server.recorded_perform.mp hp
  have hprefix : w₁.log <+: w₂.log := hlog ▸ List.prefix_append _ _
  have heffect : Effect i w₁.world (.add event.job) r w₂.world := effect_of_perform hp
  obtain ⟨world₂, log₂⟩ := w₂
  cases heffect with
  | failed _ hne => exact absurd rfl (hne event.job)
  | rejected _ err =>
    have hspares : Spares none w₁
        ⟨{ w₁.world with rejected := w₁.world.rejected ++ [event.job] }, log₂⟩ :=
      spares_of_rows rfl hprefix fun _ h => h
    exact hfailed ⟨htidy.1, htidy.2.later rfl hprefix fun e he hnone => .inl ⟨e, he, hnone, rfl⟩⟩
      (hu₁.spares.trans hspares).weaken
  | added _ =>
    -- all other events have as many jobs as before
    have hspares : Spares (some event.id) w₁
        ⟨{ w₁.world with domainEvents := w₁.world.domainEvents ++ [event.job] }, log₂⟩ := by
      refine fun id hne => ⟨fun hc => ?_, fun hs => hs⟩
      rw [Clear, jobsFor_add rfl, if_neg (show event.job.outboxId ≠ id from fun h => hne (congrArg some h))]
      exact hc.trans (failedMarks_le hprefix id)
    refine Contract.wp_mono (markProcessed_tidy event.id htidy.1 ?_) fun answers r w₃ hw₃ => ?_
    · intro e he hnone hne
      exact (hspares e.id hne).1 (htidy.2 e he hnone fun h => nomatch h)
    · have hspares₃ := (hu₁.spares.weaken.trans hspares).trans hw₃.2
      cases r with
      | ok _ => exact ⟨hw₃.1, hspares₃⟩
      | error e => exact hfailed hw₃.1 hspares₃

theorem publishEvents_tidy {events : List OutboxEvent} (h : Tidy i w)
    (hevents : ∀ event ∈ events, Clear w event.id ∧ Stored w event.id)
    (hnodup : (events.map (·.id)).Nodup) :
    safetyContract.wp req i (publishEvents events) (fun _ _ w' => Tidy i w') answers w := by
  induction events generalizing w answers with
  | nil => exact h
  | cons event events ih =>
    obtain ⟨hnotin, hnodup⟩ := List.nodup_cons.mp hnodup
    obtain ⟨hclear, hstored⟩ := hevents event List.mem_cons_self
    refine Contract.wp_bind.mpr (Contract.wp_mono (publishEvent_tidy h hclear hstored)
      fun answers₁ r w₁ ⟨htidy, hspares⟩ => ?_)
    cases r with
    | error e => exact htidy
    | ok _ =>
      refine ih htidy (fun event' hmem => ?_) hnodup
      -- the events that remain have other ids
      have hne : some event.id ≠ some event'.id := fun heq =>
        hnotin (List.mem_map.mpr ⟨event', hmem, (Option.some.inj heq).symm⟩)
      obtain ⟨hclear', hstored'⟩ := hevents event' (List.mem_cons_of_mem _ hmem)
      exact ⟨(hspares _ hne).1 hclear', (hspares _ hne).2 hstored'⟩

/-- A tick that has passed the guard does not hold the flag when it ends. -/
def Released (i : ℕ) (answers : List (Answer Ans Err)) (w : Journal) : Prop :=
  ⟨.enter, .ok true⟩ ∈ answers → w.world.processing ≠ some i

theorem nodup_ids {w : World} {order : List OutboxEvent} (h : Ordered w order) :
    (order.map (·.id)).Nodup := by
  refine (h.1.map _).nodup_iff.mpr (List.Nodup.sublist (List.filter_sublist.map _) ?_)
  refine List.pairwise_map.mpr (w.outbox.unique.imp fun hclash => ?_)
  simpa [Entity.clash] using hclash

theorem publishPendingEvents_releases (hreq : req = .publishPendingEvents) :
    safetyContract.wp req i publishPendingEvents (fun answers _ w => Released i answers w) [] w := by
  unfold publishPendingEvents
  refine Contract.wp_bind.mpr (Contract.wp_call fun w₁ _ hsafe => ⟨hreq, fun ω r w₂ hp => ?_⟩)
  obtain ⟨hp, hlog⟩ := Server.recorded_perform.mp hp
  have hprefix : w₁.log <+: w₂.log := hlog ▸ List.prefix_append _ _
  have heffect : Effect i w₁.world .enter r w₂.world := effect_of_perform (ω := ω) hp
  obtain ⟨world₂, log₂⟩ := w₂
  cases heffect with
  | failed e _ => exact fun h => nomatch List.mem_singleton.mp h
  | busy _ => exact fun h => nomatch List.mem_singleton.mp h
  | entered hnone =>
    have htidy₂ : Tidy i ⟨{ w₁.world with processing := some i }, log₂⟩ :=
      ⟨rfl, (hsafe.clear hnone).later rfl hprefix fun e he hnone => .inl ⟨e, he, hnone, rfl⟩⟩
    -- the tick is tidy whenever the `finally` block begins
    refine Contract.wp_finally (Contract.wp_mono (Q := fun _ _ w' => Tidy i w') ?_ ?_)
    · refine Contract.wp_bind.mpr (Contract.wp_call fun w₃ ⟨hu, _⟩ _ => ?_)
      have hu₃ := hu rfl
      refine ⟨hu₃.processing, fun ω r w₄ hp => ?_⟩
      have htidy₃ := hu₃.tidy htidy₂
      obtain ⟨hp, hlog⟩ := Server.recorded_perform.mp hp
      have hprefix : w₃.log <+: w₄.log := hlog ▸ List.prefix_append _ _
      have heffect : Effect i w₃.world (.findUnprocessed 50) r w₄.world := effect_of_perform hp
      obtain ⟨world₄, log₄⟩ := w₄
      have htidy₄ : Tidy i ⟨w₃.world, log₄⟩ :=
        ⟨htidy₃.1, htidy₃.2.later rfl hprefix fun e he hnone => .inl ⟨e, he, hnone, rfl⟩⟩
      cases heffect with
      | failed e _ => exact htidy₄
      | @found _ order hordered =>
        show safetyContract.wp req i (if (order.take 50).length = 0 then pure () else _) _ _ _
        split
        · exact htidy₄
        · refine publishEvents_tidy htidy₄ (fun event hmem => ?_)
            ((nodup_ids hordered).sublist ((List.take_sublist _ _).map _))
          have hrow := hordered.1.subset (List.mem_of_mem_take hmem)
          obtain ⟨hstored, hunprocessed⟩ := List.mem_filter.mp hrow
          have hnone : event.processedAt = none := by
            simpa using (Bool.and_eq_true_iff.mp hunprocessed).1
          exact ⟨htidy₄.2 event hstored hnone fun h => (nomatch h), event, hstored, rfl⟩
    · intro answers r w₃ htidy
      refine Contract.wp_call fun w₄ ⟨hu, _⟩ _ => ⟨(hu htidy.1).tidy htidy, fun ω r' w₅ hp => ?_⟩
      have hreleased : w₅.world.processing ≠ some i := by
        cases hp
        exact fun h => nomatch h
      cases r' <;> exact fun _ => hreleased

theorem serve_releases :
    safetyContract.wp req i (serve req) (fun answers _ w => Released i answers w) [] w := by
  cases req with
  | publishPendingEvents => exact publishPendingEvents_releases rfl
  | depositSucceeded walletId userId amount currency userEmail now =>
    exact Contract.wp_call fun _ _ _ => ⟨trivial, fun _ _ _ _ h => nomatch List.mem_singleton.mp h⟩
  | transferCompleted transferId fromUserId toUserId amount currency fromUserEmail fromUserName toUser
      now =>
    exact Contract.wp_call fun _ _ _ => ⟨trivial, fun _ _ _ _ h => nomatch List.mem_singleton.mp h⟩

theorem safety_meets : safetyContract.Meets fun i _ answers _ w => Released i answers w :=
  fun _ _ _ _ => serve_releases

end Specs

/-! ## Where the calls stand -/

/-- The operations behind the guard. -/
def Op.Guarded : Op → Prop
  | .enter | .saveOutboxEvent _ => False
  | _ => True

section Guarded

theorem publishEvent_guarded (event : OutboxEvent) : (publishEvent event).All Op.Guarded := by
  refine Program.All.handle ?_ fun _ => Program.all_call trivial
  exact Program.all_await trivial fun _ => Program.all_call trivial

theorem publishEvents_guarded (events : List OutboxEvent) : (publishEvents events).All Op.Guarded := by
  induction events with
  | nil => trivial
  | cons event events ih => exact (publishEvent_guarded event).bind fun _ => ih

/-- Every call begins with its only operation that is not behind the guard. -/
theorem serve_begins (req : Request) : ∃ o next, serve req = .await o next ∧
    (∀ r, (next r).All Op.Guarded) ∧ (o = .enter → req = .publishPendingEvents) := by
  cases req with
  | publishPendingEvents =>
    refine ⟨.enter, _, rfl, fun r => ?_, fun _ => rfl⟩
    rcases r with e | entered
    · trivial
    · cases entered with
      | false => trivial
      | true =>
        refine Program.All.finally_ (Program.all_await trivial fun events => ?_)
          (Program.all_call trivial)
        split
        · trivial
        · exact publishEvents_guarded events
  | depositSucceeded | transferCompleted =>
    exact ⟨_, _, rfl, fun r => Program.all_ofExcept r, fun h => nomatch h⟩

end Guarded

/-- The call has not begun, or it has begun and is behind the guard. -/
def Placed (c : Call Op Ans Err Request Unit) : Prop :=
  (c.answers = [] ∧ c.program = serve c.request) ∨
    (c.program.All Op.Guarded ∧ ∀ r, ⟨.enter, r⟩ ∈ c.answers → c.request = .publishPendingEvents)

theorem Placed.next {c : Call Op Ans Err Request Unit} {o : Op}
    {next : Except Err (Ans o) → Promise Unit} (h : Placed c) (hp : c.program = .await o next)
    (r : Except Err (Ans o)) : Placed ⟨c.request, ⟨o, r⟩ :: c.answers, next r⟩ := by
  right
  rcases h with ⟨hanswers, hbegin⟩ | ⟨hall, hentered⟩
  · obtain ⟨o', next', hserve, hguarded, henter⟩ := serve_begins c.request
    rw [hbegin, hserve] at hp
    cases hp
    refine ⟨hguarded r, fun r' hr' => henter ?_⟩
    rw [hanswers] at hr'
    exact (Sigma.mk.inj (List.mem_singleton.mp hr')).1.symm
  · rw [hp] at hall
    refine ⟨hall.2 r, fun r' hr' => ?_⟩
    rcases List.mem_cons.mp hr' with heq | hr'
    · obtain rfl := (Sigma.mk.inj heq).1
      cases hall.1
    · exact hentered r' hr'

section Runs

variable {w : World} {s : JournalState} {i j : ℕ}

theorem calls_placed (hr : server.recorded.Reaches Server.Any ⟨⟨w, []⟩, []⟩ s) :
    ∀ c ∈ s.calls, Placed c := by
  induction hr with
  | refl => exact fun c hc => nomatch hc
  | @tail s₁ s₂ l _ _ hn ih =>
    intro c hc
    cases l with
    | start req =>
      cases hn
      rcases List.mem_append.mp hc with hc | hc
      · exact ih c hc
      · rw [List.mem_singleton.mp hc]
        exact .inl ⟨rfl, rfl⟩
    | step i ω =>
      obtain ⟨c₀, o, next, r, world, hc₀, hp, hperform, rfl⟩ := Server.step_cases hn
      rcases List.mem_or_eq_of_mem_set hc with hc | rfl
      · exact ih c hc
      · exact (ih c₀ (List.mem_of_getElem? hc₀)).next hp r

theorem safe_initial (hw : w.Initial) : Safe ⟨w, []⟩ where
  bounded id := by
    rw [World.jobsFor, hw.domainEvents]
    exact Nat.zero_le _
  stored job hjob := by
    rw [hw.domainEvents] at hjob
    cases hjob
  clear _ e _ _ _ := by
    rw [Clear, World.jobsFor, hw.domainEvents]
    exact Nat.zero_le _
  entered i hi := by
    rw [hw.processing] at hi
    cases hi

/-- The call has found the flag down, and has not ended. -/
def PastGuard (s : JournalState) (i : ℕ) : Prop :=
  ∃ c, s.calls[i]? = some c ∧ ⟨.enter, .ok true⟩ ∈ c.answers ∧ c.program.result? = none

theorem PastGuard.holds (hw : w.Initial)
    (hr : server.recorded.Reaches Server.Any ⟨⟨w, []⟩, []⟩ s) (h : PastGuard s i) :
    s.world.world.processing = some i := by
  obtain ⟨c, hc, hentered, hrunning⟩ := h
  have hsound := Contract.sound_reaches safety_meets (Contract.sound_idle (safe_initial hw)) hr
  rcases calls_placed hr c (List.mem_of_getElem? hc) with ⟨hanswers, -⟩ | ⟨hall, -⟩
  · rw [hanswers] at hentered
    cases hentered
  · cases hp : c.program with
    | ret a => rw [hp] at hrunning; cases hrunning
    | throw e => rw [hp] at hrunning; cases hrunning
    | await o next =>
      rw [hp] at hall
      have hpre : Obliged c.request i o s.world :=
        (hsound.tracks i (List.getElem?_eq_some_iff.mp hc).1).pre hsound.inv hc hp
      cases o with
      | enter | saveOutboxEvent => cases hall.1
      | leave | add => exact hpre.1
      | findUnprocessed | markProcessed | markFailedAttempt => exact hpre

/-- Whoever holds the flag is a tick that is still running. -/
theorem holder_runs (hw : w.Initial) (hr : server.recorded.Reaches Server.Any ⟨⟨w, []⟩, []⟩ s)
    (hi : s.world.world.processing = some i) : ∃ c, s.calls[i]? = some c ∧
      c.request = .publishPendingEvents ∧ c.program.result? = none := by
  have hsound := Contract.sound_reaches safety_meets (Contract.sound_idle (safe_initial hw)) hr
  obtain ⟨e, he, hcall, hentered⟩ := hsound.inv.entered i hi
  have hanswer : ⟨.enter, .ok true⟩ ∈ s.world.answersOf i := by
    refine List.mem_reverse.mpr (List.mem_filterMap.mpr ⟨e, he, ?_⟩)
    rw [if_pos hcall, hentered]
  rw [hr.answersOf rfl rfl] at hanswer
  cases hc : s.calls[i]? with
  | none =>
    rw [hc] at hanswer
    cases hanswer
  | some c =>
    rw [hc] at hanswer
    have hmem : ⟨.enter, .ok true⟩ ∈ c.answers := hanswer
    refine ⟨c, rfl, ?_, ?_⟩
    · rcases calls_placed hr c (List.mem_of_getElem? hc) with ⟨hanswers, -⟩ | ⟨-, hrequest⟩
      · rw [hanswers] at hmem
        cases hmem
      · exact hrequest _ hmem
    · cases hresult : c.program.result? with
      | none => rfl
      | some r =>
        -- it has released the flag, and nobody raises it on its behalf
        obtain ⟨w', hrely, hreleased⟩ :=
          (hsound.tracks i (List.getElem?_eq_some_iff.mp hc).1).outcome hc hresult
        exact absurd hi (hrely.2 (hreleased hmem))

end Runs

/-- Ticks of one publisher, overlapping and failing in any way: at most one is past the guard; when none is
    running the flag is down; an event is marked as processed only when its job is in the queue; and its
    jobs outnumber the failures of `markProcessed` for it by one at most. -/
theorem publisher_safe (w : World) (s : JournalState) (hw : w.Initial)
    (hr : server.recorded.Reaches Server.Any ⟨⟨w, []⟩, []⟩ s) :
    (∀ i j, PastGuard s i → PastGuard s j → i = j) ∧
    ((∀ c ∈ s.calls, c.request = .publishPendingEvents → c.program.result? ≠ none) →
      s.world.world.processing = none) ∧
    (∀ e ∈ s.world.world.outbox, e.processedAt ≠ none → ∃ job ∈ s.world.world.domainEvents,
      job.outboxId = e.id ∧ job.name = e.eventName ∧ job.eventName = e.eventName ∧
        job.aggregateId = e.aggregateId ∧ job.payload = e.payloadJson ∧
        job.occurredAt = e.occurredAt) ∧
    ∀ id, s.world.world.jobsFor id ≤ 1 + failedMarks s.world.log id := by
  refine ⟨fun i j hi hj => ?_, fun hended => ?_, fun e he hprocessed => ?_, fun id => ?_⟩
  · exact Option.some.inj ((hi.holds hw hr).symm.trans (hj.holds hw hr))
  · cases hprocessing : s.world.world.processing with
    | none => rfl
    | some i =>
      obtain ⟨c, hc, hreq, hrunning⟩ := holder_runs hw hr hprocessing
      exact absurd hrunning (hended c (List.mem_of_getElem? hc) hreq)
  · have hreachable : Reachable s.forget := ⟨w, hw, hr.forget⟩
    exact ⟨e.job, hreachable.sound.inv.processed e he hprocessed, rfl, rfl, rfl, rfl, rfl, rfl⟩
  · have hsound := Contract.sound_reaches safety_meets (Contract.sound_idle (safe_initial hw)) hr
    rw [Nat.add_comm]
    exact hsound.inv.bounded id

/-- Two ticks overlap, the first cannot mark the event, and the third adds it once more. -/
def twice : List (Label Request Choice) :=
  committed ++
    [.start .publishPendingEvents, .step 1 {}, .start .publishPendingEvents, .step 2 {},
      .step 1 { order := [deposited 0] }, .step 1 {}, .step 1 { fault := some .unavailable },
      .step 1 {}, .step 1 {}] ++
    tick 3 1 none

theorem publisher_safe_twice : ∃ s : JournalState,
    server.recorded.Reaches Server.Any ⟨⟨World.empty, []⟩, []⟩ s ∧
    s.world.world.jobsFor "e1" = 2 ∧ s.world.world.jobsFor "e1" ≤ 1 + failedMarks s.world.log "e1" := by
  have hrun : (server.recorded.run twice ⟨⟨World.empty, []⟩, []⟩).map
      (fun s => s.world.world.jobsFor "e1") = some 2 := by
    decide +kernel
  obtain ⟨s, hs, hjobs⟩ := Option.map_eq_some_iff.mp hrun
  have hr := Server.reaches_of_run hs
  exact ⟨s, hr, hjobs, (publisher_safe _ s World.empty_initial hr).2.2.2 "e1"⟩

end LiorParisWallet.Outbox
