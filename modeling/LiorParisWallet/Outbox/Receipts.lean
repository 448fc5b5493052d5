import LiorParisWallet.Outbox.Delivery

/-!
# Receipts

An event is marked as processed only when its job has got into the queue, whatever becomes of the publisher that
has put it there.  Unlike `publisherContract` this one does not depend on the flag, so it outlives a restart.
-/

namespace LiorParisWallet.Outbox

open Async Relational

/-- Somebody is notified of such an event. -/
def AboutMoney (name : DomainEventName) : Prop := name = .depositSucceeded ∨ name = .transferCompleted

/-- The job of every processed event about money has been added. -/
def World.Receipted (w : World) : Prop :=
  ∀ ev ∈ w.outbox, AboutMoney ev.eventName → ev.processedAt ≠ none → w.Added ev

/-- Only an event that has been added is marked. -/
def Receipt : Op → World → Prop
  | .markProcessed id, w => ∃ ev ∈ w.outbox, ev.id = id ∧ w.Added ev
  | .saveOutboxEvent _, _ => False
  | _, _ => True

variable {w w' : World} {i : ℕ} {o : Op}

theorem Grows.added_of_job (h : Grows w w') {job : DomainEventJob} (hjob : job ∈ w.domainEvents) :
    job ∈ w'.domainEvents :=
  h.domainEvents.subset hjob

theorem grows_of_perform {ω : Choice} {r : Except Err (Ans o)} (h : server.perform i o ω w = some (r, w')) :
    Grows w w' :=
  grows_of_effect (effect_of_perform h)

theorem receipted_of_effect {r : Except Err (Ans o)} (hw : w.Receipted) (hpre : Receipt o w)
    (he : Effect i w o r w') : w'.Receipted := by
  have hgrows := grows_of_effect he
  cases he with
  | markedProcessed id now =>
    intro ev hev hmoney hprocessed
    obtain ⟨ev₀, hev₀, rfl⟩ := mem_markProcessed.mp hev
    by_cases hid : (ev₀.id == id) = true
    · obtain ⟨ev₁, hev₁, hid₁, hadded⟩ := hpre
      obtain rfl : ev₁ = ev₀ := eq_of_id hev₁ hev₀ (hid₁.trans (beq_iff_eq.mp hid).symm)
      rw [if_pos hid]
      exact hgrows.added (e := ev₁) rfl hadded
    · rw [if_neg hid] at hmoney hprocessed ⊢
      exact hgrows.added rfl (hw ev₀ hev₀ hmoney hprocessed)
  | markedFailed id =>
    intro ev hev hmoney hprocessed
    obtain ⟨ev₀, hev₀, rfl⟩ := mem_markFailedAttempt.mp hev
    have hjob : (if ev₀.id == id then { ev₀ with retryCount := ev₀.retryCount + 1 } else ev₀).job = ev₀.job := by
      split <;> rfl
    refine hgrows.added hjob (hw ev₀ hev₀ ?_ ?_)
    · split at hmoney <;> exact hmoney
    · split at hprocessed <;> exact hprocessed
  | saved _ => exact hpre.elim
  | _ => exact fun ev hev hmoney hprocessed => hgrows.added rfl (hw ev hev hmoney hprocessed)

def receipts : Contract server where
  Inv := World.Receipted
  Pre _ _ o w := Receipt o w
  Rely _ w w' := Grows w w'
  rely_refl _ w := .refl w
  rely_trans h h' := h.trans h'
  inv_perform hinv hpre hp := receipted_of_effect hinv hpre (effect_of_perform hp)
  rely_perform _ _ _ hp := grows_of_perform hp

section Ticks

variable {req : Request} {answers : List (Answer Ans Err)}

/-- The rows that a tick goes through stay in the table. -/
def Held (w : World) (event : OutboxEvent) : Prop := ∃ ev ∈ w.outbox, ev.job = event.job

theorem Held.grows {event : OutboxEvent} (h : Held w event) (hg : Grows w w') : Held w' event := by
  obtain ⟨ev, hev, hjob⟩ := h
  obtain ⟨ev', hev', hjob', -⟩ := hg.events ev hev
  exact ⟨ev', hev', hjob'.trans hjob⟩

theorem publishEvent_receipted {event : OutboxEvent} (h : Held w event) :
    receipts.wp req i (publishEvent event) (fun _ _ w' => Grows w w') answers w := by
  apply Contract.wp_handle.mpr
  apply Contract.wp_bind.mpr
  refine Contract.wp_call fun w₁ hrely _ => ⟨trivial, fun ω r w₂ hp => ?_⟩
  have hadd : Effect i w₁ (.add event.job) r w₂ := effect_of_perform hp
  have hg₂ : Grows w w₂ := hrely.trans (grows_of_effect hadd)
  have hmark : ∀ answers w', Grows w w' →
      receipts.wp req i (await (.markFailedAttempt event.id)) (fun _ _ w' => Grows w w') answers w' := by
    intro answers w' hg
    refine Contract.wp_call fun w₁ hrely _ => ⟨trivial, fun ω r w₂ hp => ?_⟩
    exact (hg.trans hrely).trans (grows_of_perform hp)
  cases hadd with
  | failed e hfails => exact hmark _ _ hg₂
  | rejected job e => exact hmark _ _ hg₂
  | added job =>
    refine Contract.wp_call fun w₃ hrely₃ _ => ⟨?_, fun ω r w₄ hp => ?_⟩
    · obtain ⟨ev, hev, hjob⟩ := h.grows (hg₂.trans hrely₃)
      refine ⟨ev, hev, id_of_job hjob, ?_⟩
      show ev.job ∈ w₃.domainEvents
      rw [hjob]
      exact hrely₃.added_of_job (List.mem_append_right _ List.mem_cons_self)
    · have hg₄ : Grows w w₄ := (hg₂.trans hrely₃).trans (grows_of_perform hp)
      cases r with
      | error e => exact hmark _ _ hg₄
      | ok _ => exact hg₄

theorem publishEvents_receipted {events : List OutboxEvent} (h : ∀ event ∈ events, Held w event) :
    receipts.wp req i (publishEvents events) (fun _ _ _ => True) answers w := by
  induction events generalizing answers w with
  | nil => trivial
  | cons event events ih =>
    obtain ⟨hevent, hevents⟩ := List.forall_mem_cons.mp h
    refine Contract.wp_bind.mpr (Contract.wp_mono (publishEvent_receipted hevent) fun _ r w' hg => ?_)
    cases r with
    | error e => trivial
    | ok _ => exact ih fun event hmem => (hevents event hmem).grows hg

theorem publishPendingEvents_receipted :
    receipts.wp req i publishPendingEvents (fun _ _ _ => True) answers w := by
  apply Contract.wp_bind.mpr
  refine Contract.wp_call fun w₁ _ _ => ⟨trivial, fun ω r w₂ _ => ?_⟩
  cases r with
  | error e => trivial
  | ok entered =>
    cases entered with
    | false => trivial
    | true =>
      apply Contract.wp_finally
      apply Contract.wp_mono (Q := fun _ _ _ => True)
      · apply Contract.wp_bind.mpr
        refine Contract.wp_call fun w₃ _ _ => ⟨trivial, fun ω r w₄ hp => ?_⟩
        have heffect : Effect i w₃ (.findUnprocessed 50) r w₄ := effect_of_perform hp
        cases heffect with
        | failed e _ => trivial
        | @found _ order hordered =>
          show receipts.wp req i (if (order.take 50).length = 0 then pure () else _) _ _ _
          split
          · trivial
          · apply publishEvents_receipted
            intro event hmem
            exact ⟨event, (List.mem_filter.mp (hordered.1.subset (List.mem_of_mem_take hmem))).1, rfl⟩
      · intro _ r _ _
        refine Contract.wp_call fun _ _ _ => ⟨trivial, fun _ r' _ _ => ?_⟩
        cases r' <;> trivial

end Ticks

/-- An event arrives unprocessed. -/
theorem Arrives.pending {data : OutboxData} (h : Arrives data) : data.processedAt = none := by
  obtain ⟨req, hreq⟩ := h
  cases req with
  | publishPendingEvents => cases hreq
  | depositSucceeded walletId userId amount currency userEmail now =>
    cases hreq
    rfl
  | transferCompleted transferId fromUserId toUserId amount currency fromUserEmail fromUserName toUser now =>
    cases hreq
    rfl

/-- What the money server has committed carries no mark. -/
theorem pending_of_reachable {registry : PaymentGatewayRegistry} {s : LiorParisWallet.State}
    (h : LiorParisWallet.Reachable registry s) :
    ∀ ev ∈ s.world.db.outbox, AboutMoney ev.eventName → ev.processedAt = none := by
  obtain ⟨w, hw, hr⟩ := h
  induction hr with
  | refl =>
    intro ev hev hmoney
    obtain ⟨hdeposit, htransfer, -⟩ := hw.outbox ev hev
    rcases hmoney with hname | hname
    · exact absurd hname hdeposit
    · exact absurd hname htransfer
  | @tail s₁ s₂ l hr _ hn ih =>
    cases l with
    | start req =>
      cases hn
      exact ih
    | step i ω =>
      have hs₁ : LiorParisWallet.Reachable registry s₁ := ⟨w, hw, hr⟩
      obtain ⟨c, o, next, r, w', hc, hp, -⟩ := Server.step_cases hn
      obtain ⟨c', hc', hpre, he⟩ := hs₁.effect hn (System.awaits_eq hc hp)
      intro ev hev hmoney
      rcases outbox_of_effect hpre he with hsame | ⟨data, id, now, hdata, hinsert⟩
      · exact ih ev (hsame ▸ hev) hmoney
      · rcases (Table.mem_insert? hinsert).mp hev with hold | rfl
        · exact ih ev hold hmoney
        · exact hdata.pending

end LiorParisWallet.Outbox
