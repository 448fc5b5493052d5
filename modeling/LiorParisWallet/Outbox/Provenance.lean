import LiorParisWallet.Outbox.Delivery

/-!
# What the publisher passes on

A tick adds jobs of events that it has found in the outbox, and of no others.  `P` says which names and
payloads have got there.
-/

namespace LiorParisWallet.Outbox

open Async Relational

/-- What an operation of a tick may pass on. -/
def Passes (P : DomainEventName → Record → Prop) : Op → Prop
  | .add job => P job.eventName job.payload
  | .saveOutboxEvent _ => False
  | _ => True

variable {P : DomainEventName → Record → Prop} {w w' : World} {i : ℕ} {o : Op}

/-- The marks of the publisher leave names and payloads alone. -/
theorem passed_of_effect {r : Except Err (Ans o)} (hw : ∀ ev ∈ w.outbox, P ev.eventName ev.payloadJson)
    (ho : Passes P o) (he : Effect i w o r w') : ∀ ev ∈ w'.outbox, P ev.eventName ev.payloadJson := by
  cases he with
  | markedProcessed id now =>
    intro ev hev
    obtain ⟨ev₀, hev₀, rfl⟩ := mem_markProcessed.mp hev
    split <;> exact hw ev₀ hev₀
  | markedFailed id =>
    intro ev hev
    obtain ⟨ev₀, hev₀, rfl⟩ := mem_markFailedAttempt.mp hev
    split <;> exact hw ev₀ hev₀
  | saved _ => exact ho.elim
  | _ => exact hw

def provenance (P : DomainEventName → Record → Prop) : Contract server where
  Inv w := ∀ ev ∈ w.outbox, P ev.eventName ev.payloadJson
  Pre _ _ o _ := Passes P o
  Rely _ _ _ := True
  rely_refl _ _ := trivial
  rely_trans _ _ := trivial
  inv_perform hinv hpre hp := passed_of_effect hinv hpre (effect_of_perform hp)
  rely_perform _ _ _ _ := trivial

section Ticks

variable {req : Request} {answers : List (Answer Ans Err)}

theorem publishEvent_passes {event : OutboxEvent} (h : P event.eventName event.payloadJson) :
    (provenance P).wp req i (publishEvent event) (fun _ _ _ => True) answers w := by
  refine Contract.wp_handle.mpr (Contract.wp_bind.mpr (Contract.wp_call fun w₁ _ _ => ⟨h, fun ω r w₂ _ => ?_⟩))
  have hmark : ∀ answers w, (provenance P).wp req i (await (.markFailedAttempt event.id))
      (fun _ _ _ => True) answers w := fun _ _ => Contract.wp_call fun _ _ _ => ⟨trivial, fun _ _ _ _ => trivial⟩
  -- whether `add` or `markProcessed` fails, the `catch` block is the same
  cases r with
  | error e => exact hmark _ _
  | ok _ =>
    refine Contract.wp_call fun w₃ _ _ => ⟨trivial, fun ω r w₄ _ => ?_⟩
    cases r with
    | error e => exact hmark _ _
    | ok _ => trivial

theorem publishEvents_passes {events : List OutboxEvent}
    (h : ∀ event ∈ events, P event.eventName event.payloadJson) :
    (provenance P).wp req i (publishEvents events) (fun _ _ _ => True) answers w := by
  induction events generalizing answers w with
  | nil => trivial
  | cons event events ih =>
    obtain ⟨hevent, hevents⟩ := List.forall_mem_cons.mp h
    refine Contract.wp_bind.mpr (Contract.wp_mono (publishEvent_passes hevent) fun _ r _ _ => ?_)
    cases r with
    | error e => trivial
    | ok _ => exact ih hevents

theorem publishPendingEvents_passes :
    (provenance P).wp req i publishPendingEvents (fun _ _ _ => True) answers w := by
  refine Contract.wp_bind.mpr (Contract.wp_call fun w₁ _ _ => ⟨trivial, fun ω r w₂ _ => ?_⟩)
  cases r with
  | error e => trivial
  | ok entered =>
    cases entered with
    | false => trivial
    | true =>
      -- the `finally` block only clears the flag
      refine Contract.wp_finally (Contract.wp_mono (Q := fun _ _ _ => True) ?_ fun _ r _ _ => ?_)
      · refine Contract.wp_bind.mpr (Contract.wp_call fun w₃ _ hinv => ⟨trivial, fun ω r w₄ hp => ?_⟩)
        have heffect : Effect i w₃ (.findUnprocessed 50) r w₄ := effect_of_perform hp
        cases heffect with
        | failed e _ => trivial
        | @found _ order hordered =>
          show (provenance P).wp req i (if (order.take 50).length = 0 then pure () else _) _ _ _
          split
          · trivial
          · -- what is found are rows of the table
            refine publishEvents_passes fun event hmem => hinv event ?_
            exact (List.mem_filter.mp (hordered.1.subset (List.mem_of_mem_take hmem))).1
      · refine Contract.wp_call fun _ _ _ => ⟨trivial, fun _ r' _ _ => ?_⟩
        cases r' <;> trivial

end Ticks

end LiorParisWallet.Outbox
