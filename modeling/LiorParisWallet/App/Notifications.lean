import LiorParisWallet.App.System
import LiorParisWallet.Money.Commits
import LiorParisWallet.Queues.Workers
import LiorParisWallet.Services.Notifications

/-!
# Who is notified of what

A notification has come a long way: the payload was built before the commit, published, routed under other names,
retried and buried.  Every one that is sent is about money that was moved, and goes to somebody whom it concerns.
-/

namespace LiorParisWallet.App

open Async Relational NotificationsService

variable {registry : PaymentGatewayRegistry} {s : App}

/-! ## The messages -/

theorem message_deposit (walletId userId : String) (amount : ℤ) (currency userEmail : String) (now : ℕ) :
    Message DomainEventName.depositSucceeded.value (buildOutboxPayload .depositSucceeded walletId userId amount
      currency (some userEmail) now).payloadJson userEmail amount currency
      fun formatted => "Your deposit of " ++ formatted ++ " has been received." := by
  refine message_of_text rfl rfl rfl fun formatted h => ?_
  rw [buildMessage, h]
  rfl

section Transfers

variable (transferId fromUserId toUserId : String) (amount : ℤ) (currency fromUserEmail fromUserName : String)
variable (toUser : Users) (now : ℕ)

theorem message_sent :
    Message DomainEventName.transferSent.value (transferOutboxPayload transferId fromUserId toUserId amount currency
      fromUserEmail (some fromUserName) (some toUser) now).payloadJson fromUserEmail amount currency
      fun formatted => "Your transfer of " ++ formatted ++ " to " ++ toUser.name ++ " is complete." := by
  refine message_of_text rfl rfl rfl fun formatted h => ?_
  rw [buildMessage, h]
  rfl

theorem message_received :
    Message DomainEventName.transferReceived.value (transferOutboxPayload transferId fromUserId toUserId amount
      currency fromUserEmail (some fromUserName) (some toUser) now).payloadJson toUser.email amount currency
      fun formatted => "You received " ++ formatted ++ " from " ++ fromUserName ++ "." := by
  refine message_of_text rfl rfl rfl fun formatted h => ?_
  rw [buildMessage, h]
  rfl

end Transfers

/-! ## Every notification -/

/-- The notification has the payload of an event that was committed with a deposit or a transfer, and tells its
    user, or each of the two, what has happened. -/
def Justified (registry : PaymentGatewayRegistry) (s : State) (eventName : String) (payload : Record) : Prop :=
  ∃ ev ∈ s.world.db.outbox, payload = ev.payloadJson ∧
    ((∃ t user entry, DepositCommitted registry s ev t user entry ∧
      eventName = DomainEventName.depositSucceeded.value ∧
      Message eventName payload user.email entry.amount entry.currency
        fun formatted => "Your deposit of " ++ formatted ++ " has been received.") ∨
    ∃ t fromUserEmail fromUser toUser debit credit,
      TransferCommitted registry s ev t fromUserEmail fromUser toUser debit credit ∧
      (eventName = DomainEventName.transferSent.value ∧
        Message eventName payload fromUserEmail debit.amount debit.currency
          (fun formatted => "Your transfer of " ++ formatted ++ " to " ++ toUser.name ++ " is complete.") ∨
      eventName = DomainEventName.transferReceived.value ∧
        Message eventName payload toUser.email credit.amount credit.currency
          (fun formatted => "You received " ++ formatted ++ " from " ++ fromUser.name ++ ".")))

/-- Notifications are due for deposits and transfers only. -/
theorem mem_notificationsFor {name : DomainEventName} {eventName : String}
    (h : eventName ∈ Queues.notificationsFor name.value) :
    (name = .depositSucceeded ∧ eventName = DomainEventName.depositSucceeded.value) ∨
      name = .transferCompleted ∧ (eventName = DomainEventName.transferSent.value ∨
        eventName = DomainEventName.transferReceived.value) := by
  cases name with
  | depositSucceeded =>
    rw [Queues.notificationsFor_deposit] at h
    exact .inl ⟨rfl, List.mem_singleton.mp h⟩
  | transferCompleted =>
    rw [Queues.notificationsFor_transfer] at h
    exact .inr ⟨rfl, by simpa using h⟩
  | _ => exact absurd h (by simp [Queues.notificationsFor, DomainEventName.value])

/-- What is due for an event that announces money. -/
theorem justified_of_sourced {s : State} {ev : OutboxEvent} (hev : ev ∈ s.world.db.outbox)
    (hsource : Sourced registry s ev) {eventName : String}
    (hdue : eventName ∈ Queues.notificationsFor ev.eventName.value) :
    Justified registry s eventName ev.payloadJson := by
  refine ⟨ev, hev, rfl, ?_⟩
  rcases mem_notificationsFor hdue with ⟨hname, rfl⟩ | ⟨hname, hside⟩ <;>
    rcases hsource with ⟨t, user, entry, h⟩ | ⟨t, fromUserEmail, fromUser, toUser, debit, credit, h⟩ | ⟨hd, ht⟩
  -- the name of the event and its source agree in two of the six cases
  · obtain ⟨now, hpayload⟩ := h.payload
    rw [hpayload]
    exact .inl ⟨t, user, entry, h, rfl, message_deposit ..⟩
  · cases hname.symm.trans h.name
  · exact absurd hname hd
  · cases hname.symm.trans h.name
  · obtain ⟨now, hpayload⟩ := h.payload
    refine .inr ⟨t, fromUserEmail, fromUser, toUser, debit, credit, h, ?_⟩
    rw [hpayload]
    rcases hside with rfl | rfl
    · exact .inl ⟨rfl, message_sent ..⟩
    · refine .inr ⟨rfl, ?_⟩
      -- the two entries are of one amount
      rw [← h.amount, ← h.currency]
      exact message_received ..
  · exact absurd hname ht

/-- Every notification is about a committed event and goes to the right person, whatever fails, is repeated or has
    been a dead letter. -/
theorem notifications_justified (h : Reachable registry s) :
    ∀ x ∈ s.queues.world.sendings, Justified registry s.money x.eventName x.payload := by
  have htraced : s.Traced fun name payload =>
      ∃ ev ∈ s.money.world.db.outbox, ev.eventName = name ∧ ev.payloadJson = payload :=
    h.traced fun ev hev => ⟨ev, hev, rfl, rfl⟩
  intro x hx
  obtain ⟨name, ⟨ev, hev, rfl, hpayload⟩, hdue⟩ := htraced.queues.inv.sendings x hx
  rw [← hpayload]
  exact justified_of_sourced hev (h.money.sourced ev hev) hdue

/-- The events of the everyday run. -/
def posted : List OutboxEvent :=
  (((server cardPayments).run everyday ⟨World.fresh adaAndBob, []⟩).map (·.world.db.outbox.rows)).getD []

/-- The worker of the call `i` makes an attempt on the job. -/
def attempt (i : ℕ) (q : Queues.QueueName) (id steps : ℕ) : List Action :=
  .work q id :: List.replicate steps (.worker i {} false)

/-- The events of the everyday run are published, the first of them by an `add` that is reported as failed, and
    the first mail to Ada about her transfer does not get through. -/
def mailing : List Action :=
  everyday.map .money ++
    [.tick, .publisher 0 {} false, .publisher 0 { order := posted } false,
      .publisher 0 { fault := some .unavailable } true] ++ List.replicate 3 (.publisher 0 {} false) ++
    attempt 0 .domainEvents 0 3 ++ attempt 1 .domainEvents 1 4 ++ attempt 2 .notifications 0 3 ++
    [.work .notifications 1, .worker 3 {} false, .worker 3 { fault := some ⟨"503"⟩ } false, .worker 3 {} false] ++
    attempt 4 .notifications 1 3 ++ attempt 5 .notifications 2 3

theorem notifications_justified_mailing : ∃ s, run cardPayments mailing (init (World.fresh adaAndBob)) = some s ∧
    s.queues.world.sendings.map (fun x => (x.eventName, x.ok)) = [("DepositSucceeded", true), ("TransferSent", false),
      ("TransferSent", true), ("TransferReceived", true)] ∧
    ∀ x ∈ s.queues.world.sendings, Justified cardPayments s.money x.eventName x.payload := by
  have hruns : (run cardPayments mailing (init (World.fresh adaAndBob))).map (fun s =>
      s.queues.world.sendings.map fun x => (x.eventName, x.ok)) = some [("DepositSucceeded", true),
        ("TransferSent", false), ("TransferSent", true), ("TransferReceived", true)] := by decide +kernel
  obtain ⟨s, hs, hsendings⟩ := Option.map_eq_some_iff.mp hruns
  have hinit : Reachable cardPayments (init (World.fresh adaAndBob)) := .init (World.fresh_initial adaAndBob)
  exact ⟨s, hs, hsendings, notifications_justified (hinit.run hs)⟩

end LiorParisWallet.App
