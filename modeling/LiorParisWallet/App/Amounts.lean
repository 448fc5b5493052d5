import LiorParisWallet.App.Completeness
import LiorParisWallet.Money.Deposits
import LiorParisWallet.Shared.ExactCurrency

/-!
# What the mails say about the money

An amount passes from the request into the ledger and the event, is divided by 100 in doubles and put into a text.
Whoever reads the mail reads the amount that was asked for.
-/

namespace LiorParisWallet.App

open Async Relational NotificationsService

variable {registry : PaymentGatewayRegistry} {s : App}

/-- The payload has a positive amount and a supported currency. -/
structure Priced (ev : OutboxEvent) (amount : ℤ) (currency : SupportedCurrency) : Prop where
  positive : 1 ≤ amount
  amount : ev.payloadJson.lookup "amount" = some (.number amount)
  currency : ev.payloadJson.lookup "currency" = some (.string currency.value)

/-- An event about money has an amount and a currency that the pipes have let through. -/
theorem priced_of_reachable {s : State} (h : LiorParisWallet.Reachable registry s) :
    ∀ ev ∈ s.world.db.outbox, Outbox.AboutMoney ev.eventName → ∃ amount currency, Priced ev amount currency := by
  obtain ⟨w, hw, hr⟩ := h
  induction hr with
  | refl =>
    intro ev hev hmoney
    obtain ⟨hdeposit, htransfer, -⟩ := hw.outbox ev hev
    rcases hmoney with hname | hname
    · exact absurd hname hdeposit
    · exact absurd hname htransfer
  | @tail s₁ s₂ l hr _ hn ih =>
    cases l with
    | start req =>
      cases hn
      exact ih
    | step i ω =>
      have hs₁ : LiorParisWallet.Reachable registry s₁ := ⟨w, hw, hr⟩
      obtain ⟨c, o, next, r, w', hc, hp, -⟩ := Server.step_cases hn
      obtain ⟨c', hc', hpre, he⟩ := hs₁.effect hn (System.awaits_eq hc hp)
      intro ev hev hmoney
      have hprepared : Prepared c.request c.answers o := hs₁.prepared (List.mem_of_getElem? hc) (by rw [hp]; rfl)
      generalize s₂.world = world at he hev
      cases he with
      | settleTransaction fresh wallet_mem enough entry event =>
        rcases (Table.mem_insert? event).mp hev with hold | rfl
        · exact ih ev hold hmoney
        · -- the row that was read is one that a request has made
          obtain ⟨t, ht, hcore, -⟩ := hpre.known
          obtain ⟨_, _, input, hby⟩ := hs₁.requested t ht
          obtain ⟨userEmail, now, hdata⟩ := hpre.payload
          rw [← Transaction.core_amount hcore, hby.amount, ← Transaction.core_currency hcore, hby.currency] at hdata
          rw [hdata]
          exact ⟨input.amount, input.currency, input.amount_min, rfl, rfl⟩
      | executeTransfer fresh sender_mem receiver_mem enough debit credit event =>
        rcases (Table.mem_insert? event).mp hev with hold | rfl
        · exact ih ev hold hmoney
        · obtain ⟨_, _, input, _, _, _, _, _, -, -, -, -, -, hdata⟩ := hprepared
          rw [hdata]
          exact ⟨input.amount, input.currency, input.amount_min, rfl, rfl⟩
      | _ => exact ih ev hev hmoney

/-- The text of a mail about an event with this name and payload, in which an amount is written as `formatted`. -/
inductive Wording (payload : Record) (formatted : String) : String → String → Prop where
  | deposit : Wording payload formatted DomainEventName.depositSucceeded.value
      ("Your deposit of " ++ formatted ++ " has been received.")
  | sent {toUserName : String} : payload.lookup "toUserName" = some (.string toUserName) →
      Wording payload formatted DomainEventName.transferSent.value
        ("Your transfer of " ++ formatted ++ " to " ++ toUserName ++ " is complete.")
  | received {fromUserName : String} : payload.lookup "fromUserName" = some (.string fromUserName) →
      Wording payload formatted DomainEventName.transferReceived.value
        ("You received " ++ formatted ++ " from " ++ fromUserName ++ ".")

/-- The mail goes to the recipient that the payload names, and its text is the one for the event.  Where that has an
    amount it has this one, with two decimals and the code of the currency, and it can be read there. -/
structure States (x : Queues.Sending) (amount : ℤ) (currency recipient text : String) : Prop where
  recipientEmail : getRecipientEmail x.eventName x.payload = some (.string recipient)
  formatted : formatCurrency (some (.number amount)) (some (.string currency)) =
    .ok (exactMajor amount ++ " " ++ currency)
  read : readAmount (exactMajor amount ++ " " ++ currency) = some (amount, currency)
  wording : Wording x.payload (exactMajor amount ++ " " ++ currency) x.eventName text
  sent : ∀ service : NotificationsService, service.send x.eventName x.payload =
    .ok (service.dispatch recipient (buildSubject x.eventName) text)

theorem states_of_message {x : Queues.Sending} {ev : OutboxEvent} {recipient code : String} {amount cents : ℤ}
    {currency : SupportedCurrency} {text : String → String}
    (hmessage : Message x.eventName x.payload recipient cents code text) (hpayload : x.payload = ev.payloadJson)
    (hpriced : Priced ev amount currency)
    (hwording : ∀ formatted, Wording x.payload formatted x.eventName (text formatted))
    (hsmall : amount < formattedBelow) :
    States x amount currency.value recipient (text (exactMajor amount ++ " " ++ currency.value)) := by
  have hamount : some (Value.number cents) = some (.number amount) := by
    rw [← hmessage.payloadAmount, hpayload, hpriced.amount]
  have hcode : some (Value.string code) = some (.string currency.value) := by
    rw [← hmessage.payloadCurrency, hpayload, hpriced.currency]
  cases hamount
  cases hcode
  have hbelow : amount.natAbs < formattedBelow := by
    have hpositive := hpriced.positive
    omega
  have hexact := formatCurrency_exact hbelow currency
  obtain ⟨formatted, hformat, hsend⟩ := hmessage.sent
  obtain rfl := Except.ok.inj (hformat.symm.trans hexact)
  exact ⟨hmessage.recipientEmail, hexact, readAmount_exact amount currency.value, hwording _, hsend⟩

/-- The event has the names of both users. -/
theorem names_of_committed {s : State} {ev : OutboxEvent} {t : Transfer} {fromUserEmail : String}
    {fromUser toUser : Users} {debit credit : LedgerEntry}
    (h : TransferCommitted registry s ev t fromUserEmail fromUser toUser debit credit) :
    ev.payloadJson.lookup "toUserName" = some (.string toUser.name) ∧
      ev.payloadJson.lookup "fromUserName" = some (.string fromUser.name) := by
  obtain ⟨now, hpayload⟩ := h.payload
  rw [hpayload]
  exact ⟨rfl, rfl⟩

/-- Every notification states the amount and the currency of its event, if the amount is below
    70 368 744 177 664 of a currency. -/
theorem mails_state_amounts (h : Reachable registry s) : ∀ x ∈ s.queues.world.sendings,
    ∃ ev ∈ s.money.world.db.outbox, x.payload = ev.payloadJson ∧ ∃ amount currency, Priced ev amount currency ∧
      (amount < formattedBelow → ∃ recipient text, States x amount currency.value recipient text) := by
  have htraced : s.Traced fun name payload =>
      ∃ ev ∈ s.money.world.db.outbox, ev.eventName = name ∧ ev.payloadJson = payload :=
    h.traced fun ev hev => ⟨ev, hev, rfl, rfl⟩
  intro x hx
  obtain ⟨name, ⟨ev, hev, rfl, hpayload⟩, hdue⟩ := htraced.queues.inv.sendings x hx
  have hmoney : Outbox.AboutMoney ev.eventName := by
    rcases mem_notificationsFor hdue with ⟨hname, -⟩ | ⟨hname, -⟩
    · exact .inl hname
    · exact .inr hname
  obtain ⟨amount, currency, hpriced⟩ := priced_of_reachable h.money ev hev hmoney
  refine ⟨ev, hev, hpayload.symm, amount, currency, hpriced, fun hsmall => ?_⟩
  -- what was committed with the event says which of the three texts it is
  obtain ⟨ev', -, hpayload', hjustified⟩ := justified_of_sourced hev (h.money.sourced ev hev) hdue
  rw [hpayload] at hpayload' hjustified
  rcases hjustified with ⟨_, user, entry, -, hname, hmessage⟩ |
    ⟨_, fromUserEmail, fromUser, toUser, debit, credit, hcommitted, ⟨hname, hmessage⟩ | ⟨hname, hmessage⟩⟩
  · refine ⟨_, _, states_of_message hmessage hpayload.symm hpriced (fun formatted => ?_) hsmall⟩
    rw [hname]
    exact .deposit
  · refine ⟨_, _, states_of_message hmessage hpayload.symm hpriced (fun formatted => ?_) hsmall⟩
    rw [hname]
    exact .sent (by rw [hpayload', (names_of_committed hcommitted).1])
  · refine ⟨_, _, states_of_message hmessage hpayload.symm hpriced (fun formatted => ?_) hsmall⟩
    rw [hname]
    exact .received (by rw [hpayload', (names_of_committed hcommitted).2])

/-- The mails about Ada's 50 and 20 cents. -/
theorem mails_state_amounts_mailing :
    ∃ s, run cardPayments mailing (init (World.fresh adaAndBob)) = some s ∧
      s.queues.world.sendings.map (fun x => buildMessage x.eventName x.payload) =
        [.ok "Your deposit of 0.50 EUR has been received.", .ok "Your transfer of 0.20 EUR to Bob is complete.",
          .ok "Your transfer of 0.20 EUR to Bob is complete.", .ok "You received 0.20 EUR from Ada."] ∧
      ∀ x ∈ s.queues.world.sendings, ∃ ev ∈ s.money.world.db.outbox, x.payload = ev.payloadJson ∧
        ∃ amount currency, Priced ev amount currency ∧
          (amount < formattedBelow → ∃ recipient text, States x amount currency.value recipient text) := by
  have hruns : (run cardPayments mailing (init (World.fresh adaAndBob))).map (fun s =>
      s.queues.world.sendings.map fun x => buildMessage x.eventName x.payload) =
        some [.ok "Your deposit of 0.50 EUR has been received.", .ok "Your transfer of 0.20 EUR to Bob is complete.",
          .ok "Your transfer of 0.20 EUR to Bob is complete.", .ok "You received 0.20 EUR from Ada."] := by
    decide +kernel
  obtain ⟨s, hs, htexts⟩ := Option.map_eq_some_iff.mp hruns
  have hinit : Reachable cardPayments (init (World.fresh adaAndBob)) := .init (World.fresh_initial adaAndBob)
  exact ⟨s, hs, htexts, mails_state_amounts (hinit.run hs)⟩

end LiorParisWallet.App
