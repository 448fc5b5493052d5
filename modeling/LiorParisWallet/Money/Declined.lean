import LiorParisWallet.Async.Interference
import LiorParisWallet.Server.Requests
import LiorParisWallet.Money.Effects

/-!
# A deposit that fails

`deposit` stores its row before it looks for a gateway and asks it.  Of the exits that follow, only one
marks the row as failed.  Which exit is taken depends on the payment method and on what the gateway does.
-/

namespace LiorParisWallet

open Async Relational

/-- The operation asks the payment provider; all others go to the store. -/
def Op.asksProvider : Op → Bool
  | .processDeposit _ _ _ _ _ => true
  | _ => false

/-- What an operation of call `i` does where the store's operations succeed and the gateway answers, or
    throws, like this. -/
def Succeeding (gateway : Except Err PaymentGatewayResult) (i : ℕ) (o : Op) (w : World)
    (r : Except Err (Ans o)) (w' : World) : Prop :=
  (∃ ω : Choice, ω.gateway = gateway ∧ perform i o ω w = some (r, w')) ∧
    (o.asksProvider = false → ∃ a, r = .ok a)

/-- Nothing but the table of transactions has changed, and that by at most one new row. -/
structure AtMostOneRow (w w' : World) (row : Transaction → Prop) : Prop where
  transactions : w'.db.transactions = w.db.transactions ∨
    ∃ t, row t ∧ w'.db.transactions.rows = w.db.transactions.rows ++ [t]
  wallets : w'.db.wallets = w.db.wallets
  ledger : w'.db.ledger = w.db.ledger
  outbox : w'.db.outbox = w.db.outbox

/-- If the call has thrown, it has created no row, or the row that it created is marked as failed. -/
def LeavesNothingOpen (w : World) (r : Except Err DepositResult) (w' : World) : Prop :=
  ∀ e, r = .error e → AtMostOneRow w w' fun t => t.status = .failed ∧ t.failureReason ≠ none

/-- The key is taken or the wallet is missing, so no row is created; or a gateway takes the method and
    answers, and it declines or leaves the settlement to the webhook. -/
def Answerable (registry : PaymentGatewayRegistry) (gateway : Except Err PaymentGatewayResult) (w : World)
    (userId : String) (input : DepositDto) : Prop :=
  (w.db.findTransactionByIdempotencyKey input.idempotencyKey).isSome = true ∨
    w.db.findByUserIdAndCurrency userId input.currency.value = none ∨
    (∃ taken, registry.resolve input.paymentMethod = .ok taken) ∧
      ∃ answer, gateway = .ok answer ∧ (answer.success = false ∨ answer.requiresWebhook = true)

section Operations

variable {gateway : Except Err PaymentGatewayResult} {i : ℕ} {w w' : World} {o : Op}

theorem succeeding_error {e : Err} (ho : o.asksProvider = false)
    (h : Succeeding gateway i o w (.error e) w') : False := by
  obtain ⟨a, ha⟩ := h.2 ho
  cases ha

theorem succeeding_createTransaction {data : TransactionData} {t : Transaction}
    (h : Succeeding gateway i (.createTransaction data) w (.ok t) w') : ∃ transactions id,
      t = data.create id ∧ w.db.transactions.insert? t = some transactions ∧
        w'.db = { w.db with transactions := transactions } := by
  obtain ⟨⟨ω, -, hp⟩, -⟩ := h
  rcases insert_eq_some hp with ⟨-, hr⟩ | ⟨a, db, hr, ha, -, rfl⟩
  · exact absurd rfl (hr t)
  · cases ha
    obtain ⟨rfl, transactions, hinsert, rfl⟩ := createTransaction_eq_ok hr
    exact ⟨transactions, ω.uuid, rfl, hinsert, rfl⟩

theorem succeeding_processDeposit {amount : ℤ} {currency paymentMethod transactionId userId : String}
    {r : Except Err (Ans (.processDeposit amount currency paymentMethod transactionId userId))}
    (h : Succeeding gateway i (.processDeposit amount currency paymentMethod transactionId userId) w r
      w') : r = gateway ∧ w'.db = w.db := by
  obtain ⟨⟨ω, rfl, hp⟩, -⟩ := h
  obtain ⟨hr, -, rfl⟩ := pay_eq_some hp
  exact ⟨hr, rfl⟩

theorem succeeding_write {a : Ans o} {b : Ans o} {w₁ : World}
    (hperform : ∀ ω, perform i o ω w = w.write ω b w₁) (h : Succeeding gateway i o w (.ok a) w') :
    w' = w₁ := by
  obtain ⟨⟨ω, -, hp⟩, -⟩ := h
  rw [hperform] at hp
  rcases write_eq_some hp with ⟨-, hr⟩ | ⟨rfl, -⟩
  · exact absurd rfl (hr a)
  · rfl

/-- The row that was inserted last is written. -/
theorem update_last {t : Transaction} {transactions transactions' : Table Transaction}
    (hinsert : transactions.insert? t = some transactions') (f : Transaction → Transaction)
    (hf : ∀ a b, Entity.clash (f a) b = Entity.clash a b) :
    (transactions'.update (·.id == t.id) f hf).rows = transactions.rows ++ [f t] :=
  Table.rows_update_last (p := (·.id == t.id)) hinsert (beq_self_eq_true _)
    (fun _ hid => by simp only [Entity.clash, hid, Bool.true_or]) f hf

end Operations

section Exits

variable {registry : PaymentGatewayRegistry} {gateway : Except Err PaymentGatewayResult} {i : ℕ}
variable {w₀ w w' : World} {t : Transaction} {transactions : Table Transaction}

/-- A pending row is open. -/
theorem not_leavesNothingOpen {e : Err} (hpending : t.status = .pending)
    (hrows : w'.db.transactions.rows = w.db.transactions.rows ++ [t]) :
    ¬ LeavesNothingOpen w (.error e) w' := by
  intro h
  rcases (h e rfl).transactions with hsame | ⟨t', ⟨hfailed, -⟩, hrows'⟩
  · rw [hsame] at hrows
    simp at hrows
  · have : t = t' := by simpa using hrows.symm.trans hrows'
    rw [← this, hpending] at hfailed
    cases hfailed

/-- From the gateway's answer on, a row is left open when the gateway has neither declined nor announced a
    webhook. -/
theorem wp_afterGateway (answer : PaymentGatewayResult) (hpending : t.status = .pending)
    (hinsert : w₀.db.transactions.insert? t = some transactions)
    (hdb : w.db = { w₀.db with transactions := transactions }) :
    (afterGateway t answer).wp (Succeeding gateway i) Eq (fun r w' => LeavesNothingOpen w₀ r w' ↔
      answer.success = false ∨ answer.requiresWebhook = true) w := by
  have hrows := (Table.insert?_eq_some hinsert).2
  unfold afterGateway
  cases hsuccess : answer.success with
  | false =>
    -- the provider has declined: the new row is marked as failed before the call throws
    refine Program.wp_await_alone (fun a w₁ h => ?_) fun e w₁ h => (succeeding_error rfl h).elim
    rw [succeeding_write (fun _ => rfl) h]
    rintro _ rfl
    refine iff_of_true (fun e _ => ?_) (.inl rfl)
    simp only [hdb]
    exact ⟨.inr ⟨{ t with
        status := .failed
        failureReason := some (answer.failureReason.getD "Payment provider declined") },
      ⟨rfl, Option.some_ne_none _⟩, update_last hinsert (fun t => { t with
        status := .failed
        failureReason := some (answer.failureReason.getD "Payment provider declined") })
      fun _ _ => rfl⟩, rfl, rfl, rfl⟩
  | true =>
    simp only [Bool.not_true, Bool.false_eq_true, if_false, reduceCtorEq, false_or]
    -- the last exit, in the world in which the row may have its reference
    have hexit : ∀ (t' : Transaction) (w₁ : World), t'.status = .pending →
        w₁.db.transactions.rows = w₀.db.transactions.rows ++ [t'] →
        (if answer.requiresWebhook then pure { checkoutUrl := answer.checkoutUrl }
          else throw (.badRequest "No settlement path available for gateway") :
            Promise DepositResult).wp (Succeeding gateway i) Eq
          (fun r w' => LeavesNothingOpen w₀ r w' ↔ answer.requiresWebhook = true) w₁ := by
      intro t' w₁ hpending' hrows'
      split
      · -- the webhook is still to come, and the call returns
        rename_i hwebhook
        rintro _ rfl
        exact iff_of_true (fun e he => by cases he) hwebhook
      · rename_i hwebhook
        rintro _ rfl
        exact iff_of_false (not_leavesNothingOpen hpending' hrows') hwebhook
    cases answer.storedRef with
    | none => exact hexit t w hpending (by rw [hdb]; exact hrows)
    | some ref =>
      refine Program.wp_await_alone (fun a w₁ h => ?_) fun e w₁ h => (succeeding_error rfl h).elim
      rw [succeeding_write (fun _ => rfl) h]
      refine hexit { t with providerRef := some ref } _ hpending ?_
      simp only [hdb]
      exact update_last hinsert (fun t => { t with providerRef := some ref }) fun _ _ => rfl

theorem wp_deposit (userId : String) (input : DepositDto) :
    (deposit registry userId input).wp (Succeeding gateway i) Eq (fun r w' =>
      LeavesNothingOpen w r w' ↔ Answerable registry gateway w userId input) w := by
  unfold deposit
  refine Program.wp_await_alone (fun existing w₁ h => ?_) fun e w₁ h => (succeeding_error rfl h).elim
  obtain ⟨⟨ω, -, hp⟩, -⟩ := h
  obtain ⟨rfl, hexisting⟩ := read_eq_some hp
  obtain rfl := hexisting _ rfl
  unfold Answerable
  cases hkey : w₁.db.findTransactionByIdempotencyKey input.idempotencyKey with
  | some t =>
    -- a duplicate does not throw
    rintro _ rfl
    exact iff_of_true (fun e he => by cases he) (.inl rfl)
  | none =>
    refine Program.wp_await_alone (fun wallet w₂ h => ?_) fun e w₂ h => (succeeding_error rfl h).elim
    obtain ⟨⟨ω, -, hp⟩, -⟩ := h
    obtain ⟨rfl, hwallet⟩ := read_eq_some hp
    obtain rfl := hwallet _ rfl
    cases hwallet : w₂.db.findByUserIdAndCurrency userId input.currency.value with
    | none =>
      -- without a wallet nothing is written
      rintro _ rfl
      exact iff_of_true (fun e _ => ⟨.inl rfl, rfl, rfl, rfl⟩) (.inr (.inl rfl))
    | some wallet =>
      simp only [Option.isSome_none, Bool.false_eq_true, reduceCtorEq, false_or, Option.isNone_some,
        if_false]
      refine Program.wp_await_alone (fun t w₃ h => ?_) fun e w₃ h => (succeeding_error rfl h).elim
      obtain ⟨transactions, id, ht, hinsert, hdb⟩ := succeeding_createTransaction h
      have hpending : t.status = .pending := by rw [ht]; rfl
      have hrows : w₃.db.transactions.rows = w₂.db.transactions.rows ++ [t] := by
        rw [hdb]
        exact (Table.insert?_eq_some hinsert).2
      cases hresolve : registry.resolve input.paymentMethod with
      | error e =>
        -- the row was created before the gateway is looked up, and nothing marks it
        rintro _ rfl
        exact iff_of_false (not_leavesNothingOpen hpending hrows) fun ⟨⟨_, h⟩, _⟩ => by cases h
      | ok taken =>
        refine Program.wp_await_alone (fun answer w₄ h => ?_) fun e w₄ h => ?_
        · obtain ⟨rfl, hdb'⟩ := succeeding_processDeposit h
          refine Program.wp_mono (wp_afterGateway answer hpending hinsert (hdb'.trans hdb)) fun r w' h => ?_
          refine h.trans ⟨fun h => ⟨⟨taken, rfl⟩, answer, rfl, h⟩, fun ⟨_, answer', heq, h⟩ => ?_⟩
          cases heq
          exact h
        · -- the gateway has thrown, and no `catch` marks the row
          obtain ⟨rfl, hdb'⟩ := succeeding_processDeposit h
          refine iff_of_false (not_leavesNothingOpen hpending (by rw [hdb']; exact hrows)) ?_
          rintro ⟨-, answer, heq, -⟩
          cases heq

end Exits

/-- For every state of the store, every input and every behaviour of the gateway: a deposit that throws
    leaves no open transaction behind if and only if it creates none, or its gateway is registered,
    answers, and declines or announces a webhook. -/
theorem deposit_leaves_nothing_open_iff (registry : PaymentGatewayRegistry)
    (gateway : Except Err PaymentGatewayResult) (i : ℕ) (w w' : World) (userId : String)
    (input : DepositDto) (r : Except Err DepositResult)
    (h : (deposit registry userId input).Runs (Succeeding gateway i) w r w') :
    LeavesNothingOpen w r w' ↔ Answerable registry gateway w userId input :=
  Program.wp_eq_iff.mp (wp_deposit userId input) r w' h

/-! ## Two deposits of Ada -/

/-- Ada has a wallet without money. -/
def emptyWallet : World :=
  { World.fresh adaAndBob with
    db := { (World.fresh adaAndBob).db with wallets := ⟨[⟨"w1", "u1", 0, "EUR", "ada-0000"⟩], by decide⟩ }
    issued := [("w1", 0)] }

/-- An operation that gets through. -/
theorem succeeding_of_perform {gateway : Except Err PaymentGatewayResult} {i : ℕ} {o : Op} {a : Ans o}
    {w w' : World} (ω : Choice) (hω : ω.gateway = gateway) (h : perform i o ω w = some (.ok a, w')) :
    Succeeding gateway i o w (.ok a) w' :=
  ⟨⟨ω, hω, h⟩, fun _ => ⟨a, rfl⟩⟩

def declined : PaymentGatewayResult := { success := false, failureReason := some "Card declined" }

/-- The provider declines, and the row says so. -/
theorem deposit_leaves_nothing_open_declined : ∃ e w',
    (deposit cardPayments "u1" topup).Runs (Succeeding (.ok declined) 1) emptyWallet (.error e) w' ∧
      LeavesNothingOpen emptyWallet (.error e) w' := by
  have hrun : (deposit cardPayments "u1" topup).Runs (Succeeding (.ok declined) 1) emptyWallet
      (.error (.badRequest "Deposit declined by payment provider")) _ :=
    .await (succeeding_of_perform { gateway := .ok declined } rfl rfl) <|
    .await (succeeding_of_perform { gateway := .ok declined } rfl rfl) <|
    .await (succeeding_of_perform { gateway := .ok declined, uuid := "t1" } rfl rfl) <|
    .await (succeeding_of_perform { gateway := .ok declined } rfl rfl) <|
    .await (succeeding_of_perform { gateway := .ok declined } rfl rfl) <| .throw _ _
  refine ⟨_, _, hrun, (deposit_leaves_nothing_open_iff _ _ _ _ _ _ _ _ hrun).mpr (.inr (.inr ?_))⟩
  exact ⟨⟨stripePaymentGateway, rfl⟩, declined, rfl, .inl rfl⟩

/-- No gateway is registered for this method. -/
def byTransfer : DepositDto :=
  { topup with
    paymentMethod := "sepa"
    paymentMethod_notEmpty := by decide }

/-- The row of a deposit whose payment method is not supported stays pending. -/
theorem unsupported_stays_open : ∃ e w',
    (deposit cardPayments "u1" byTransfer).Runs (Succeeding (.error .unavailable) 1) emptyWallet
      (.error e) w' ∧ w'.db.transactions.rows.map (·.status) = [.pending] ∧
      ¬ LeavesNothingOpen emptyWallet (.error e) w' := by
  have hrun : (deposit cardPayments "u1" byTransfer).Runs (Succeeding (.error .unavailable) 1)
      emptyWallet (.error (.badRequest "Unsupported payment method: sepa")) _ :=
    .await (succeeding_of_perform {} rfl rfl) <| .await (succeeding_of_perform {} rfl rfl) <|
    .await (succeeding_of_perform { uuid := "t1" } rfl rfl) <| .throw _ _
  refine ⟨_, _, hrun, rfl, ?_⟩
  exact not_leavesNothingOpen (t := (⟨"u1", .deposit, 50, "EUR", "sepa", "topup"⟩ :
    TransactionData).create "t1") rfl rfl

end LiorParisWallet
