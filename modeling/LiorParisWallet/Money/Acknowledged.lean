import LiorParisWallet.Money.Deposits

/-!
# Acknowledged payments

What it means that the webhook has answered to a payment.  The handler returns early in three places;
two of them cannot be reached for a session that a deposit has returned, and the third is the one where
the user's wallet is gone.
-/

namespace LiorParisWallet

open Async Relational

variable {registry : PaymentGatewayRegistry} {s s₁ : State}

/-- A transaction with a stored reference fails only at somebody's request. -/
theorem failed_by_effect {w w' : World} {req : Request} {i : ℕ} {o : Op}
    (hpre : Guarantee req i o w) (he : Effect i w o w') {t' : Transaction}
    (ht' : t' ∈ w'.db.transactions) {ref : String} (href : t'.providerRef = some ref)
    (hfailed : t'.status = .failed) : req.failsRef? = some ref ∨
      ∃ t ∈ w.db.transactions, t.providerRef = some ref ∧ t.status = .failed := by
  cases he with
  | createTransaction fresh inserted =>
    rcases (Table.mem_insert? inserted).mp ht' with ht' | rfl
    · exact .inr ⟨t', ht', href, hfailed⟩
    · cases href
  | updateTransactionProviderRef id ref' =>
    obtain ⟨t, ht, rfl⟩ := mem_updateTransactionProviderRef.mp ht'
    obtain ⟨t₀, hown, hpending, rfl, -⟩ := hpre
    by_cases hid : t.id = t₀.id
    · -- the reference is stored while the transaction is pending
      rw [if_pos (beq_iff_eq.mpr hid)] at hfailed
      obtain rfl := Transaction.eq_of_id ht hown.stored hid
      cases hpending.symm.trans hfailed
    · rw [if_neg (by simpa using hid)] at href hfailed
      exact .inr ⟨t, ht, href, hfailed⟩
  | failTransaction t₀ reason =>
    obtain ⟨t, ht, rfl⟩ := mem_failTransaction.mp ht'
    by_cases hid : t.id = t₀.id
    · rw [if_pos (beq_iff_eq.mpr hid)] at href
      rcases hpre with ⟨hown, -⟩ | ⟨⟨t₁, ht₁, hcore, hknown⟩, ref₀, href₀, hreq⟩
      · -- a deposit that fails its own transaction has stored no reference
        obtain rfl := Transaction.eq_of_id ht hown.stored hid
        cases hown.unreferenced.symm.trans href
      · obtain rfl := Transaction.eq_of_id ht ht₁ (hid.trans (Transaction.core_id hcore).symm)
        rw [Option.some.inj ((hknown ref₀ href₀).symm.trans href)] at hreq
        exact .inl hreq
    · rw [if_neg (by simpa using hid)] at href hfailed
      exact .inr ⟨t, ht, href, hfailed⟩
  | settleTransaction fresh wallet_mem enough entry event =>
    obtain ⟨t, ht, rfl⟩ := mem_completeTransaction.mp ht'
    split at hfailed
    · cases hfailed
    · rename_i hid
      rw [if_neg hid] at href
      exact .inr ⟨t, ht, href, hfailed⟩
  | _ => exact .inr ⟨t', ht', href, hfailed⟩

theorem Reachable.failed_by (h : Reachable registry s) : ∀ t ∈ s.world.db.transactions,
    ∀ ref, t.providerRef = some ref → t.status = .failed →
      ∃ c ∈ s.calls, c.request.failsRef? = some ref := by
  have hasked : ∀ t ∈ s.world.db.transactions, ∀ ref, t.providerRef = some ref → t.status = .failed →
      ∃ i req, Asked s i req ∧ req.failsRef? = some ref := by
    refine h.induction_asked (fun w R => ∀ t ∈ w.db.transactions, ∀ ref, t.providerRef = some ref →
      t.status = .failed → ∃ i req, R i req ∧ req.failsRef? = some ref) ?_ ?_ ?_
    · intro w R hw t ht
      rw [hw.transactions] at ht
      exact absurd ht (Table.not_mem_empty t)
    · intro w R R' hR h t ht ref href hfailed
      obtain ⟨i, req, hreq, hfails⟩ := h t ht ref href hfailed
      exact ⟨i, req, hR i req hreq, hfails⟩
    · intro w w' i req o R _ hreq hpre he h t ht ref href hfailed
      rcases failed_by_effect hpre he ht href hfailed with hfails | ⟨t₁, ht₁, href₁, hf₁⟩
      · exact ⟨i, req, hreq, hfails⟩
      · exact h t₁ ht₁ ref href₁ hf₁
  intro t ht ref href hfailed
  obtain ⟨i, req, ⟨c, hc, rfl⟩, hfails⟩ := hasked t ht ref href hfailed
  exact ⟨c, List.mem_of_getElem? hc, hfails⟩

/-! ## What the answer means -/

/-- A call of `deposit` has returned the checkout of the session that the provider has opened for it. -/
def Returned (session : String) (s : State) : Prop :=
  session ≠ "" ∧ ∃ (i : ℕ) (c : Call Op Ans Err Request Reply) (userId : String)
      (input : DepositDto) (url : String),
    s.calls[i]? = some c ∧ c.request = .deposit userId input ∧
    c.program.result? = some (.ok (.deposit { checkoutUrl := some url })) ∧
    ∃ (amount : ℤ) (currency paymentMethod transactionId userId' : String)
      (g : PaymentGatewayResult),
      (⟨.processDeposit amount currency paymentMethod transactionId userId', .ok g⟩ :
        Answer Ans Err) ∈ c.answers ∧
      g.providerRef = some session ∧ g.checkoutUrl = some url

/-- The step from `s₁` to `s₂` answers, in call `j`, `{ received: true }` to the event that `session` is
    paid, and a deposit has returned the checkout of that session. -/
structure Acknowledged (registry : PaymentGatewayRegistry) (session : String) (s₁ s₂ : State) (j : ℕ)
    (c : Call Op Ans Err Request Reply) : Prop where
  reachable : Reachable registry s₁
  returned : Returned session s₁
  step : ∃ ω, (server registry).step s₁ j ω = some s₂
  call : s₂.calls[j]? = some c
  delivered : ∃ signature event, c.request = .handleWebhook signature (.ok event) ∧
    event.type = "checkout.session.completed" ∧ event.paymentStatus = some "paid" ∧
    event.objectId = session
  received : c.program.result? = some (.ok .done)

variable {s₂ : State} {session : String} {j : ℕ} {c : Call Op Ans Err Request Reply}

/-- The reference of the session is stored before its checkout is returned. -/
theorem Returned.referenced (hs : Reachable registry s) (h : Returned session s) :
    ∃ t ∈ s.world.db.transactions, t.providerRef = some session := by
  obtain ⟨hne, i, c, userId, input, url, hc, hreq, hret, amount, currency, paymentMethod,
    transactionId, userId', g, hanswer, hprovider, -⟩ := h
  have htracks := hs.sound.tracks i (List.getElem?_eq_some_iff.mp hc).1
  obtain ⟨w, hrely, hpost⟩ := htracks.outcome hc hret
  rw [hreq] at hpost
  have hstored : g.storedRef = some session := by
    rw [PaymentGatewayResult.storedRef, hprovider, Option.filter_some, if_pos]
    exact decide_eq_true hne
  obtain ⟨t, ht, -, href⟩ := hpost _ rfl _ _ _ _ _ _ _ hanswer hstored
  obtain ⟨t', ht', hl⟩ := hrely.1.transactions t ht
  exact ⟨t', ht', hl.providerRef session href⟩

/-- So the handler does not return for want of a transaction. -/
theorem Acknowledged.found (h : Acknowledged registry session s₁ s₂ j c) :
    ∃ t ∈ s₂.world.db.transactions, t.providerRef = some session ∧
      (t.status ≠ .pending ∨
        ⟨.findByUserIdAndCurrency t.userId t.currency, .ok none⟩ ∈ c.answers) := by
  obtain ⟨ω, hstep⟩ := h.step
  obtain ⟨signature, event, hreq, htype, hpaid, rfl⟩ := h.delivered
  obtain ⟨_, _, _, _, _, hj, -⟩ := Server.step_cases hstep
  have htracks := h.reachable.sound.tracks j (List.getElem?_eq_some_iff.mp hj).1
  have hpost := htracks.returns h.reachable.inv hstep h.call h.received
  rw [hreq] at hpost
  have hdone : SettleDone event.objectId c.answers s₂.world :=
    hpost _ rfl event.objectId (by rw [Request.settlesRef?, if_pos ⟨htype, hpaid⟩]; rfl)
  obtain ⟨t, ht, href⟩ := h.returned.referenced h.reachable
  obtain ⟨t', ht', hl⟩ := (h.reachable.grows (Server.reaches_of_step hstep)).transactions t ht
  rcases hdone with hnone | hdone
  · exact absurd (hl.providerRef _ href) (hnone t' ht')
  · exact hdone

/-- An acknowledged payment is not dropped.  From the answer on, as long as nobody asks to fail the
    session, its transaction is completed and credited, unless the handler looked for the wallet of the
    transaction and it was gone. -/
theorem acknowledged_payment (h : Acknowledged registry session s₁ s₂ j c)
    (hr : (server registry).Reaches Server.Any s₂ s)
    (hfails : ∀ c ∈ s.calls, c.request.failsRef? ≠ some session) :
    ∃ t ∈ s.world.db.transactions,
      (∀ t' ∈ s.world.db.transactions, t'.providerRef = some session ↔ t' = t) ∧
      ((t.status = .completed ∧ ∃ e ∈ s.world.db.ledger, e.type = .deposit ∧
          e.idempotencyKey = t.idempotencyKey ∧ e.amount = t.amount) ∨
        ⟨.findByUserIdAndCurrency t.userId t.currency, .ok none⟩ ∈ c.answers) := by
  obtain ⟨ω, hstep⟩ := h.step
  have hs₂ : Reachable registry s₂ := h.reachable.extend (Server.reaches_of_step hstep)
  have hs : Reachable registry s := hs₂.extend hr
  obtain ⟨t₂, ht₂, href₂, hdone⟩ := h.found
  obtain ⟨t, ht, hl⟩ := (hs₂.grows hr).transactions t₂ ht₂
  have href := hl.providerRef session href₂
  refine ⟨t, ht, fun t' ht' => ⟨fun href' => ?_, fun heq => heq ▸ href⟩, ?_⟩
  · exact hs.inv.payments.eq_of_ref ht' ht href' href
  rcases hdone with hsettled | hgone
  · left
    -- the transaction has left `PENDING`, and it cannot have failed
    have hcompleted : t.status = .completed := by
      cases hstatus : t.status with
      | completed => rfl
      | pending => exact absurd hstatus (hl.settled hsettled)
      | failed =>
        obtain ⟨c', hc', hfail⟩ := hs.failed_by t ht session href hstatus
        exact absurd hfail (hfails c' hc')
    obtain ⟨e, he, htype, hkey⟩ := hs.inv.deposits.completed t ht hcompleted
    obtain ⟨t', ht', hcredits, -⟩ := hs.inv.deposits.credited e he htype
    obtain rfl := Transaction.eq_of_key ht ht' (hkey.symm.trans hcredits.key)
    exact ⟨hcompleted, e, he, htype, hkey, hcredits.amount⟩
  · right
    rw [Transaction.core_userId hl.core, Transaction.core_currency hl.core]
    exact hgone

/-! ## Ada pays in 50 by card

Her deposit is the call `1`.  Either the session is settled, or an administrator deletes her account
before the provider reports the payment. -/

def checkout : PaymentGatewayResult :=
  { success := true
    providerRef := some "cs1"
    checkoutUrl := some "cs1"
    requiresWebhook := true }

def payInAndSettle : List (Label Request Choice) :=
  openWallet 0 "u1" "Ada" "w1" ++
    payIn 1 "u1" topup "t1" "cs1" ++
    (settle 2 "cs1" "e1").dropLast

def payInAndDelete : List (Label Request Choice) :=
  openWallet 0 "u1" "Ada" "w1" ++
    payIn 1 "u1" topup "t1" "cs1" ++
    [.start (.deleteUser "u2" "u1" .admin), .step 2 {}, .step 2 {}, .start (paid "cs1"), .step 3 {}]

theorem failsRef_ne_of_replicate {n : ℕ}
    (h : s.calls.map (·.request.failsRef?) = List.replicate n none) :
    ∀ c ∈ s.calls, c.request.failsRef? ≠ some session := by
  intro c hc hfail
  have hmem : c.request.failsRef? ∈ s.calls.map (·.request.failsRef?) :=
    List.mem_map.mpr ⟨c, hc, rfl⟩
  rw [h, hfail] at hmem
  cases List.eq_of_mem_replicate hmem

theorem acknowledged_of_calls (hs₁ : Reachable cardPayments s₁)
    (hstep : (server cardPayments).step s₁ j {} = some s₂)
    (hdeposit : s₁.calls[1]?.map (fun c => (c.request, c.program.result?, c.answers[1]?)) =
      some (.deposit "u1" topup,
        some (.ok (.deposit { checkoutUrl := some "cs1" })),
        some ⟨.processDeposit 50 "EUR" "stripe" "t1" "u1", .ok checkout⟩))
    (hc : s₂.calls[j]? = some c)
    (hwebhook : (c.request, c.program.result?) = (paid "cs1", some (.ok .done))) :
    Acknowledged cardPayments "cs1" s₁ s₂ j c := by
  obtain ⟨c₁, hc₁, hdeposit⟩ := Option.map_eq_some_iff.mp hdeposit
  obtain ⟨hreq₁, hret₁, hanswer⟩ := Prod.mk.inj hdeposit |>.imp_right Prod.mk.inj
  obtain ⟨hreq, hret⟩ := Prod.mk.inj hwebhook
  refine ⟨hs₁, ⟨by decide, 1, c₁, _, _, "cs1", hc₁, hreq₁, hret₁, ?_⟩, ⟨_, hstep⟩, hc, ?_, hret⟩
  · exact ⟨_, _, _, _, _, checkout, List.mem_of_getElem? hanswer, rfl, rfl⟩
  · exact ⟨_, _, hreq, rfl, rfl, rfl⟩

theorem acknowledged_payment_settled : ∃ (s₁ s₂ : State) (c : Call Op Ans Err Request Reply)
    (t : Transaction), Acknowledged cardPayments "cs1" s₁ s₂ 2 c ∧ t ∈ s₂.world.db.transactions ∧
    ((t.status = .completed ∧ ∃ e ∈ s₂.world.db.ledger, e.type = .deposit ∧
        e.idempotencyKey = t.idempotencyKey ∧ e.amount = t.amount) ∨
      ⟨.findByUserIdAndCurrency t.userId t.currency, .ok none⟩ ∈ c.answers) := by
  have hrun : ((server cardPayments).run payInAndSettle ⟨World.fresh adaAndBob, []⟩).bind
      (fun s₁ => ((server cardPayments).step s₁ 2 {}).map fun s₂ =>
        (s₁.calls[1]?.map (fun c => (c.request, c.program.result?, c.answers[1]?)),
          s₂.calls[2]?.map (fun c => (c.request, c.program.result?)),
          s₂.calls.map (·.request.failsRef?))) =
      some (some (.deposit "u1" topup,
          some (.ok (.deposit { checkoutUrl := some "cs1" })),
          some ⟨.processDeposit 50 "EUR" "stripe" "t1" "u1", .ok checkout⟩),
        some (paid "cs1", some (.ok .done)), List.replicate 3 none) := rfl
  obtain ⟨s₁, hs₁, hrun⟩ := Option.bind_eq_some_iff.mp hrun
  obtain ⟨s₂, hstep, hrun⟩ := Option.map_eq_some_iff.mp hrun
  obtain ⟨hdeposit, hwebhook, hfails⟩ := Prod.mk.inj hrun |>.imp_right Prod.mk.inj
  obtain ⟨c, hc, hwebhook⟩ := Option.map_eq_some_iff.mp hwebhook
  have hack := acknowledged_of_calls (reachable_of_run hs₁) hstep hdeposit hc hwebhook
  obtain ⟨t, ht, -, hdone⟩ := acknowledged_payment hack .refl
    (failsRef_ne_of_replicate hfails)
  exact ⟨s₁, s₂, c, t, hack, ht, hdone⟩

/-- The wallet is gone when the handler looks for it: the payment is acknowledged, its transaction stays
    `PENDING`, and nothing has been credited. -/
theorem acknowledged_payment_dropped : ∃ (s₁ s₂ : State) (c : Call Op Ans Err Request Reply),
    Acknowledged cardPayments "cs1" s₁ s₂ 3 c ∧
    (∀ c ∈ s₂.calls, c.request.failsRef? ≠ some "cs1") ∧
    (∀ t ∈ s₂.world.db.transactions, t.providerRef = some "cs1" → t.status = .pending) ∧
    s₂.world.db.ledger.rows = [] := by
  have hrun : ((server cardPayments).run payInAndDelete ⟨World.fresh adaAndBob, []⟩).bind
      (fun s₁ => ((server cardPayments).step s₁ 3 {}).map fun s₂ =>
        (s₁.calls[1]?.map (fun c => (c.request, c.program.result?, c.answers[1]?)),
          s₂.calls[3]?.map (fun c => (c.request, c.program.result?)),
          s₂.calls.map (·.request.failsRef?), s₂.world.db.transactions.rows,
          s₂.world.db.ledger.rows)) =
      some (some (.deposit "u1" topup,
          some (.ok (.deposit { checkoutUrl := some "cs1" })),
          some ⟨.processDeposit 50 "EUR" "stripe" "t1" "u1", .ok checkout⟩),
        some (paid "cs1", some (.ok .done)), List.replicate 4 none,
        [⟨"t1", "u1", .deposit, 50, "EUR", "stripe", .pending, "topup", some "cs1", none⟩], []) :=
    rfl
  obtain ⟨s₁, hs₁, hrun⟩ := Option.bind_eq_some_iff.mp hrun
  obtain ⟨s₂, hstep, hrun⟩ := Option.map_eq_some_iff.mp hrun
  obtain ⟨hdeposit, hwebhook, hfails, hrows, hledger⟩ := Prod.mk.inj hrun |>.imp_right fun h =>
    Prod.mk.inj h |>.imp_right fun h => Prod.mk.inj h |>.imp_right Prod.mk.inj
  obtain ⟨c, hc, hwebhook⟩ := Option.map_eq_some_iff.mp hwebhook
  refine ⟨s₁, s₂, c, acknowledged_of_calls (reachable_of_run hs₁) hstep hdeposit hc hwebhook,
    failsRef_ne_of_replicate hfails, fun t ht _ => ?_, hledger⟩
  rw [Table.mem_def, hrows] at ht
  obtain rfl := List.mem_singleton.mp ht
  rfl

end LiorParisWallet
