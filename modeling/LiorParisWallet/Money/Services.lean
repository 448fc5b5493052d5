import LiorParisWallet.Money.Preservation

/-!
# The services keep their contract

One specification for each service: it performs every operation under its guarantee, and what it has
established when it returns.
-/

namespace LiorParisWallet

open Async Relational

section Operations

variable {w w' : World} {i : ℕ} {ω : Choice}

theorem read_ok {α : Type} {a b : α} (h : w.read ω a = some (.ok b, w')) : w' = w ∧ b = a :=
  ⟨(read_eq_some h).1, (read_eq_some h).2 b rfl⟩

theorem findTransactionByProviderRef_eq_some {ref : String} {t : Transaction}
    (h : w.db.findTransactionByProviderRef ref = some t) :
    t ∈ w.db.transactions ∧ t.providerRef = some ref := by
  obtain ⟨ht, href⟩ := Table.mem_of_find? h
  exact ⟨ht, by simpa using href⟩

theorem findTransactionByProviderRef_eq_none {ref : String}
    (h : w.db.findTransactionByProviderRef ref = none) :
    ∀ t ∈ w.db.transactions, t.providerRef ≠ some ref := by
  intro t ht
  simpa using Table.find?_eq_none.mp h t ht

theorem findTransferByIdempotencyKey_eq_some {key : String} {t : Transfer}
    (h : w.db.findTransferByIdempotencyKey key = some t) :
    t ∈ w.db.transfers ∧ t.idempotencyKey = key := by
  obtain ⟨ht, hkey⟩ := Table.mem_of_find? h
  exact ⟨ht, by simpa using hkey⟩

theorem World.Ids.walletOf (h : w.Ids) {a : Wallet} (ha : a ∈ w.db.wallets) :
    w.WalletOf a.id a.userId a.currency :=
  ⟨h.wallets a ha, fun b hb hid => by rw [Wallet.eq_of_id hb ha hid]; exact ⟨rfl, rfl⟩⟩

theorem findByUserIdAndCurrency_eq_some {userId currency : String} {a : Wallet} (hids : w.Ids)
    (h : w.db.findByUserIdAndCurrency userId currency = some a) :
    w.WalletOf a.id userId currency := by
  obtain ⟨ha, hp⟩ := Table.mem_of_find? h
  obtain ⟨rfl, rfl⟩ : a.userId = userId ∧ a.currency = currency := by simpa using hp
  exact hids.walletOf ha

theorem createTransaction_ok {data : TransactionData} {t : Transaction}
    (h : perform i (.createTransaction data) ω w = some (.ok t, w')) :
    t = data.create ω.uuid ∧ t ∈ w'.db.transactions ∧ (t.id, i) ∈ w'.issued ∧
      t.id ∉ w.issuedIds ∧ w'.payments = w.payments := by
  rcases insert_eq_some h with ⟨-, hr⟩ | ⟨a, db, hr, ha, hfresh, rfl⟩
  · exact absurd rfl (hr t)
  · cases ha
    obtain ⟨rfl, transactions, hi, rfl⟩ := createTransaction_eq_ok hr
    exact ⟨rfl, (Table.mem_insert? hi).mpr (.inr rfl), List.mem_cons_self, hfresh, rfl⟩

theorem createTransfer_ok {data : TransferData} {t : Transfer}
    (h : perform i (.createTransfer data) ω w = some (.ok t, w')) :
    t = data.create ω.uuid ∧ t ∈ w'.db.transfers ∧ (t.id, i) ∈ w'.issued := by
  rcases insert_eq_some h with ⟨-, hr⟩ | ⟨a, db, hr, ha, -, rfl⟩
  · exact absurd rfl (hr t)
  · cases ha
    obtain ⟨rfl, transfers, hi, rfl⟩ := createTransfer_eq_ok hr
    exact ⟨rfl, (Table.mem_insert? hi).mpr (.inr rfl), List.mem_cons_self⟩

/-- A settlement that succeeds leaves the transaction settled. -/
theorem settleTransaction_ok {walletId : String} {t : Transaction} {type : LedgerEntryType}
    {change : ℤ} {data : OutboxData} {entry : LedgerEntry}
    (h : perform i (.settleTransaction walletId t type change data) ω w = some (.ok entry, w'))
    {t' : Transaction} (ht' : t' ∈ w.db.transactions) (hid : t'.id = t.id) :
    { t' with status := .completed } ∈ w'.db.transactions := by
  rcases insert_eq_some h with ⟨-, hr⟩ | ⟨a, db, hr, ha, -, rfl⟩
  · exact absurd rfl (hr entry)
  · cases ha
    obtain ⟨wallet, -, -, -, -, ledger, outbox, -, -, rfl⟩ := settleTransaction_eq_ok.mp hr
    exact mem_completeTransaction.mpr ⟨t', ht', if_pos (beq_iff_eq.mpr hid)⟩

theorem executeTransfer_ok {t : Transfer} {fromWalletId toWalletId : String} {data : OutboxData}
    (h : perform i (.executeTransfer t fromWalletId toWalletId data) ω w = some (.ok (), w'))
    (ht : t ∈ w.db.transfers) : { t with status := .completed } ∈ w'.db.transfers := by
  rcases insert_eq_some h with ⟨-, hr⟩ | ⟨a, db, hr, ha, -, rfl⟩
  · exact absurd rfl (hr ())
  · obtain ⟨sender, receiver, -, -, -, ledger₁, ledger, outbox, -, -, -, rfl⟩ :=
      executeTransfer_eq_ok.mp hr
    exact mem_completeTransfer.mpr ⟨t, ht, if_pos (beq_self_eq_true _)⟩

theorem updateTransactionProviderRef_ok {ref : String} {t : Transaction}
    (h : perform i (.updateTransactionProviderRef t.id ref) ω w = some (.ok (), w'))
    (ht : t ∈ w.db.transactions) : { t with providerRef := some ref } ∈ w'.db.transactions := by
  rcases write_eq_some h with ⟨-, hr⟩ | ⟨rfl, -⟩
  · exact absurd rfl (hr ())
  · exact mem_updateTransactionProviderRef.mpr ⟨t, ht, if_pos (beq_self_eq_true _)⟩

end Operations

section Services

variable {registry : PaymentGatewayRegistry} {req : Request} {i : ℕ} {w : World}
variable {answers : List (Answer Ans Err)}

/-- An operation that no call has to prepare for, and that leaves the database as it is. -/
def Op.Quiet : Op → Prop
  | .findUserById _ | .randomBytes | .newDate | .cacheGet _ | .cacheSet _ _ | .cacheDel _ => True
  | _ => False

/-- Only quiet operations were awaited since `answers` and `w`. -/
structure Quietly (i : ℕ) (answers : List (Answer Ans Err)) (w : World)
    (answers' : List (Answer Ans Err)) (w' : World) : Prop where
  answers : answers ⊆ answers'
  grows : Grows w w'
  own : Own i w w'

theorem Quietly.trans {answers' answers'' : List (Answer Ans Err)} {w' w'' : World}
    (h : Quietly i answers w answers' w') (h' : Quietly i answers' w' answers'' w'') :
    Quietly i answers w answers'' w'' where
  answers := List.Subset.trans h.answers h'.answers
  grows := h.grows.trans h'.grows
  own := h.own.trans h.grows h'.own

theorem wp_quiet {o : Op} (ho : o.Quiet) :
    (moneyContract registry).wp req i (await o)
      (fun answers' _ w' => Quietly i answers w answers' w') answers w := by
  refine Contract.wp_call fun w₁ hrely _ => ⟨?_, fun ω r w₂ hp => ?_⟩
  · cases o <;> trivial
  · have hquiet : (moneyContract registry).Rely i w w₂ := by
      refine (moneyContract registry).rely_trans hrely ?_
      cases effect_of_perform hp with
      | nothing => exact ⟨.refl w₁, .refl i w₁⟩
      | cache => exact ⟨{ Grows.refl w₁ with }, { Own.refl i w₁ with }⟩
      | _ => cases ho
    exact ⟨List.subset_cons_self _ _, hquiet.1, hquiet.2⟩

/-- The rest of a function after a part that is quiet. -/
theorem wp_after_quiet {α β : Type} {p : Promise α} {f : α → Promise β}
    {Φ : List (Answer Ans Err) → β → World → Prop}
    (hp : (moneyContract registry).wp req i p
      (fun answers' _ w' => Quietly i answers w answers' w') answers w)
    (h : ∀ a answers' w', Quietly i answers w answers' w' →
      (moneyContract registry).wp req i (f a) (Contract.returns Φ) answers' w') :
    (moneyContract registry).wp req i (p >>= f) (Contract.returns Φ) answers w := by
  refine Contract.wp_bind.mpr (Contract.wp_mono hp fun answers' r w' hq => ?_)
  cases r with
  | ok a => exact h a answers' w' hq
  | error e => exact fun _ h => nomatch h

theorem wp_quiet_map {α β : Type} {p : Promise α} {f : α → β}
    (hp : (moneyContract registry).wp req i p
      (fun answers' _ w' => Quietly i answers w answers' w') answers w) :
    (moneyContract registry).wp req i (do return f (← p))
      (fun answers' _ w' => Quietly i answers w answers' w') answers w := by
  refine Contract.wp_bind.mpr (Contract.wp_mono hp fun answers' r w' hq => ?_)
  cases r <;> exact hq

theorem wp_quiet_both {α β : Type} {p : Promise α} {q : Promise β}
    (hp : (moneyContract registry).wp req i p
      (fun answers' _ w' => Quietly i answers w answers' w') answers w)
    (hq : ∀ answers w, (moneyContract registry).wp req i q
      (fun answers' _ w' => Quietly i answers w answers' w') answers w) :
    (moneyContract registry).wp req i (.both p q)
      (Contract.returns fun answers' _ w' => Quietly i answers w answers' w') answers w :=
  Contract.wp_both (Contract.wp_mono hp fun _ _ _ h =>
    Contract.wp_mono (hq _ _) fun _ _ _ h' _ _ _ _ => h.trans h')

/-- An operation of which the contract asks nothing. -/
theorem wp_free {α : Type} {o : Op} {f : Ans o → Promise α}
    {Φ : List (Answer Ans Err) → α → World → Prop} (ho : ∀ w₁, Guarantee req i o w₁)
    (h : ∀ w₁, Grows w w₁ → Own i w w₁ → w₁.Inv → ∀ ω a w₂,
      perform i o ω w₁ = some (.ok a, w₂) →
        (moneyContract registry).wp req i (f a) (Contract.returns Φ) (⟨o, .ok a⟩ :: answers) w₂) :
    (moneyContract registry).wp req i (await o >>= f) (Contract.returns Φ) answers w :=
  Contract.wp_await fun w₁ hrely hinv => ⟨ho w₁, h w₁ hrely.1 hrely.2 hinv⟩

theorem wp_answered {α : Type} {p : Prop} [Decidable p] {a : α} {e : Err}
    {Φ : List (Answer Ans Err) → α → World → Prop} (h : Φ answers a w) :
    (moneyContract registry).wp req i (if p then pure a else throw e) (Contract.returns Φ) answers w := by
  split
  · exact Contract.wp_returns_pure h
  · exact Contract.wp_returns_throw

/-! ## Deposits -/

/-- What the provider has promised to report on is found under its reference. -/
def Referenced (answers : List (Answer Ans Err)) (w : World) : Prop :=
  ∀ amount currency paymentMethod transactionId userId g ref,
    ⟨.processDeposit amount currency paymentMethod transactionId userId, .ok g⟩ ∈ answers →
      g.storedRef = some ref → ∃ t ∈ w.db.transactions, t.id = transactionId ∧ t.providerRef = some ref

theorem storedRef_eq_some {g : PaymentGatewayResult} {ref : String} (h : g.storedRef = some ref) :
    g.providerRef = some ref ∧ ref ≠ "" := by
  obtain ⟨hmem, hne⟩ := Option.filter_eq_some_iff.mp h
  exact ⟨hmem, by simpa using hne⟩

theorem afterGateway_spec {t : Transaction} {g : PaymentGatewayResult} (hown : w.OwnDeposit i t)
    (hpending : t.status = .pending)
    (hpaid : ∃ p ∈ w.payments, p.transactionId = t.id ∧ p.answer = .ok g)
    (hanswers : ∀ amount currency paymentMethod transactionId userId g',
      ⟨.processDeposit amount currency paymentMethod transactionId userId, .ok g'⟩ ∈ answers →
        g' = g ∧ transactionId = t.id) :
    (moneyContract registry).wp req i (afterGateway t g)
      (Contract.returns fun answers' _ w' => Referenced answers' w') answers w := by
  unfold afterGateway
  cases hsuccess : g.success with
  | false =>
    refine Contract.wp_await fun w₁ hrely _ => ⟨.inl ⟨⟨?_, ?_, hown.unreferenced⟩, hpending⟩, ?_⟩
    · exact hrely.2.transactions t hown.stored hown.own hown.unreferenced
    · exact hrely.1.issued _ hown.own
    · exact fun _ _ _ _ => Contract.wp_returns_throw
  | true =>
    simp only [Bool.not_true, Bool.false_eq_true, if_false]
    cases href : g.storedRef with
    | none =>
      refine wp_answered fun amount currency paymentMethod transactionId userId g' ref hmem hr => ?_
      rw [(hanswers _ _ _ _ _ _ hmem).1, href] at hr
      cases hr
    | some ref =>
      obtain ⟨p, hp, hid, hanswer⟩ := hpaid
      refine Contract.wp_await fun w₁ hrely _ => ?_
      have ht := hrely.2.transactions t hown.stored hown.own hown.unreferenced
      have hpref : p.providerRef = some ref := by
        rw [Payment.providerRef, hanswer]
        simp only [hsuccess, if_true]
        exact (storedRef_eq_some href).1
      refine ⟨⟨t, ⟨ht, hrely.1.issued _ hown.own, hown.unreferenced⟩, hpending, rfl, p,
        hrely.1.mem_payments hp, hid, hpref⟩, fun ω a w₂ hperform => wp_answered ?_⟩
      intro amount currency paymentMethod transactionId userId g' ref' hmem hr
      rcases List.mem_cons.mp hmem with heq | hmem
      · cases heq
      · obtain ⟨rfl, rfl⟩ := hanswers _ _ _ _ _ _ hmem
        rw [href] at hr
        cases hr
        exact ⟨_, updateTransactionProviderRef_ok (i := i) hperform ht, rfl, rfl⟩

/-- What `deposit` does once it has stored the transaction. -/
theorem payment_spec {t : Transaction} (hown : w.OwnDeposit i t) (hpending : t.status = .pending)
    (hunpaid : ∀ p ∈ w.payments, p.transactionId ≠ t.id)
    (hanswers : ∀ amount currency paymentMethod transactionId userId g,
      ⟨.processDeposit amount currency paymentMethod transactionId userId, .ok g⟩ ∉ answers) :
    (moneyContract registry).wp req i
      (do
        let _gateway ← .ofExcept (registry.resolve t.paymentMethod)
        let gatewayResult ← await (.processDeposit t.amount t.currency t.paymentMethod t.id t.userId)
        afterGateway t gatewayResult)
      (Contract.returns fun answers' _ w' => Referenced answers' w') answers w := by
  cases registry.resolve t.paymentMethod with
  | error e => exact fun _ h => nomatch h
  | ok gateway =>
    refine Contract.wp_await fun w₁ ⟨hg, ho⟩ _ => ?_
    have ht := ho.transactions t hown.stored hown.own hown.unreferenced
    have hown₁ : w₁.OwnDeposit i t := ⟨ht, hg.issued _ hown.own, hown.unreferenced⟩
    have hunpaid₁ := ho.payments t.id hown.own hunpaid
    refine ⟨⟨t, hown₁, rfl, rfl, rfl, rfl, hunpaid₁⟩, fun ω g w₂ hp => ?_⟩
    obtain ⟨hanswer, -, rfl⟩ := pay_eq_some hp
    refine afterGateway_spec ⟨ht, hown₁.own, hown.unreferenced⟩ hpending
      ⟨_, List.mem_append_right _ (List.mem_singleton.mpr rfl), rfl, hanswer.symm⟩ ?_
    intro amount currency paymentMethod transactionId userId g' hmem
    rcases List.mem_cons.mp hmem with heq | hmem
    · cases heq
      exact ⟨rfl, rfl⟩
    · exact absurd hmem (hanswers _ _ _ _ _ _)

theorem deposit_spec {userId : String} {input : DepositDto} (hreq : req = .deposit userId input) :
    (moneyContract registry).wp req i (deposit registry userId input)
      (Contract.returns fun answers' _ w' => Referenced answers' w') [] w := by
  unfold deposit
  refine wp_free (fun _ => trivial) fun w₁ _ _ _ ω existing w₁' _ => ?_
  split
  · refine Contract.wp_returns_pure fun _ _ _ _ _ _ _ hmem => ?_
    cases List.mem_singleton.mp hmem
  refine wp_free (fun _ => trivial) fun w₂ _ _ _ ω wallet w₂' _ => ?_
  split
  · exact fun _ h => nomatch h
  refine Contract.wp_await fun w₃ _ hinv => ⟨⟨userId, input, hreq, rfl⟩, fun ω t w₄ hp => ?_⟩
  obtain ⟨rfl, hstored, hown, hfresh, hpayments⟩ := createTransaction_ok hp
  refine payment_spec ⟨hstored, hown, rfl⟩ rfl (fun p hp heq => hfresh ?_) ?_
  · rw [hpayments] at hp
    obtain ⟨t', ht', hid, -⟩ := hinv.payments.made p hp
    exact heq ▸ hid ▸ hinv.ids.transactions t' ht'
  · intro _ _ _ _ _ _ hmem
    simp at hmem

/-! ## Settling and failing -/

/-- How the settlement of `ref` can end: there is no such transaction, the transaction is not pending
    any more, or its wallet was not found. -/
def SettleDone (ref : String) (answers : List (Answer Ans Err)) (w : World) : Prop :=
  (∀ t ∈ w.db.transactions, t.providerRef ≠ some ref) ∨
    ∃ t ∈ w.db.transactions, t.providerRef = some ref ∧
      (t.status ≠ .pending ∨ ⟨.findByUserIdAndCurrency t.userId t.currency, .ok none⟩ ∈ answers)

theorem settlePending_spec {t : Transaction} {wallet : Wallet} {ref : String} (hknows : w.Knows t)
    (href : t.providerRef = some ref) (hwallet : w.WalletOf wallet.id t.userId t.currency) :
    (moneyContract registry).wp req i (settlePending t wallet)
      (Contract.returns fun _ _ w' => ∃ t' ∈ w'.db.transactions,
        t'.providerRef = some ref ∧ t'.status ≠ .pending) answers w := by
  obtain ⟨t₀, ht₀, hcore, hknown⟩ := hknows
  unfold settlePending
  refine wp_after_quiet (wp_quiet_map (wp_quiet trivial)) fun userEmail _ w₁ hq₁ => ?_
  refine wp_after_quiet (wp_quiet trivial) fun now _ w₂ hq₂ => ?_
  refine Contract.wp_await fun w₃ hrely _ => ?_
  have hg : Grows w w₃ := (hq₁.grows.trans hq₂.grows).trans hrely.1
  have hknows₃ : w₃.Knows t := hg.knows ⟨t₀, ht₀, hcore, hknown⟩
  refine ⟨⟨hknows₃, ⟨ref, href⟩, rfl, rfl, hg.walletOf hwallet, userEmail, now, rfl⟩,
    fun ω entry w₄ hp => ?_⟩
  obtain ⟨t₁, ht₁, hcore₁, hknown₁⟩ := hknows₃
  have hrow := settleTransaction_ok hp ht₁ (Transaction.core_id hcore₁)
  refine Contract.wp_mono (wp_quiet trivial) fun _ _ w₅ hq _ _ => ?_
  obtain ⟨t', ht', hl⟩ := hq.grows.transactions _ hrow
  exact ⟨t', ht', hl.providerRef ref (hknown₁ ref href), hl.settled nofun⟩

theorem settleByProviderRef_spec {ref : String} :
    (moneyContract registry).wp req i (settleByProviderRef ref)
      (Contract.returns fun answers' _ w' => SettleDone ref answers' w') answers w := by
  unfold settleByProviderRef
  refine wp_free (fun _ => trivial) fun w₁ _ _ _ ω found w₁' hp => ?_
  obtain ⟨rfl, rfl⟩ := read_ok hp
  cases hfound : w₁'.db.findTransactionByProviderRef ref with
  | none =>
    -- the handler answers in the step in which it has looked
    exact Contract.wp_returns_pure (.inl (findTransactionByProviderRef_eq_none hfound))
  | some t =>
    obtain ⟨ht, href⟩ := findTransactionByProviderRef_eq_some hfound
    dsimp only
    split
    · rename_i hstatus
      exact Contract.wp_returns_pure (.inr ⟨t, ht, href, .inl hstatus⟩)
    refine wp_free (fun _ => trivial) fun w₂ hg₂ _ hinv₂ ω found w₂' hp => ?_
    obtain ⟨rfl, rfl⟩ := read_ok hp
    cases hwallet : w₂'.db.findByUserIdAndCurrency t.userId t.currency with
    | none =>
      refine Contract.wp_returns_pure (.inr ?_)
      obtain ⟨t', ht', hl⟩ := hg₂.transactions t ht
      refine ⟨t', ht', hl.providerRef ref href, .inr ?_⟩
      rw [Transaction.core_userId hl.core, Transaction.core_currency hl.core]
      exact List.mem_cons_self
    | some wallet =>
      refine Contract.wp_mono (settlePending_spec (hg₂.knows (World.knows_of_mem ht)) href
        (findByUserIdAndCurrency_eq_some hinv₂.ids hwallet)) fun _ r _ h a ha => ?_
      obtain ⟨t', ht', href', hstatus⟩ := h a ha
      exact .inr ⟨t', ht', href', .inl hstatus⟩

theorem failByProviderRef_spec {ref reason : String} (hreq : req.failsRef? = some ref) :
    (moneyContract registry).wp req i (failByProviderRef ref reason)
      (Contract.returns fun _ _ _ => True) answers w := by
  unfold failByProviderRef
  refine wp_free (fun _ => trivial) fun w₁ _ _ _ ω found w₁' hp => ?_
  obtain ⟨rfl, rfl⟩ := read_ok hp
  cases hfound : w₁'.db.findTransactionByProviderRef ref with
  | none => exact Contract.wp_returns_pure trivial
  | some t =>
    obtain ⟨ht, href⟩ := findTransactionByProviderRef_eq_some hfound
    dsimp only
    split
    · exact Contract.wp_returns_pure trivial
    refine Contract.wp_call fun w₂ hrely _ => ⟨.inr ?_, fun _ _ _ _ _ _ => trivial⟩
    exact ⟨hrely.1.knows (World.knows_of_mem ht), ref, href, hreq⟩

/-- The reference that a webhook call is asked to settle. -/
def Request.settlesRef? : Request → Option String
  | .handleWebhook _ (.ok event) =>
      if event.type = "checkout.session.completed" ∧ event.paymentStatus = some "paid" then
        some event.objectId
      else none
  | _ => none

theorem handleWebhook_spec {signature : Option String} {constructed : Except String StripeWebhookEvent}
    (hreq : req = .handleWebhook signature constructed) :
    (moneyContract registry).wp req i (handleWebhook signature constructed)
      (Contract.returns fun answers' _ w' => ∀ ref ∈ req.settlesRef?, SettleDone ref answers' w')
      answers w := by
  unfold handleWebhook
  by_cases hsignature : (signature.getD "").isEmpty = true
  · simp only [hsignature, if_true]
    cases constructed <;> exact fun _ h => nomatch h
  simp only [hsignature, Bool.false_eq_true, if_false]
  cases constructed with
  | error e => exact fun _ h => nomatch h
  | ok event =>
    subst hreq
    simp only [Request.settlesRef?]
    by_cases htype : event.type = "checkout.session.completed"
    · by_cases hpaid : event.paymentStatus = some "paid"
      · simp only [htype, hpaid, and_self, if_true]
        refine Contract.wp_mono settleByProviderRef_spec fun _ r _ h a ha ref href => ?_
        cases href
        exact h a ha
      · simp only [htype, hpaid, and_false, if_true, if_false]
        exact Contract.wp_returns_pure nofun
    · simp only [htype, false_and, if_false]
      split
      · rename_i hexpired
        refine Contract.wp_mono (failByProviderRef_spec ?_) fun _ _ _ _ _ _ => nofun
        exact if_pos hexpired
      · exact Contract.wp_returns_pure nofun

/-! ## Transfers -/

/-- The row is a transfer that has happened, with the data of the call. -/
structure Transfer.Carries (t : Transfer) (fromUserId toUserId : String)
    (input : InitiateTransferDto) : Prop where
  status : t.status = .completed
  idempotencyKey : t.idempotencyKey = input.idempotencyKey
  fromUserId : t.fromUserId = fromUserId
  toUserId : t.toUserId = toUserId
  amount : t.amount = input.amount
  currency : t.currency = input.currency.value

theorem Transfer.Carries.mono {t t' : Transfer} {fromUserId toUserId : String}
    {input : InitiateTransferDto} (h : t.Carries fromUserId toUserId input) (hc : t'.core = t.core)
    (hs : t.status = .completed → t'.status = .completed) : t'.Carries fromUserId toUserId input where
  status := hs h.status
  idempotencyKey := (Transfer.core_key hc).trans h.idempotencyKey
  fromUserId := (Transfer.core_fromUserId hc).trans h.fromUserId
  toUserId := (Transfer.core_toUserId hc).trans h.toUserId
  amount := (Transfer.core_amount hc).trans h.amount
  currency := (Transfer.core_currency hc).trans h.currency

theorem moveMoney_spec {fromUserId fromUserEmail : String} {input : InitiateTransferDto}
    {fromWallet toWallet : Wallet}
    (hreq : req = .initiateTransfer fromUserId fromUserEmail input)
    (hne : fromUserId ≠ toWallet.userId)
    (hsender : w.WalletOf fromWallet.id fromUserId input.currency.value)
    (hreceiver : w.WalletOf toWallet.id toWallet.userId input.currency.value) :
    (moneyContract registry).wp req i (moveMoney fromUserId fromUserEmail input fromWallet toWallet)
      (Contract.returns fun answers' _ w' => answers ⊆ answers' ∧
        ∃ t ∈ w'.db.transfers, t.Carries fromUserId toWallet.userId input) answers w := by
  unfold moveMoney
  refine Contract.wp_bind.mpr (Contract.wp_mono
    (wp_quiet_both (wp_quiet_map (wp_quiet trivial)) fun _ _ => wp_quiet trivial) ?_)
  intro answers₁ names w₁ hq₁
  cases names with
  | error e => exact fun _ h => nomatch h
  | ok names =>
    have hq₁ := hq₁ _ rfl
    refine Contract.wp_await fun w₂ hrely₂ _ => ?_
    have hpre : Guarantee req i (.createTransfer
        { fromUserId := fromUserId
          toUserId := toWallet.userId
          amount := input.amount
          currency := input.currency.value
          idempotencyKey := input.idempotencyKey }) w₂ :=
      ⟨fromUserId, fromUserEmail, input, toWallet.userId, hreq, hne, rfl⟩
    refine ⟨hpre, fun ω t w₃ hp => ?_⟩
    have hg₃ : Grows w w₃ :=
      (hq₁.grows.trans hrely₂.1).trans (grows_of_effect hpre (effect_of_perform hp))
    obtain ⟨rfl, ht₃, hown₃⟩ := createTransfer_ok hp
    refine wp_after_quiet (wp_quiet trivial) fun now answers₄ w₄ hq₄ => ?_
    have ht₄ := hq₄.own.transfers _ ht₃ hown₃
    refine Contract.wp_await fun w₅ hrely₅ _ => ?_
    have hown₄ := hq₄.grows.issued _ hown₃
    have ht₅ := hrely₅.2.transfers _ ht₄ hown₄
    have hg₅ : Grows w w₅ := (hg₃.trans hq₄.grows).trans hrely₅.1
    refine ⟨⟨ht₅, hrely₅.1.issued _ hown₄, rfl, hg₅.walletOf hsender, hg₅.walletOf hreceiver,
      fromUserEmail, names.1, names.2, now, rfl⟩, fun ω' _ w₆ hp' => ?_⟩
    have hrow := executeTransfer_ok hp' ht₅
    refine Contract.wp_bind.mpr (Contract.wp_mono
      (wp_quiet_both (wp_quiet trivial) fun _ _ => wp_quiet trivial) fun answers₇ r w₇ hq₇ => ?_)
    cases r with
    | error e => exact fun _ h => nomatch h
    | ok _ =>
      have hq₇ := hq₇ _ rfl
      obtain ⟨t', ht', hcore, hstatus⟩ := hq₇.grows.transfers _ hrow
      refine Contract.wp_returns_pure ⟨?_, t', ht', Transfer.Carries.mono ?_ hcore hstatus⟩
      · intro a ha
        have ha₄ := hq₄.answers (List.mem_cons_of_mem _ (hq₁.answers ha))
        exact hq₇.answers (List.mem_cons_of_mem _ ha₄)
      · exact ⟨rfl, rfl, rfl, rfl, rfl, rfl⟩

/-- How a transfer call can return: the lookup of its key found a row, or there was none and the
    transfer has happened. -/
def TransferDone (fromUserId : String) (input : InitiateTransferDto)
    (answers : List (Answer Ans Err)) (w : World) : Prop :=
  ∃ existing toWallet, ⟨.findByWalletTag input.toWalletTag, .ok (some toWallet)⟩ ∈ answers ∧
    ⟨.findTransferByIdempotencyKey input.idempotencyKey, .ok existing⟩ ∈ answers ∧
    match existing with
    | some t => t ∈ w.db.transfers ∧ t.idempotencyKey = input.idempotencyKey
    | none => ∃ t ∈ w.db.transfers, t.Carries fromUserId toWallet.userId input

theorem initiateTransfer_spec {fromUserId fromUserEmail : String} {input : InitiateTransferDto}
    (hreq : req = .initiateTransfer fromUserId fromUserEmail input) :
    (moneyContract registry).wp req i (initiateTransfer fromUserId fromUserEmail input)
      (Contract.returns fun answers' _ w' => TransferDone fromUserId input answers' w') [] w := by
  unfold initiateTransfer
  refine wp_free (fun _ => trivial) fun w₁ _ _ hinv₁ ω found₁ w₁' hp => ?_
  obtain ⟨rfl, rfl⟩ := read_ok hp
  cases htag : w₁'.db.findByWalletTag input.toWalletTag with
  | none => exact fun _ h => nomatch h
  | some toWallet =>
    dsimp only
    split
    · exact fun _ h => nomatch h
    rename_i hcurrency
    split
    · exact fun _ h => nomatch h
    rename_i hne
    refine wp_free (fun _ => trivial) fun w₂ hg₂ _ _ ω found₂ w₂' hp => ?_
    obtain ⟨rfl, rfl⟩ := read_ok hp
    cases hkey : w₂'.db.findTransferByIdempotencyKey input.idempotencyKey with
    | some t =>
      exact Contract.wp_returns_pure
        ⟨some t, toWallet, .tail _ (.head _), .head _, findTransferByIdempotencyKey_eq_some hkey⟩
    | none =>
      simp only [Option.isSome_none, Bool.false_eq_true, if_false]
      refine wp_free (fun _ => trivial) fun w₃ hg₃ _ hinv₃ ω found₃ w₃' hp => ?_
      obtain ⟨rfl, rfl⟩ := read_ok hp
      cases hsender : w₃'.db.findByUserIdAndCurrency fromUserId input.currency.value with
      | none => exact fun _ h => nomatch h
      | some fromWallet =>
        have hreceiver : w₁'.WalletOf toWallet.id toWallet.userId input.currency.value := by
          rw [← not_ne_iff.mp hcurrency]
          exact hinv₁.ids.walletOf (Table.mem_of_find? htag).1
        refine Contract.wp_mono (moveMoney_spec hreq hne
          (findByUserIdAndCurrency_eq_some hinv₃.ids hsender)
          ((hg₂.trans hg₃).walletOf hreceiver)) fun _ _ _ h a ha => ?_
        have hanswers := (h a ha).1
        exact ⟨none, toWallet, hanswers (.tail _ (.tail _ (.head _))), hanswers (.tail _ (.head _)),
          (h a ha).2⟩

/-! ## Wallets and users -/

/-- The postcondition of the functions that promise nothing. -/
abbrev Nothing {α : Type} : List (Answer Ans Err) → Except Err α → World → Prop :=
  Contract.returns fun _ _ _ => True

theorem wp_nothing_call {o : Op} (ho : ∀ w₁, Guarantee req i o w₁) :
    (moneyContract registry).wp req i (await o) Nothing answers w :=
  Contract.wp_call fun w₁ _ _ => ⟨ho w₁, fun _ _ _ _ _ _ => trivial⟩

theorem ensureWallet_spec {userId currency userName : String} :
    (moneyContract registry).wp req i (ensureWallet userId currency userName) Nothing answers w := by
  unfold ensureWallet
  refine wp_free (fun _ => trivial) fun w₁ _ _ _ ω existing w₁' _ => ?_
  cases existing with
  | some wallet => exact Contract.wp_returns_pure trivial
  | none =>
    refine wp_free (fun _ => trivial) fun w₂ _ _ _ ω bytes w₂' _ => ?_
    exact wp_nothing_call fun _ => rfl

theorem createWallet_spec {userId userName : String} {input : CreateWalletDto} :
    (moneyContract registry).wp req i (createWallet userId userName input) Nothing answers w := by
  unfold createWallet
  refine wp_free (fun _ => trivial) fun w₁ _ _ _ ω existing w₁' _ => ?_
  cases existing with
  | some wallet => exact fun _ h => nomatch h
  | none => exact ensureWallet_spec

theorem getBalance_spec {userId currency : String} :
    (moneyContract registry).wp req i (getBalance userId currency) Nothing answers w := by
  unfold getBalance
  refine wp_free (fun _ => trivial) fun w₁ _ _ _ ω cached w₁' _ => ?_
  cases cached with
  | some wallet => exact Contract.wp_returns_pure trivial
  | none =>
    refine wp_free (fun _ => trivial) fun w₂ _ _ _ ω wallet w₂' _ => ?_
    cases wallet with
    | none => exact fun _ h => nomatch h
    | some wallet =>
      refine wp_free (fun _ => trivial) fun w₃ _ _ _ ω _ w₃' _ => ?_
      exact Contract.wp_returns_pure trivial

theorem deleteUser_spec {requestingUserId targetUserId : String} {role : UserRole} :
    (moneyContract registry).wp req i (deleteUser requestingUserId targetUserId role) Nothing answers
      w := by
  unfold deleteUser
  refine wp_free (fun _ => trivial) fun w₁ _ _ _ ω userToDelete w₁' _ => ?_
  cases userToDelete with
  | none => exact fun _ h => nomatch h
  | some user =>
    cases ensureCanDeleteUser requestingUserId targetUserId role with
    | error e => exact fun _ h => nomatch h
    | ok _ => exact wp_nothing_call fun _ => trivial

/-! ## All services -/

/-- What a request has established when it is answered. -/
def Established : Request → List (Answer Ans Err) → World → Prop
  | .deposit _ _, answers, w => Referenced answers w
  | .settleByProviderRef providerRef, answers, w => SettleDone providerRef answers w
  | .handleWebhook signature constructed, answers, w =>
      ∀ ref ∈ (Request.handleWebhook signature constructed).settlesRef?, SettleDone ref answers w
  | .initiateTransfer fromUserId _ input, answers, w => TransferDone fromUserId input answers w
  | _, _, _ => True

theorem wp_reply {α β : Type} {p : Promise α} {f : α → β}
    {Φ : List (Answer Ans Err) → World → Prop}
    (h : (moneyContract registry).wp req i p (Contract.returns fun answers _ w => Φ answers w)
      answers w) :
    (moneyContract registry).wp req i (do return f (← p))
      (Contract.returns fun answers _ w => Φ answers w) answers w := by
  refine Contract.wp_bind.mpr (Contract.wp_mono h fun _ r _ hr => ?_)
  cases r with
  | error e => exact fun _ h => nomatch h
  | ok a => exact Contract.wp_returns_pure (hr a rfl)

theorem serve_spec :
    (moneyContract registry).wp req i (serve registry req)
      (Contract.returns fun answers _ w => Established req answers w) [] w := by
  cases req with
  | createWallet userId userName input => exact wp_reply createWallet_spec
  | ensureWallet userId currency userName => exact wp_reply ensureWallet_spec
  | handleUserRegistered payload => exact wp_reply ensureWallet_spec
  | getBalance userId currency => exact wp_reply getBalance_spec
  | deposit userId input => exact wp_reply (deposit_spec rfl)
  | settleByProviderRef providerRef => exact wp_reply settleByProviderRef_spec
  | failByProviderRef providerRef reason => exact wp_reply (failByProviderRef_spec rfl)
  | handleWebhook signature constructed => exact wp_reply (handleWebhook_spec rfl)
  | initiateTransfer fromUserId fromUserEmail input => exact wp_reply (initiateTransfer_spec rfl)
  | createUser input => exact wp_reply (wp_nothing_call fun _ => trivial)
  | deleteUser requestingUserId targetUserId role => exact wp_reply deleteUser_spec

end Services

/-- Every call ends as its specification says. -/
def Post (_ : ℕ) (req : Request) : List (Answer Ans Err) → Except Err Reply → World → Prop :=
  Contract.returns fun answers _ w => Established req answers w

theorem server_meets {registry : PaymentGatewayRegistry} : (moneyContract registry).Meets Post :=
  fun _ _ _ _ => serve_spec

end LiorParisWallet
