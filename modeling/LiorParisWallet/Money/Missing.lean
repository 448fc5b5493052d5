import LiorParisWallet.Async.Blame
import LiorParisWallet.Money.Effects
import LiorParisWallet.Services.Transfers

/-!
# Rows that are missing

A row that a service has read may be gone when it is needed again.  Then a property of `null` is read, or a foreign
key has nothing to refer to.  The services throw neither of themselves, so an operation has thrown it
(`Relays`), and there are three that can (`missing_of_perform`).
-/

namespace LiorParisWallet

open Async Relational

/-- The exception of an operation that misses a row. -/
def Err.missesRow : Err → Bool
  | .typeError | .noReferencedRow => true
  | _ => false

/-- The operation missed a row. -/
def Missed (x : Answer Ans Err) (_ : List (Answer Ans Err)) : Prop :=
  ∃ e, x.2 = .error e ∧ e.missesRow = true

/-- The service misses a row only where an operation has missed one. -/
def Relays {α : Type} (p : Promise α) : Prop :=
  ∀ answers, p.Blames (·.missesRow = true) Missed (fun _ _ => True) answers

section Rules

variable {α β : Type} {p : Promise α} {f : α → Promise β}

theorem relays_pure (a : α) : Relays (pure a : Promise α) :=
  fun _ => trivial

theorem relays_throw {e : Err} (he : e.missesRow = false) : Relays (throw e : Promise α) := by
  intro answers h
  rw [he] at h
  cases h

theorem relays_call (o : Op) : Relays (await o) :=
  fun _ => Program.blames_call (fun e he => ⟨e, rfl, he⟩) fun _ => trivial

theorem Relays.bind (hp : Relays p) (hf : ∀ a, Relays (f a)) : Relays (p >>= f) :=
  fun answers => (hp answers).bind fun a answers _ => hf a answers

theorem relays_await {o : Op} {f : Ans o → Promise β} (hf : ∀ a, Relays (f a)) : Relays (await o >>= f) :=
  (relays_call o).bind hf

theorem Relays.both {q : Promise β} (hp : Relays p) (hq : Relays q) : Relays (Program.both p q) :=
  fun answers => (hp answers).both hq

end Rules

/-! ## The services -/

section Services

theorem ensureWallet_relays (userId currency userName : String) : Relays (ensureWallet userId currency userName) := by
  refine relays_await fun existing => ?_
  cases existing with
  | none => exact relays_await fun _ => relays_call _
  | some wallet => exact relays_pure wallet

theorem createWallet_relays (userId userName : String) (input : CreateWalletDto) :
    Relays (createWallet userId userName input) := by
  refine relays_await fun existing => ?_
  cases existing with
  | none => exact ensureWallet_relays userId _ userName
  | some wallet => exact relays_throw rfl

theorem getBalance_relays (userId currency : String) : Relays (getBalance userId currency) := by
  refine relays_await fun cached => ?_
  cases cached with
  | some wallet => exact relays_pure wallet
  | none =>
    refine relays_await fun wallet => ?_
    cases wallet with
    | none => exact relays_throw rfl
    | some wallet => exact relays_await fun _ => relays_pure wallet

theorem afterGateway_relays (transaction : Transaction) (result : PaymentGatewayResult) :
    Relays (afterGateway transaction result) := by
  unfold afterGateway
  cases result.success with
  | false => exact relays_await fun _ => relays_throw rfl
  | true =>
    have hsettle : Relays (if result.requiresWebhook then
        (return { checkoutUrl := result.checkoutUrl } : Promise DepositResult)
        else throw (.badRequest "No settlement path available for gateway")) := by
      split
      · exact relays_pure _
      · exact relays_throw rfl
    cases result.storedRef with
    | none => exact hsettle
    | some providerRef => exact relays_await fun _ => hsettle

theorem deposit_relays (registry : PaymentGatewayRegistry) (userId : String) (input : DepositDto) :
    Relays (deposit registry userId input) := by
  refine relays_await fun existing => ?_
  cases existing with
  | some t => exact relays_pure _
  | none =>
    refine relays_await fun wallet => ?_
    cases wallet with
    | none => exact relays_throw rfl
    | some wallet =>
      refine relays_await fun transaction => Relays.bind ?_ fun gateway => ?_
      · unfold PaymentGatewayRegistry.resolve
        split
        · exact relays_pure _
        · exact relays_throw rfl
      · exact relays_await fun result => afterGateway_relays transaction result

theorem settleByProviderRef_relays (providerRef : String) : Relays (settleByProviderRef providerRef) := by
  refine relays_await fun transaction => ?_
  cases transaction with
  | none => exact relays_pure ()
  | some transaction =>
    dsimp only
    split
    · exact relays_pure ()
    · refine relays_await fun wallet => ?_
      cases wallet with
      | none => exact relays_pure ()
      | some wallet =>
        refine Relays.bind (relays_await fun user => relays_pure _) fun userEmail => ?_
        exact relays_await fun now => relays_await fun entry => relays_call _

theorem failByProviderRef_relays (providerRef reason : String) : Relays (failByProviderRef providerRef reason) := by
  refine relays_await fun transaction => ?_
  cases transaction with
  | none => exact relays_pure ()
  | some transaction =>
    dsimp only
    split
    · exact relays_pure ()
    · exact relays_call _

theorem handleWebhook_relays (signature : Option String) (constructed : Except String StripeWebhookEvent) :
    Relays (handleWebhook signature constructed) := by
  unfold handleWebhook
  cases constructed with
  | error e => cases (signature.getD "").isEmpty <;> exact relays_throw rfl
  | ok event =>
    cases (signature.getD "").isEmpty with
    | true => exact relays_throw rfl
    | false =>
      show Relays (if event.type = "checkout.session.completed" then _ else _)
      split
      · split
        · exact settleByProviderRef_relays _
        · exact relays_pure ()
      · split
        · exact failByProviderRef_relays _ _
        · exact relays_pure ()

theorem moveMoney_relays (fromUserId fromUserEmail : String) (input : InitiateTransferDto)
    (fromWallet toWallet : Wallet) : Relays (moveMoney fromUserId fromUserEmail input fromWallet toWallet) := by
  have hname : Relays (getUserName fromUserId) := relays_await fun user => relays_pure _
  refine (hname.both (relays_call _)).bind fun names => ?_
  refine relays_await fun transfer => relays_await fun now => relays_await fun _ => ?_
  exact ((relays_call _).both (relays_call _)).bind fun _ => relays_pure ()

theorem initiateTransfer_relays (fromUserId fromUserEmail : String) (input : InitiateTransferDto) :
    Relays (initiateTransfer fromUserId fromUserEmail input) := by
  refine relays_await fun toWallet => ?_
  cases toWallet with
  | none => exact relays_throw rfl
  | some toWallet =>
    dsimp only
    split
    · exact relays_throw rfl
    · split
      · exact relays_throw rfl
      · refine relays_await fun existing => ?_
        cases existing with
        | some t => exact relays_pure ()
        | none =>
          refine relays_await fun fromWallet => ?_
          cases fromWallet with
          | none => exact relays_throw rfl
          | some fromWallet => exact moveMoney_relays _ _ _ _ _

end Services

/-! ## The operations -/

/-- It throws no such exception. -/
def Finds {α : Type} (x : Except Err α) : Prop :=
  ∀ e, x = .error e → e.missesRow = false

section Operations

variable {α β : Type} {db : Store}

theorem finds_ok (a : α) : Finds (.ok a : Except Err α) :=
  nofun

theorem finds_error {e : Err} (he : e.missesRow = false) : Finds (.error e : Except Err α) := by
  intro e' heq
  cases heq
  exact he

theorem Finds.bind {x : Except Err α} {f : α → Except Err β} (hx : Finds x) (hf : ∀ a, Finds (f a)) :
    Finds (x >>= f) := by
  cases x with
  | ok a => exact hf a
  | error e => exact finds_error (hx e rfl)

theorem insertInto_finds {ρ : Type} [Entity ρ] (t : Table ρ) (r : ρ) : Finds (Store.insertInto t r) := by
  unfold Store.insertInto
  split
  · exact finds_ok _
  · exact finds_error rfl

theorem saveLedgerEntry_finds (db : Store) (entry : LedgerEntry) : Finds (db.saveLedgerEntry entry) :=
  (insertInto_finds _ _).bind fun _ => finds_ok _

theorem saveOutboxEvent_finds (db : Store) (event : OutboxEvent) : Finds (db.saveOutboxEvent event) :=
  (insertInto_finds _ _).bind fun _ => finds_ok _

theorem saveWallet_finds {a : Wallet} (h : ∃ u ∈ db.users, u.id = a.userId) : Finds (db.saveWallet a) := by
  unfold Store.saveWallet
  cases hfound : db.users.find? (·.id == a.userId) with
  | none =>
    obtain ⟨u, hu, hid⟩ := h
    exact absurd (beq_iff_eq.mpr hid) (by simpa using Table.find?_eq_none.mp hfound u hu)
  | some u => exact (insertInto_finds _ _).bind fun _ => finds_ok _

theorem settleTransaction_finds {walletId : String} {t : Transaction} {type : LedgerEntryType} {change : ℤ}
    {item : OutboxEvent} (h : ∃ a ∈ db.wallets, a.id = walletId) :
    Finds (db.settleTransaction walletId t type change item) := by
  obtain ⟨wallet, hwallet⟩ := h
  unfold Store.settleTransaction
  rw [findWallet_eq_some.mpr hwallet]
  dsimp only
  split
  · exact finds_error rfl
  · exact (saveLedgerEntry_finds _ _).bind fun _ => (saveOutboxEvent_finds _ _).bind fun _ => finds_ok _

/-- What `executeTransfer` does once it has the two rows. -/
theorem transferWrites_finds {t : Transfer} {item : OutboxEvent} (sender receiver : Wallet) : Finds (do
    let senderNewBalance := sender.balance - t.amount
    if senderNewBalance < 0 then
      throw (.badRequest "Insufficient balance")
    let some toWallet := some receiver
      | throw .typeError
    let db := (db.setBalance sender.id senderNewBalance).setBalance toWallet.id (toWallet.balance + t.amount)
    let db ← db.saveLedgerEntry (debitEntry sender t)
    let db ← db.saveLedgerEntry (creditEntry toWallet t)
    let db ← (db.completeTransfer t.id).saveOutboxEvent item
    return ((), db) : Except Err (Unit × Store)) := by
  dsimp only
  split
  · exact finds_error rfl
  · refine (saveLedgerEntry_finds _ _).bind fun _ => (saveLedgerEntry_finds _ _).bind fun _ => ?_
    exact (saveOutboxEvent_finds _ _).bind fun _ => finds_ok _

/-- Whichever of the rows is locked first, both are found. -/
theorem executeTransfer_finds {t : Transfer} {fromWalletId toWalletId : String} {item : OutboxEvent}
    (hfrom : ∃ a ∈ db.wallets, a.id = fromWalletId) (hto : ∃ a ∈ db.wallets, a.id = toWalletId) :
    Finds (db.executeTransfer t fromWalletId toWalletId item) := by
  obtain ⟨fromWallet, hfrom, rfl⟩ := hfrom
  obtain ⟨toWallet, hto, rfl⟩ := hto
  have hsender := findWallet_eq_some.mpr ⟨hfrom, rfl⟩
  have hreceiver := findWallet_eq_some.mpr ⟨hto, rfl⟩
  unfold Store.executeTransfer
  by_cases hlt : fromWallet.id < toWallet.id
  · have hne : fromWallet.id ≠ toWallet.id := fun h => String.lt_irrefl _ (h ▸ hlt)
    simp only [hlt, if_true, hsender, hreceiver, hne, if_false]
    exact transferWrites_finds fromWallet toWallet
  · simp only [hlt, if_false, hsender, hreceiver, if_true]
    have hfirst : (if toWallet.id = fromWallet.id then some toWallet else some fromWallet) = some fromWallet := by
      split
      · rename_i heq
        rw [Wallet.eq_of_id hto hfrom heq]
      · rfl
    simp only [hfirst]
    exact transferWrites_finds fromWallet toWallet

/-- The operation finds the rows that it needs. -/
def Stored (db : Store) : Op → Prop
  | .saveWallet data => ∃ u ∈ db.users, u.id = data.userId
  | .settleTransaction walletId _ _ _ _ => ∃ a ∈ db.wallets, a.id = walletId
  | .executeTransfer _ fromWalletId toWalletId _ =>
      (∃ a ∈ db.wallets, a.id = fromWalletId) ∧ ∃ a ∈ db.wallets, a.id = toWalletId
  | _ => True

/-- The choice makes up no exception of this kind. -/
def Choice.plain (ω : Choice) : Bool :=
  ω.fault.all (!·.missesRow) &&
    match ω.gateway with
    | .ok _ => true
    | .error e => !e.missesRow

theorem Choice.fault_of_plain {ω : Choice} (hω : ω.plain = true) {e : Err} (h : ω.fault = some e) :
    e.missesRow = false := by
  have hfault := (Bool.and_eq_true_iff.mp hω).1
  rw [h] at hfault
  simpa using hfault

theorem Choice.gateway_of_plain {ω : Choice} (hω : ω.plain = true) {e : Err} (h : ω.gateway = .error e) :
    e.missesRow = false := by
  have hgateway := (Bool.and_eq_true_iff.mp hω).2
  rw [h] at hgateway
  simpa using hgateway

section Performs

variable {w w' : World} {ω : Choice} {i : ℕ} {r : Except Err α}

theorem read_finds {a : α} (hω : ω.plain = true) (h : w.read ω a = some (r, w')) : Finds r := by
  unfold World.read at h
  split at h <;> cases h
  · rename_i e hfault
    exact finds_error (Choice.fault_of_plain hω hfault)
  · exact finds_ok a

theorem write_finds {a : α} {w₁ : World} (hω : ω.plain = true) (h : w.write ω a w₁ = some (r, w')) : Finds r := by
  unfold World.write at h
  split at h <;> cases h
  · rename_i e hfault
    exact finds_error (Choice.fault_of_plain hω hfault)
  · exact finds_ok a

theorem insert_finds {result : Except Err (α × Store)} (hω : ω.plain = true) (hresult : Finds result)
    (h : w.insert i ω result = some (r, w')) : Finds r := by
  unfold World.insert at h
  split at h
  · cases h
  · split at h <;> cases h
    · rename_i e _ hfault
      exact finds_error (Choice.fault_of_plain hω hfault)
    · exact finds_error (hresult _ rfl)
    · exact finds_ok _

theorem finds_of_perform {o : Op} {r : Except Err (Ans o)} (hω : ω.plain = true) (hstored : Stored w.db o)
    (h : perform i o ω w = some (r, w')) : Finds r := by
  cases o with
  | saveWallet data =>
    have hfinds : Finds (w.db.saveWallet (data.create ω.uuid)) := saveWallet_finds hstored
    exact insert_finds hω hfinds h
  | settleTransaction walletId t type change data => exact insert_finds hω (settleTransaction_finds hstored) h
  | executeTransfer t fromWalletId toWalletId data =>
    exact insert_finds hω (executeTransfer_finds hstored.1 hstored.2) h
  | createTransaction data => exact insert_finds hω ((insertInto_finds _ _).bind fun _ => finds_ok _) h
  | createTransfer data => exact insert_finds hω ((insertInto_finds _ _).bind fun _ => finds_ok _) h
  | createUser data => exact insert_finds hω ((insertInto_finds _ _).bind fun _ => finds_ok _) h
  | processDeposit amount currency paymentMethod transactionId userId =>
    intro e he
    rw [he] at h
    exact Choice.gateway_of_plain hω (pay_eq_some h).1.symm
  | cacheGet key =>
    rw [perform_cacheGet] at h
    split at h
    · exact write_finds hω h
    · exact read_finds hω h
  | findByUserIdAndCurrency userId currency => exact read_finds hω h
  | findByWalletTag walletTag => exact read_finds hω h
  | findTransactionByIdempotencyKey key => exact read_finds hω h
  | findTransactionByProviderRef providerRef => exact read_finds hω h
  | findTransferByIdempotencyKey key => exact read_finds hω h
  | findUserById userId => exact read_finds hω h
  | randomBytes => exact read_finds hω h
  | newDate => exact read_finds hω h
  | _ => exact write_finds hω h

end Performs

end Operations

end LiorParisWallet
