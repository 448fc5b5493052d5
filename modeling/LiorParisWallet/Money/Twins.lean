import LiorParisWallet.Async.Components
import LiorParisWallet.Money.Effects
import LiorParisWallet.Relational.Alike
import LiorParisWallet.Services.Transfers

/-!
# Worlds that differ in digests only

Two rows of the users are twins when they are equal but for their digests, and the digests verify the same
passwords.  The wallet and transfer services read users for their names and emails, so they cannot tell two
worlds apart in which the users are twins.
-/

namespace LiorParisWallet

open Async Relational

/-- `Verifies digest password`: what the hashing package says. -/
def Users.Twin (Verifies : String → String → Bool) (u u' : Users) : Prop :=
  ∃ digest, u' = { u with password := digest } ∧
    ∀ password, Verifies u.password password = Verifies digest password

inductive Store.Twin (Verifies : String → String → Bool) (db : Store) : Store → Prop where
  | intro {users : Table Users} : Table.Alike (Users.Twin Verifies) db.users users →
      Twin Verifies db { db with users := users }

inductive World.Twin (Verifies : String → String → Bool) (w : World) : World → Prop where
  | intro {db : Store} : Store.Twin Verifies w.db db → Twin Verifies w { w with db := db }

variable {Verifies : String → String → Bool}

/-! ## Repositories -/

theorem Users.Twin.id_eq {u u' : Users} (h : Users.Twin Verifies u u') : u'.id = u.id := by
  obtain ⟨digest, rfl, -⟩ := h
  rfl

namespace Store.Twin

variable {db db' : Store}

/-- What the two stores answer to a write, and what they become. -/
abbrev Results {α : Type} (Verifies : String → String → Bool) (x x' : α × Store) : Prop :=
  x.1 = x'.1 ∧ Store.Twin Verifies x.2 x'.2

theorem findWallet (h : Store.Twin Verifies db db') (id : String) : db'.findWallet id = db.findWallet id := by
  cases h
  rfl

theorem findUserById (h : Store.Twin Verifies db db') (userId : String) :
    Option.Rel (Users.Twin Verifies) (db.findUserById userId) (db'.findUserById userId) := by
  cases h with
  | intro users => exact users.find? fun u u' hu => by rw [hu.id_eq]

theorem setBalance (h : Store.Twin Verifies db db') (id : String) (balance : ℤ) :
    Store.Twin Verifies (db.setBalance id balance) (db'.setBalance id balance) := by
  cases h with
  | intro users => exact .intro users

theorem updateTransactionProviderRef (h : Store.Twin Verifies db db') (id ref : String) :
    Store.Twin Verifies (db.updateTransactionProviderRef id ref) (db'.updateTransactionProviderRef id ref) := by
  cases h with
  | intro users => exact .intro users

theorem failTransaction (h : Store.Twin Verifies db db') (t : Transaction) (reason : String) :
    Store.Twin Verifies (db.failTransaction t reason) (db'.failTransaction t reason) := by
  cases h with
  | intro users => exact .intro users

theorem completeTransaction (h : Store.Twin Verifies db db') (id : String) :
    Store.Twin Verifies (db.completeTransaction id) (db'.completeTransaction id) := by
  cases h with
  | intro users => exact .intro users

theorem completeTransfer (h : Store.Twin Verifies db db') (id : String) :
    Store.Twin Verifies (db.completeTransfer id) (db'.completeTransfer id) := by
  cases h with
  | intro users => exact .intro users

theorem saveLedgerEntry (h : Store.Twin Verifies db db') (entry : LedgerEntry) :
    Settles (Store.Twin Verifies) (db.saveLedgerEntry entry) (db'.saveLedgerEntry entry) := by
  cases h with
  | intro users =>
    refine (Settles.refl (insertInto db.ledger entry)).bind fun t t' ht => ?_
    cases ht
    exact .ok (.intro users)

theorem saveOutboxEvent (h : Store.Twin Verifies db db') (item : OutboxEvent) :
    Settles (Store.Twin Verifies) (db.saveOutboxEvent item) (db'.saveOutboxEvent item) := by
  cases h with
  | intro users =>
    refine (Settles.refl (insertInto db.outbox item)).bind fun t t' ht => ?_
    cases ht
    exact .ok (.intro users)

theorem isNone_eq_of_rel {α : Type} {R : α → α → Prop} {x x' : Option α} (h : Option.Rel R x x') :
    x'.isNone = x.isNone := by
  cases h with
  | some _ => rfl
  | none => rfl

/-- The foreign key refers to an id. -/
theorem saveWallet (h : Store.Twin Verifies db db') (a : Wallet) :
    Settles (Results Verifies) (db.saveWallet a) (db'.saveWallet a) := by
  have howner : (db'.users.find? (·.id == a.userId)).isNone = (db.users.find? (·.id == a.userId)).isNone :=
    isNone_eq_of_rel (h.findUserById a.userId)
  unfold Store.saveWallet
  rw [howner]
  cases h with
  | intro users =>
    split
    · exact .error _
    · refine (Settles.refl (insertInto db.wallets a)).bind fun t t' ht => ?_
      cases ht
      exact .ok ⟨rfl, .intro users⟩

theorem createTransaction (h : Store.Twin Verifies db db') (t : Transaction) :
    Settles (Results Verifies) (db.createTransaction t) (db'.createTransaction t) := by
  cases h with
  | intro users =>
    refine (Settles.refl (insertInto db.transactions t)).bind fun x x' hx => ?_
    cases hx
    exact .ok ⟨rfl, .intro users⟩

theorem createTransfer (h : Store.Twin Verifies db db') (t : Transfer) :
    Settles (Results Verifies) (db.createTransfer t) (db'.createTransfer t) := by
  cases h with
  | intro users =>
    refine (Settles.refl (insertInto db.transfers t)).bind fun x x' hx => ?_
    cases hx
    exact .ok ⟨rfl, .intro users⟩

theorem settleTransaction (h : Store.Twin Verifies db db') (walletId : String) (t : Transaction)
    (type : LedgerEntryType) (change : ℤ) (item : OutboxEvent) :
    Settles (Results Verifies) (db.settleTransaction walletId t type change item)
      (db'.settleTransaction walletId t type change item) := by
  unfold Store.settleTransaction
  rw [h.findWallet]
  cases db.findWallet walletId with
  | none => exact .error _
  | some wallet =>
    by_cases hneg : wallet.balance + change < 0
    · simp only [hneg, if_true]
      exact .error _
    · simp only [hneg, if_false]
      refine ((h.setBalance _ _).saveLedgerEntry _).bind fun db₁ db₁' h₁ => ?_
      refine ((h₁.completeTransaction t.id).saveOutboxEvent item).bind fun db₂ db₂' h₂ => ?_
      exact .ok ⟨rfl, h₂⟩

theorem executeTransfer (h : Store.Twin Verifies db db') (t : Transfer) (fromWalletId toWalletId : String)
    (item : OutboxEvent) :
    Settles (Results Verifies) (db.executeTransfer t fromWalletId toWalletId item)
      (db'.executeTransfer t fromWalletId toWalletId item) := by
  unfold Store.executeTransfer
  simp only [h.findWallet]
  split
  · -- `firstWallet` is there
    split
    · split
      · exact .error _
      · split
        · refine (((h.setBalance _ _).setBalance _ _).saveLedgerEntry _).bind fun db₁ db₁' h₁ => ?_
          refine (h₁.saveLedgerEntry _).bind fun db₂ db₂' h₂ => ?_
          refine ((h₂.completeTransfer t.id).saveOutboxEvent item).bind fun db₃ db₃' h₃ => ?_
          exact .ok ⟨rfl, h₃⟩
        · exact .error _
    · exact .error _
  · exact .error _

end Store.Twin

/-! ## Operations -/

/-- The operation answers no row of the users and writes none. -/
def Op.Plain : Op → Prop
  | .findUserById _ | .createUser _ | .deleteUser _ => False
  | _ => True

/-- The same operation, with how its answers are related. -/
inductive Op.Twin (Verifies : String → String → Bool) : (o o' : Op) → (Ans o → Ans o' → Prop) → Prop where
  | plain {o : Op} : o.Plain → Twin Verifies o o Eq
  | findUserById (userId : String) :
      Twin Verifies (.findUserById userId) (.findUserById userId) (Option.Rel (Users.Twin Verifies))

namespace World.Twin

variable {w w' : World} {α : Type} {ω : Choice}

/-- How the operation has settled in the two worlds, and what has become of them. -/
abbrev Performed {α α' : Type} (Verifies : String → String → Bool) (R : α → α' → Prop)
    (x : Except Err α × World) (x' : Except Err α' × World) : Prop :=
  Settles R x.1 x'.1 ∧ World.Twin Verifies x.2 x'.2

theorem db (h : World.Twin Verifies w w') : Store.Twin Verifies w.db w'.db := by
  cases h with
  | intro h => exact h

theorem read {R : α → α → Prop} (h : World.Twin Verifies w w') {a a' : α} (ha : R a a') :
    Option.Rel (Performed Verifies R) (w.read ω a) (w'.read ω a') := by
  unfold World.read
  split
  · exact .some ⟨.error _, h⟩
  · exact .some ⟨.ok ha, h⟩

theorem write (h : World.Twin Verifies w w') (a : α) {w₁ w₁' : World} (h₁ : World.Twin Verifies w₁ w₁') :
    Option.Rel (Performed Verifies Eq) (w.write ω a w₁) (w'.write ω a w₁') := by
  unfold World.write
  split
  · exact .some ⟨.error _, h⟩
  · exact .some ⟨.ok rfl, h₁⟩

theorem withDb (h : World.Twin Verifies w w') {db db' : Store} (hdb : Store.Twin Verifies db db') :
    World.Twin Verifies { w with db := db } { w' with db := db' } := by
  cases h with
  | intro _ => exact .intro hdb

theorem withCache (h : World.Twin Verifies w w') (f : List (String × Wallet) → List (String × Wallet)) :
    World.Twin Verifies { w with cache := f w.cache } { w' with cache := f w'.cache } := by
  cases h with
  | intro h => exact .intro h

theorem insert (h : World.Twin Verifies w w') (i : ℕ) {result result' : Except Err (α × Store)}
    (hr : Settles (Store.Twin.Results Verifies) result result') :
    Option.Rel (Performed Verifies Eq) (w.insert i ω result) (w'.insert i ω result') := by
  have hids : w'.issuedIds = w.issuedIds := by
    cases h
    rfl
  unfold World.insert
  rw [hids]
  split
  · exact .none
  · cases ω.fault with
    | some e => exact .some ⟨.error e, h⟩
    | none =>
      cases hr with
      | error e => exact .some ⟨.error e, h⟩
      | ok hr =>
        cases h with
        | intro h => exact .some ⟨.ok hr.1, .intro hr.2⟩

theorem pay (h : World.Twin Verifies w w') (p : Payment) :
    Option.Rel (Performed Verifies Eq) (w.pay p) (w'.pay p) := by
  have hrefs : w'.providerRefs = w.providerRefs := by
    cases h
    rfl
  unfold World.pay
  rw [hrefs]
  split
  · exact .none
  · cases h with
    | intro h => exact .some ⟨.refl _, .intro h⟩

/-- Twin worlds stay twins, and answer the same. -/
theorem performed (h : World.Twin Verifies w w') {o o' : Op} {R : Ans o → Ans o' → Prop}
    (ho : Op.Twin Verifies o o' R) (i : ℕ) :
    Option.Rel (Performed Verifies R) (perform i o ω w) (perform i o' ω w') := by
  cases ho with
  | findUserById userId => exact h.read (h.db.findUserById userId)
  | plain hplain =>
    cases o with
    | findByUserIdAndCurrency userId currency => exact h.read (by obtain ⟨⟨⟩⟩ := h; rfl)
    | findByWalletTag walletTag => exact h.read (by obtain ⟨⟨⟩⟩ := h; rfl)
    | findTransactionByIdempotencyKey key => exact h.read (by obtain ⟨⟨⟩⟩ := h; rfl)
    | findTransactionByProviderRef ref => exact h.read (by obtain ⟨⟨⟩⟩ := h; rfl)
    | findTransferByIdempotencyKey key => exact h.read (by obtain ⟨⟨⟩⟩ := h; rfl)
    | randomBytes => exact h.read rfl
    | newDate => exact h.read rfl
    | saveWallet data => exact h.insert i (h.db.saveWallet _)
    | createTransaction data => exact h.insert i (h.db.createTransaction _)
    | createTransfer data => exact h.insert i (h.db.createTransfer _)
    | settleTransaction walletId t type change data => exact h.insert i (h.db.settleTransaction walletId t type change _)
    | executeTransfer t fromWalletId toWalletId data =>
      exact h.insert i (h.db.executeTransfer t fromWalletId toWalletId _)
    | updateTransactionProviderRef id ref =>
      exact h.write () (h.withDb (h.db.updateTransactionProviderRef id ref))
    | failTransaction t reason => exact h.write () (h.withDb (h.db.failTransaction t reason))
    | processDeposit amount currency paymentMethod transactionId userId => exact h.pay _
    | cacheGet key =>
      show Option.Rel _ (if ω.expired = true then _ else _) (if ω.expired = true then _ else _)
      split
      · exact h.write none (h.withCache fun cache => cache.filter (·.1 != key))
      · exact h.read (by obtain ⟨⟨⟩⟩ := h; rfl)
    | cacheSet key wallet => exact h.write () (h.withCache fun cache => (key, wallet) :: cache.filter (·.1 != key))
    | cacheDel key => exact h.write () (h.withCache fun cache => cache.filter (·.1 != key))
    | _ => cases hplain

end World.Twin

/-! ## Services -/

/-- The two programs await the same operations. -/
abbrev Promise.Twin {α : Type} (Verifies : String → String → Bool) (Q : α → α → Prop) (p p' : Promise α) : Prop :=
  Related (Op.Twin Verifies) Q p p'

section Services

variable {registry : PaymentGatewayRegistry}

theorem twin_of_plain {α : Type} {p : Promise α} (h : p.All Op.Plain) : Promise.Twin Verifies Eq p p :=
  .refl h fun _ ho => .plain ho

theorem ensureWallet_plain (userId currency userName : String) :
    (ensureWallet userId currency userName).All Op.Plain := by
  refine Program.all_await trivial fun existing => ?_
  cases existing with
  | some wallet => trivial
  | none => exact Program.all_await trivial fun _ => Program.all_call trivial

theorem createWallet_plain (userId userName : String) (input : CreateWalletDto) :
    (createWallet userId userName input).All Op.Plain := by
  refine Program.all_await trivial fun existing => ?_
  show Program.All Op.Plain (if existing.isSome then _ else _)
  split
  · trivial
  · exact ensureWallet_plain _ _ _

theorem getBalance_plain (userId currency : String) : (getBalance userId currency).All Op.Plain := by
  refine Program.all_await trivial fun cached => ?_
  cases cached with
  | some wallet => trivial
  | none =>
    refine Program.all_await trivial fun wallet => ?_
    cases wallet with
    | none => trivial
    | some wallet => exact Program.all_await trivial fun _ => trivial

theorem afterGateway_plain (t : Transaction) (g : PaymentGatewayResult) :
    (afterGateway t g).All Op.Plain := by
  have hend : Program.All Op.Plain (if g.requiresWebhook then pure { checkoutUrl := g.checkoutUrl }
      else throw (.badRequest "No settlement path available for gateway") : Promise DepositResult) := by
    split <;> trivial
  unfold afterGateway
  dsimp only
  split
  · exact Program.all_await trivial fun _ => trivial
  · cases g.storedRef with
    | none => exact hend
    | some providerRef => exact Program.all_await trivial fun _ => hend

theorem deposit_plain (userId : String) (input : DepositDto) :
    (deposit registry userId input).All Op.Plain := by
  refine Program.all_await trivial fun existing => ?_
  cases existing with
  | some t => trivial
  | none =>
    refine Program.all_await trivial fun wallet => ?_
    cases wallet with
    | none => trivial
    | some wallet =>
      refine Program.all_await trivial fun t => (Program.all_ofExcept _).bind fun _ => ?_
      exact Program.all_await trivial fun g => afterGateway_plain t g

theorem failByProviderRef_plain (providerRef reason : String) :
    (failByProviderRef providerRef reason).All Op.Plain := by
  refine Program.all_await trivial fun t => ?_
  cases t with
  | none => trivial
  | some t =>
    show Program.All Op.Plain (if t.status ≠ .pending then _ else _)
    split
    · trivial
    · exact Program.all_call trivial

/-- The rule for an operation that answers no user. -/
theorem plain_await {α : Type} {Q : α → α → Prop} {o : Op} {f f' : Ans o → Promise α} (ho : o.Plain)
    (hf : ∀ a, Promise.Twin Verifies Q (f a) (f' a)) :
    Promise.Twin Verifies Q (await o >>= f) (await o >>= f') :=
  .call_bind (.plain ho) fun a a' ha => by
    cases ha
    exact hf a

theorem getUserEmail_twin (userId : String) :
    Promise.Twin Verifies Eq (getUserEmail userId) (getUserEmail userId) := by
  refine .call_bind (.findUserById userId) fun user user' huser => ?_
  cases huser with
  | none => exact .pure rfl
  | some huser =>
    obtain ⟨digest, rfl, -⟩ := huser
    exact .pure rfl

theorem getUserName_twin (userId : String) :
    Promise.Twin Verifies Eq (getUserName userId) (getUserName userId) := by
  refine .call_bind (.findUserById userId) fun user user' huser => ?_
  cases huser with
  | none => exact .pure rfl
  | some huser =>
    obtain ⟨digest, rfl, -⟩ := huser
    exact .pure rfl

theorem settleByProviderRef_twin (providerRef : String) :
    Promise.Twin Verifies Eq (settleByProviderRef providerRef) (settleByProviderRef providerRef) := by
  refine plain_await trivial fun t => ?_
  cases t with
  | none => exact .pure rfl
  | some t =>
    dsimp only
    split
    · exact .pure rfl
    · refine plain_await trivial fun wallet => ?_
      cases wallet with
      | none => exact .pure rfl
      | some wallet =>
        refine (getUserEmail_twin t.userId).bind fun email email' hemail => ?_
        cases hemail
        refine plain_await trivial fun now => plain_await trivial fun entry => ?_
        exact twin_of_plain (Program.all_call trivial)

theorem handleWebhook_twin (signature : Option String) (constructed : Except String StripeWebhookEvent) :
    Promise.Twin Verifies Eq (handleWebhook signature constructed) (handleWebhook signature constructed) := by
  unfold handleWebhook
  by_cases hsignature : (signature.getD "").isEmpty = true
  · simp only [hsignature, if_true]
    exact .throw _
  simp only [hsignature, Bool.false_eq_true, if_false]
  cases constructed with
  | error e => exact .throw _
  | ok event =>
    by_cases htype : event.type = "checkout.session.completed"
    · by_cases hpaid : event.paymentStatus = some "paid"
      · simp only [htype, hpaid, if_true]
        exact settleByProviderRef_twin _
      · simp only [htype, hpaid, if_true, if_false]
        exact .pure rfl
    · simp only [htype, if_false]
      split
      · exact twin_of_plain (failByProviderRef_plain _ _)
      · exact .pure rfl

theorem moveMoney_twin (fromUserId fromUserEmail : String) (input : InitiateTransferDto)
    (fromWallet toWallet : Wallet) :
    Promise.Twin Verifies Eq (moveMoney fromUserId fromUserEmail input fromWallet toWallet)
      (moveMoney fromUserId fromUserEmail input fromWallet toWallet) := by
  refine Related.bind (Related.both (getUserName_twin fromUserId)
    (.call _ _ (.findUserById toWallet.userId))) fun x x' hx => ?_
  obtain ⟨name, user⟩ := x
  obtain ⟨name', user'⟩ := x'
  obtain ⟨hname, huser⟩ := hx
  cases hname
  dsimp only
  -- the payload has the name and the email of the receiver
  have hpayload : ∀ id now, transferOutboxPayload id fromUserId toWallet.userId input.amount input.currency.value
      fromUserEmail name user' now = transferOutboxPayload id fromUserId toWallet.userId input.amount
        input.currency.value fromUserEmail name user now := by
    intro id now
    cases huser with
    | none => rfl
    | some huser =>
      obtain ⟨digest, rfl, -⟩ := huser
      rfl
  refine plain_await trivial fun t => plain_await trivial fun now => ?_
  rw [hpayload]
  refine plain_await trivial fun _ => ?_
  refine twin_of_plain (Program.All.bind ?_ fun _ => trivial)
  exact Program.All.both (Program.all_call trivial) (Program.all_call trivial)

theorem initiateTransfer_twin (fromUserId fromUserEmail : String) (input : InitiateTransferDto) :
    Promise.Twin Verifies Eq (initiateTransfer fromUserId fromUserEmail input)
      (initiateTransfer fromUserId fromUserEmail input) := by
  refine plain_await trivial fun toWallet => ?_
  cases toWallet with
  | none => exact .throw _
  | some toWallet =>
    dsimp only
    split
    · exact .throw _
    · split
      · exact .throw _
      · refine plain_await trivial fun existing => ?_
        cases existing with
        | some t => exact .pure rfl
        | none =>
          refine plain_await trivial fun fromWallet => ?_
          cases fromWallet with
          | none => exact .throw _
          | some fromWallet => exact moveMoney_twin _ _ _ _ _

end Services

end LiorParisWallet
