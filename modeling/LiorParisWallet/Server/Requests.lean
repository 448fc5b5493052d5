import LiorParisWallet.Services.Transfers
import LiorParisWallet.Services.Users

/-!
# The money server

Everything that can be asked of it, and its runs: any number of requests, interleaved at every `await`.
-/

namespace LiorParisWallet

open Async Relational

inductive Request where
  | createWallet (userId userName : String) (input : CreateWalletDto)
  | ensureWallet (userId currency userName : String)
  /-- `WalletEventListener.handleUserRegistered` -/
  | handleUserRegistered (payload : UserRegisteredPayload)
  | getBalance (userId currency : String)
  | deposit (userId : String) (input : DepositDto)
  | settleByProviderRef (providerRef : String)
  | failByProviderRef (providerRef reason : String)
  | handleWebhook (signature : Option String) (constructed : Except String StripeWebhookEvent)
  | initiateTransfer (fromUserId fromUserEmail : String) (input : InitiateTransferDto)
  | createUser (input : UserData)
  | deleteUser (requestingUserId targetUserId : String) (role : UserRole)

inductive Reply where
  | wallet (w : Wallet)
  | deposit (result : DepositResult)
  | user (u : Users)
  | done
deriving DecidableEq, Repr

def serve (registry : PaymentGatewayRegistry) : Request → Promise Reply
  | .createWallet userId userName input => do return .wallet (← createWallet userId userName input)
  | .ensureWallet userId currency userName => do
      return .wallet (← ensureWallet userId currency userName)
  | .handleUserRegistered payload => do
      let _ ← ensureWallet payload.userId defaultCurrency.value payload.name
      return .done
  | .getBalance userId currency => do return .wallet (← getBalance userId currency)
  | .deposit userId input => do return .deposit (← deposit registry userId input)
  | .settleByProviderRef providerRef => do
      settleByProviderRef providerRef
      return .done
  | .failByProviderRef providerRef reason => do
      failByProviderRef providerRef reason
      return .done
  | .handleWebhook signature constructed => do
      handleWebhook signature constructed
      return .done
  | .initiateTransfer fromUserId fromUserEmail input => do
      initiateTransfer fromUserId fromUserEmail input
      return .done
  | .createUser input => do return .user (← createUser input)
  | .deleteUser requestingUserId targetUserId role => do
      deleteUser requestingUserId targetUserId role
      return .done

def server (registry : PaymentGatewayRegistry) : Server Op Ans Err Request Reply Choice World where
  serve := serve registry
  perform := perform

abbrev State := System Op Ans Err Request Reply World

/-- A world without wallets, transactions, transfers and ledger entries, in which no payment has been
    made.  It may have users, and events of other kinds. -/
structure World.Initial (w : World) : Prop where
  wallets : w.db.wallets = Table.empty
  transactions : w.db.transactions = Table.empty
  transfers : w.db.transfers = Table.empty
  ledger : w.db.ledger = Table.empty
  outbox : ∀ ev ∈ w.db.outbox, ev.eventName ≠ .depositSucceeded ∧
    ev.eventName ≠ .transferCompleted ∧ ev.id ∈ w.issuedIds
  payments : w.payments = []
  issued : w.issuedIds.Nodup

/-- The initial world with these users and nothing else. -/
def World.fresh (users : Table Users) : World where
  db :=
    { users := users
      wallets := Table.empty
      transactions := Table.empty
      transfers := Table.empty
      ledger := Table.empty
      outbox := Table.empty }
  cache := []
  payments := []
  issued := []

theorem World.fresh_initial (users : Table Users) : (World.fresh users).Initial :=
  ⟨rfl, rfl, rfl, rfl, fun ev hev => absurd hev (Table.not_mem_empty ev), rfl, List.nodup_nil⟩

/-- A state that some run reaches from an initial world, every step of it admitted by `allowed`. -/
def ReachableBy (registry : PaymentGatewayRegistry)
    (allowed : State → Label Request Choice → Prop) (s : State) : Prop :=
  ∃ w : World, w.Initial ∧ (server registry).Reaches allowed ⟨w, []⟩ s

/-- A state that some run reaches from an initial world. -/
def Reachable (registry : PaymentGatewayRegistry) (s : State) : Prop :=
  ReachableBy registry Server.Any s

def Op.isDeletion : Op → Bool
  | .deleteUser _ => true
  | _ => false

/-- No step deletes a user. -/
def NoDeletion (s : State) : Label Request Choice → Prop
  | .start _ => True
  | .step i _ => ∀ o ∈ s.awaits i, o.isDeletion = false

instance (s : State) (l : Label Request Choice) : Decidable (NoDeletion s l) :=
  match l with
  | .start _ => .isTrue trivial
  | .step i _ => inferInstanceAs (Decidable (∀ o ∈ s.awaits i, o.isDeletion = false))

theorem reachable_of_run {registry : PaymentGatewayRegistry} {users : Table Users}
    {ls : List (Label Request Choice)} {s : State}
    (h : (server registry).run ls ⟨World.fresh users, []⟩ = some s) : Reachable registry s :=
  ⟨_, World.fresh_initial users, Server.reaches_of_run h⟩

theorem reachableBy_of_run {registry : PaymentGatewayRegistry} {users : Table Users}
    {allowed : State → Label Request Choice → Prop} [∀ s l, Decidable (allowed s l)]
    {ls : List (Label Request Choice)} {s : State}
    (h : (server registry).runUnder allowed ls ⟨World.fresh users, []⟩ = some s) :
    ReachableBy registry allowed s :=
  ⟨_, World.fresh_initial users, Server.reaches_of_runUnder h⟩

theorem ReachableBy.reachable {registry : PaymentGatewayRegistry}
    {allowed : State → Label Request Choice → Prop} {s : State}
    (h : ReachableBy registry allowed s) : Reachable registry s :=
  let ⟨w, hw, hr⟩ := h
  ⟨w, hw, hr.any⟩

/-! ## A run

Ada and Bob open wallets, Ada pays in 50 by card, and sends Bob 20. -/

def adaAndBob : Table Users :=
  ⟨[⟨"u1", "Ada", "ada@example.com", "", .user⟩, ⟨"u2", "Bob", "bob@example.com", "", .user⟩],
    by decide⟩

def cardPayments : PaymentGatewayRegistry := PaymentGatewayRegistry.create [stripePaymentGateway]

def openWallet (i : ℕ) (userId userName walletId : String) : List (Label Request Choice) :=
  [.start (.ensureWallet userId "EUR" userName), .step i {}, .step i {},
    .step i { uuid := walletId }]

def euros (amount : ℤ) (h : 1 ≤ amount) (key : String) (hk : key ≠ "") : DepositDto :=
  ⟨amount, h, .eur, "stripe", by decide, key, hk⟩

/-- A deposit for which the provider opens the checkout session `session`. -/
def payIn (i : ℕ) (userId : String) (input : DepositDto) (transactionId session : String) :
    List (Label Request Choice) :=
  [.start (.deposit userId input), .step i {}, .step i {}, .step i { uuid := transactionId },
    .step i
      { gateway := .ok
          { success := true
            providerRef := some session
            checkoutUrl := some session
            requiresWebhook := true } },
    .step i {}]

def paid (session : String) : Request :=
  .handleWebhook (some "signature")
    (.ok ⟨"event", "checkout.session.completed", session, some "paid"⟩)

def expired (session : String) : Request :=
  .handleWebhook (some "signature") (.ok ⟨"event", "checkout.session.expired", session, none⟩)

def settle (i : ℕ) (session eventId : String) : List (Label Request Choice) :=
  [.start (paid session), .step i {}, .step i {}, .step i {}, .step i {},
    .step i { uuid := eventId }, .step i {}]

def send (i : ℕ) (fromUserId fromUserEmail : String) (input : InitiateTransferDto)
    (transferId eventId : String) : List (Label Request Choice) :=
  [.start (.initiateTransfer fromUserId fromUserEmail input), .step i {}, .step i {}, .step i {},
    .step i {}, .step i {}, .step i { uuid := transferId }, .step i {}, .step i { uuid := eventId },
    .step i {}, .step i {}]

def topup : DepositDto := euros 50 (by decide) "topup" (by decide)

def toBob : InitiateTransferDto := ⟨"bob-0000", by decide, 20, by decide, .eur, "rent", by decide⟩

def everyday : List (Label Request Choice) :=
  openWallet 0 "u1" "Ada" "w1" ++ openWallet 1 "u2" "Bob" "w2" ++
    payIn 2 "u1" topup "t1" "cs1" ++ settle 3 "cs1" "e1" ++
    send 4 "u1" "ada@example.com" toBob "x1" "e2"

example : ((server cardPayments).run everyday ⟨World.fresh adaAndBob, []⟩).map
    (fun s => s.world.db.wallets.rows.map (·.balance)) = some [30, 20] := by decide

end LiorParisWallet
