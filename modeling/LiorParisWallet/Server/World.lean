import LiorParisWallet.Async.System
import LiorParisWallet.Shared.WalletTag
import LiorParisWallet.Store.Repositories

/-!
# The world of the money server

What the wallet and transfer services work on: the database, the Redis cache, the payment provider and
the generator of ids.  `perform` says what one awaited operation does to it; an operation that fails
changes nothing, except that the provider has seen the call.
-/

namespace LiorParisWallet

open Relational

structure PaymentGatewayResult where
  success : Bool
  providerRef : Option String := none
  checkoutUrl : Option String := none
  requiresWebhook : Bool := false
  failureReason : Option String := none
deriving DecidableEq, Repr

/-- One call of `processDeposit`, as the provider saw it.  `call` is the number of the caller. -/
structure Payment where
  call : ℕ
  amount : ℤ
  currency : String
  paymentMethod : String
  transactionId : String
  userId : String
  answer : Except Err PaymentGatewayResult

/-- The reference under which the provider will report on the payment. -/
def Payment.providerRef (p : Payment) : Option String :=
  match p.answer with
  | .ok r => if r.success then r.providerRef else none
  | .error _ => none

structure World where
  db : Store
  cache : List (String × Wallet)
  payments : List Payment
  /-- The ids generated so far, each with the number of the call that it was generated for. -/
  issued : List (String × ℕ)

/-- What the program does not determine: the id that is generated, the time, the random bytes, the
    answer of the provider, whether a cache entry has expired and whether the operation gets through. -/
structure Choice where
  uuid : String := ""
  now : ℕ := 0
  bytes : UInt8 × UInt8 := (0, 0)
  gateway : Except Err PaymentGatewayResult := .error .unavailable
  expired : Bool := false
  fault : Option Err := none

/-- The properties given to `transactionRepo.create`; the other columns have their defaults. -/
structure TransactionData where
  userId : String
  type : TransactionType
  amount : ℤ
  currency : String
  paymentMethod : String
  idempotencyKey : String

def TransactionData.create (d : TransactionData) (id : String) : Transaction :=
  { id := id
    userId := d.userId
    type := d.type
    amount := d.amount
    currency := d.currency
    paymentMethod := d.paymentMethod
    status := .pending
    idempotencyKey := d.idempotencyKey
    providerRef := none
    failureReason := none }

structure TransferData where
  fromUserId : String
  toUserId : String
  amount : ℤ
  currency : String
  idempotencyKey : String

def TransferData.create (d : TransferData) (id : String) : Transfer :=
  { id := id
    fromUserId := d.fromUserId
    toUserId := d.toUserId
    amount := d.amount
    currency := d.currency
    status := .pending
    idempotencyKey := d.idempotencyKey
    failureReason := none }

structure WalletData where
  userId : String
  balance : ℤ
  currency : String
  walletTag : String

def WalletData.create (d : WalletData) (id : String) : Wallet :=
  { id := id
    userId := d.userId
    balance := d.balance
    currency := d.currency
    walletTag := d.walletTag }

/-- An `outboxPayload`: what the services build for `manager.create(OutboxEvent, …)`. -/
structure OutboxData where
  eventName : DomainEventName
  aggregateId : String
  payloadJson : Record
  occurredAt : ℕ
  processedAt : Option ℕ := none
  retryCount : ℕ := 0

def OutboxData.create (d : OutboxData) (id : String) (now : ℕ) : OutboxEvent :=
  { id := id
    eventName := d.eventName
    aggregateId := d.aggregateId
    payloadJson := d.payloadJson
    occurredAt := d.occurredAt
    processedAt := d.processedAt
    retryCount := d.retryCount
    createdAt := now }

structure UserData where
  name : String
  email : String
  password : String
  role : UserRole

def UserData.create (d : UserData) (id : String) : Users :=
  { id := id
    name := d.name
    email := d.email
    password := d.password
    role := d.role }

/-- Everything the services await. -/
inductive Op where
  | findByUserIdAndCurrency (userId currency : String)
  | findByWalletTag (walletTag : String)
  | findTransactionByIdempotencyKey (key : String)
  | findTransactionByProviderRef (providerRef : String)
  | updateTransactionProviderRef (transactionId providerRef : String)
  | saveWallet (data : WalletData)
  | createTransaction (data : TransactionData)
  | failTransaction (transaction : Transaction) (reason : String)
  | settleTransaction (walletId : String) (transaction : Transaction) (entryType : LedgerEntryType)
      (balanceChange : ℤ) (outboxPayload : OutboxData)
  | findTransferByIdempotencyKey (key : String)
  | createTransfer (data : TransferData)
  | executeTransfer (transfer : Transfer) (fromWalletId toWalletId : String)
      (outboxPayload : OutboxData)
  | createUser (data : UserData)
  | findUserById (userId : String)
  | deleteUser (id : String)
  | processDeposit (amount : ℤ) (currency paymentMethod transactionId userId : String)
  | cacheGet (key : String)
  | cacheSet (key : String) (wallet : Wallet)
  | cacheDel (key : String)
  /-- `randomBytes(2)` -/
  | randomBytes
  /-- `new Date()` -/
  | newDate

abbrev Ans : Op → Type
  | .findByUserIdAndCurrency _ _ => Option Wallet
  | .findByWalletTag _ => Option Wallet
  | .findTransactionByIdempotencyKey _ => Option Transaction
  | .findTransactionByProviderRef _ => Option Transaction
  | .updateTransactionProviderRef _ _ => Unit
  | .saveWallet _ => Wallet
  | .createTransaction _ => Transaction
  | .failTransaction _ _ => Unit
  | .settleTransaction _ _ _ _ _ => LedgerEntry
  | .findTransferByIdempotencyKey _ => Option Transfer
  | .createTransfer _ => Transfer
  | .executeTransfer _ _ _ _ => Unit
  | .createUser _ => Users
  | .findUserById _ => Option Users
  | .deleteUser _ => Unit
  | .processDeposit _ _ _ _ _ => PaymentGatewayResult
  | .cacheGet _ => Option Wallet
  | .cacheSet _ _ => Unit
  | .cacheDel _ => Unit
  | .randomBytes => UInt8 × UInt8
  | .newDate => ℕ

namespace World

variable {α : Type}

def issuedIds (w : World) : List String := w.issued.map (·.1)

def providerRefs (w : World) : List String := w.payments.filterMap (·.providerRef)

/-- An operation that only reads. -/
def read (w : World) (ω : Choice) (a : α) : Option (Except Err α × World) :=
  match ω.fault with
  | some e => some (.error e, w)
  | none => some (.ok a, w)

/-- An operation that leaves the world `w'`. -/
def write (w : World) (ω : Choice) (a : α) (w' : World) : Option (Except Err α × World) :=
  match ω.fault with
  | some e => some (.error e, w)
  | none => some (.ok a, w')

/-- A transaction of call `i` that inserts a row with the generated id `ω.uuid`.  No id is generated
    twice. -/
def insert (w : World) (i : ℕ) (ω : Choice) (result : Except Err (α × Store)) :
    Option (Except Err α × World) :=
  if ω.uuid ∈ w.issuedIds then none
  else match ω.fault, result with
    -- the transaction is rolled back, and the id that it would have used is free again
    | some e, _ => some (.error e, w)
    | none, .error e => some (.error e, w)
    | none, .ok (a, db) => some (.ok a, { w with db := db, issued := (ω.uuid, i) :: w.issued })

/-- The provider is called.  It gives no reference twice. -/
def pay (w : World) (payment : Payment) : Option (Except Err PaymentGatewayResult × World) :=
  if ∃ ref ∈ payment.providerRef, ref ∈ w.providerRefs then none
  else some (payment.answer, { w with payments := w.payments ++ [payment] })

end World

def perform (i : ℕ) : (o : Op) → Choice → World → Option (Except Err (Ans o) × World)
  | .findByUserIdAndCurrency userId currency, ω, w =>
      w.read ω (w.db.findByUserIdAndCurrency userId currency)
  | .findByWalletTag walletTag, ω, w => w.read ω (w.db.findByWalletTag walletTag)
  | .findTransactionByIdempotencyKey key, ω, w =>
      w.read ω (w.db.findTransactionByIdempotencyKey key)
  | .findTransactionByProviderRef providerRef, ω, w =>
      w.read ω (w.db.findTransactionByProviderRef providerRef)
  | .updateTransactionProviderRef transactionId providerRef, ω, w =>
      w.write ω () { w with db := w.db.updateTransactionProviderRef transactionId providerRef }
  | .saveWallet data, ω, w => w.insert i ω (w.db.saveWallet (data.create ω.uuid))
  | .createTransaction data, ω, w => w.insert i ω (w.db.createTransaction (data.create ω.uuid))
  | .failTransaction transaction reason, ω, w =>
      w.write ω () { w with db := w.db.failTransaction transaction reason }
  | .settleTransaction walletId transaction entryType balanceChange outboxPayload, ω, w =>
      w.insert i ω (w.db.settleTransaction walletId transaction entryType balanceChange
        (outboxPayload.create ω.uuid ω.now))
  | .findTransferByIdempotencyKey key, ω, w => w.read ω (w.db.findTransferByIdempotencyKey key)
  | .createTransfer data, ω, w => w.insert i ω (w.db.createTransfer (data.create ω.uuid))
  | .executeTransfer transfer fromWalletId toWalletId outboxPayload, ω, w =>
      w.insert i ω (w.db.executeTransfer transfer fromWalletId toWalletId
        (outboxPayload.create ω.uuid ω.now))
  | .createUser data, ω, w => w.insert i ω (w.db.createUser (data.create ω.uuid))
  | .findUserById userId, ω, w => w.read ω (w.db.findUserById userId)
  | .deleteUser id, ω, w => w.write ω () { w with db := w.db.deleteUser id }
  | .processDeposit amount currency paymentMethod transactionId userId, ω, w =>
      w.pay
        { call := i
          amount := amount
          currency := currency
          paymentMethod := paymentMethod
          transactionId := transactionId
          userId := userId
          answer := ω.gateway }
  | .cacheGet key, ω, w =>
      if ω.expired then w.write ω none { w with cache := w.cache.filter (·.1 != key) }
      else w.read ω (w.cache.lookup key)
  | .cacheSet key wallet, ω, w =>
      w.write ω () { w with cache := (key, wallet) :: w.cache.filter (·.1 != key) }
  | .cacheDel key, ω, w => w.write ω () { w with cache := w.cache.filter (·.1 != key) }
  | .randomBytes, ω, w => w.read ω ω.bytes
  | .newDate, ω, w => w.read ω ω.now

/-- An asynchronous function of the money server. -/
abbrev Promise (α : Type) : Type := Async.Program Op Ans Err α

def await (o : Op) : Promise (Ans o) := .call o

end LiorParisWallet
