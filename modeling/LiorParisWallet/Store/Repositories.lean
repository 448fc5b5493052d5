import LiorParisWallet.Store.Entities

/-!
# Repositories

The methods of `WalletRepository`, `TransfersRepository` and `UsersRepository`.  A method that writes
either returns the store it leaves or throws, and then the store is as before: a single statement fails
as a whole, and the body of `dataSource.transaction` is rolled back.

Keys, tags, references and emails are compared by the database only, so here they stand for what they are under
its collation; ids are compared by the program as well, and `Packages.collate` says how the database spells them.
Amounts are integers and columns have any width; `Numbers` computes with JavaScript's numbers, and `Columns` has the
widths.
-/

namespace LiorParisWallet

open Relational

namespace Store

/-- `repository.save` of a new entity. -/
def insertInto {ρ : Type} [Entity ρ] (t : Table ρ) (r : ρ) : Except Err (Table ρ) :=
  match t.insert? r with
  | some t => .ok t
  | none => .error .duplicateEntry

/-! ## `wallet.repository.ts` -/

def findByUserIdAndCurrency (db : Store) (userId currency : String) : Option Wallet :=
  db.wallets.find? fun w => w.userId == userId && w.currency == currency

def findByWalletTag (db : Store) (walletTag : String) : Option Wallet :=
  db.wallets.find? fun w => w.walletTag == walletTag

def findWallet (db : Store) (id : String) : Option Wallet :=
  db.wallets.find? fun w => w.id == id

def findTransactionByIdempotencyKey (db : Store) (key : String) : Option Transaction :=
  db.transactions.find? fun t => t.idempotencyKey == key

def findTransactionByProviderRef (db : Store) (providerRef : String) : Option Transaction :=
  db.transactions.find? fun t => t.providerRef == some providerRef

/-- `manager.update(Wallet, id, { balance })` -/
def setBalance (db : Store) (id : String) (balance : ℤ) : Store :=
  { db with
    wallets := db.wallets.update (·.id == id) (fun w => { w with balance := balance })
      fun _ _ => rfl }

def updateTransactionProviderRef (db : Store) (transactionId providerRef : String) : Store :=
  { db with
    transactions := db.transactions.update (·.id == transactionId)
      (fun t => { t with providerRef := some providerRef }) fun _ _ => rfl }

def failTransaction (db : Store) (transaction : Transaction) (reason : String) : Store :=
  { db with
    transactions := db.transactions.update (·.id == transaction.id)
      (fun t => { t with status := .failed, failureReason := some reason }) fun _ _ => rfl }

/-- `manager.update(Transaction, id, { status: Completed })` -/
def completeTransaction (db : Store) (id : String) : Store :=
  { db with
    transactions := db.transactions.update (·.id == id)
      (fun t => { t with status := .completed }) fun _ _ => rfl }

/-- `walletRepo.save` in `ensureWallet`; `user_id` is a foreign key. -/
def saveWallet (db : Store) (wallet : Wallet) : Except Err (Wallet × Store) := do
  if (db.users.find? (·.id == wallet.userId)).isNone then
    throw .noReferencedRow
  let wallets ← insertInto db.wallets wallet
  return (wallet, { db with wallets })

def createTransaction (db : Store) (transaction : Transaction) : Except Err (Transaction × Store) := do
  let transactions ← insertInto db.transactions transaction
  return (transaction, { db with transactions })

/-- A key that is too long for its column is refused by `Columns.perform`. -/
def saveLedgerEntry (db : Store) (entry : LedgerEntry) : Except Err Store := do
  let ledger ← insertInto db.ledger entry
  return { db with ledger }

def saveOutboxEvent (db : Store) (event : OutboxEvent) : Except Err Store := do
  let outbox ← insertInto db.outbox event
  return { db with outbox }

/-- The body of the transaction in `settleTransaction`.  A wallet that is gone is `null`, and reading
    its balance throws.  The sum is that of integers; `Numbers.settleTransaction` rounds it as JavaScript does. -/
def settleTransaction (db : Store) (walletId : String) (transaction : Transaction)
    (entryType : LedgerEntryType) (balanceChange : ℤ) (outboxItem : OutboxEvent) :
    Except Err (LedgerEntry × Store) := do
  let some wallet := db.findWallet walletId
    | throw .typeError
  let newBalance := wallet.balance + balanceChange
  if newBalance < 0 then
    throw (.badRequest "Insufficient balance")
  -- the amount is the transaction's and the currency the wallet's
  let entry : LedgerEntry :=
    { walletId := walletId
      type := entryType
      amount := transaction.amount
      currency := wallet.currency
      balanceAfter := newBalance
      idempotencyKey := transaction.idempotencyKey }
  let db ← (db.setBalance walletId newBalance).saveLedgerEntry entry
  -- whatever the stored status is: it was checked on a row that was read before
  let db ← (db.completeTransaction transaction.id).saveOutboxEvent outboxItem
  return (entry, db)

/-! ## `transfers.repository.ts` -/

def findTransferByIdempotencyKey (db : Store) (key : String) : Option Transfer :=
  db.transfers.find? fun t => t.idempotencyKey == key

def createTransfer (db : Store) (transfer : Transfer) : Except Err (Transfer × Store) := do
  let transfers ← insertInto db.transfers transfer
  return (transfer, { db with transfers })

/-- `manager.update(Transfer, id, { status: Completed })` -/
def completeTransfer (db : Store) (id : String) : Store :=
  { db with
    transfers := db.transfers.update (·.id == id)
      (fun t => { t with status := .completed }) fun _ _ => rfl }

/-- The body of the transaction in `executeTransfer`.  The rows are locked in the order of their ids
    and renamed afterwards; where one of them is missing, `firstWallet.id`, `fromWallet.balance` or
    `toWallet.balance` throws.  `Numbers.executeTransfer` computes the two balances as JavaScript does. -/
def executeTransfer (db : Store) (transfer : Transfer) (fromWalletId toWalletId : String)
    (outboxItem : OutboxEvent) : Except Err (Unit × Store) := do
  let (walletIdFirst, walletIdSecond) :=
    if fromWalletId < toWalletId then (fromWalletId, toWalletId) else (toWalletId, fromWalletId)
  let some firstWallet := db.findWallet walletIdFirst
    | throw .typeError
  let secondWallet := db.findWallet walletIdSecond
  let some fromWallet := if firstWallet.id = fromWalletId then some firstWallet else secondWallet
    | throw .typeError
  let toWallet := if firstWallet.id = toWalletId then some firstWallet else secondWallet
  -- only the sender's balance is checked, and nothing is said about currencies
  let senderNewBalance := fromWallet.balance - transfer.amount
  if senderNewBalance < 0 then
    throw (.badRequest "Insufficient balance")
  let some toWallet := toWallet
    | throw .typeError
  let receiverNewBalance := toWallet.balance + transfer.amount
  let db := (db.setBalance fromWallet.id senderNewBalance).setBalance toWallet.id receiverNewBalance
  let db ← db.saveLedgerEntry
    { walletId := fromWallet.id
      type := .transferOut
      amount := transfer.amount
      currency := transfer.currency
      balanceAfter := senderNewBalance
      idempotencyKey := transfer.idempotencyKey ++ ":out" }
  let db ← db.saveLedgerEntry
    { walletId := toWallet.id
      type := .transferIn
      amount := transfer.amount
      currency := transfer.currency
      balanceAfter := receiverNewBalance
      idempotencyKey := transfer.idempotencyKey ++ ":in" }
  let db ← (db.completeTransfer transfer.id).saveOutboxEvent outboxItem
  return ((), db)

/-! ## `users.repository.ts` -/

def createUser (db : Store) (user : Users) : Except Err (Users × Store) := do
  let users ← insertInto db.users user
  return (user, { db with users })

def findUserById (db : Store) (userId : String) : Option Users :=
  db.users.find? fun u => u.id == userId

/-- The user's wallets go with the user (`onDelete: 'CASCADE'`); nothing else refers to users. -/
def deleteUser (db : Store) (id : String) : Store :=
  { db with
    users := db.users.delete (·.id == id)
    wallets := db.wallets.delete (·.userId == id) }

end Store

end LiorParisWallet
