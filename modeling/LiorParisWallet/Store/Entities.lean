import LiorParisWallet.Relational.Table
import LiorParisWallet.Shared.Constants

/-!
# Entities

The tables of the database with their unique indexes, as `synchronize` creates them.  Columns that
nothing in the program reads (`updated_at`, the `id` and dates of a ledger entry) are left out.
-/

namespace LiorParisWallet

open Relational

structure Users where
  id : String
  name : String
  email : String
  password : String
  role : UserRole
deriving DecidableEq, Repr

instance : Entity Users where
  clash a b := a.id == b.id || a.email == b.email
  clash_self a := by simp
  clash_comm a b := by rw [BEq.comm (a := a.id), BEq.comm (a := a.email)]

structure Wallet where
  id : String
  userId : String
  balance : ℤ
  currency : String
  walletTag : String
deriving DecidableEq, Repr

instance : Entity Wallet where
  clash a b := a.id == b.id || (a.userId == b.userId && a.currency == b.currency) ||
    a.walletTag == b.walletTag
  clash_self a := by simp
  clash_comm a b := by
    rw [BEq.comm (a := a.id), BEq.comm (a := a.userId), BEq.comm (a := a.currency),
      BEq.comm (a := a.walletTag)]

inductive TransactionStatus where
  | pending
  | completed
  | failed
deriving DecidableEq, Repr

inductive TransactionType where
  | deposit
deriving DecidableEq, Repr

structure Transaction where
  id : String
  userId : String
  type : TransactionType
  amount : ℤ
  currency : String
  paymentMethod : String
  status : TransactionStatus
  idempotencyKey : String
  providerRef : Option String
  failureReason : Option String
deriving DecidableEq, Repr

instance : Entity Transaction where
  clash a b := a.id == b.id || a.idempotencyKey == b.idempotencyKey
  clash_self a := by simp
  clash_comm a b := by rw [BEq.comm (a := a.id), BEq.comm (a := a.idempotencyKey)]

inductive LedgerEntryType where
  | deposit
  | transferOut
  | transferIn
deriving DecidableEq, Repr

structure LedgerEntry where
  walletId : String
  type : LedgerEntryType
  amount : ℤ
  currency : String
  balanceAfter : ℤ
  idempotencyKey : String
deriving DecidableEq, Repr

instance : Entity LedgerEntry where
  clash a b := a.idempotencyKey == b.idempotencyKey
  clash_self a := by simp
  clash_comm a b := BEq.comm

inductive TransferStatus where
  | pending
  | completed
  | failed
deriving DecidableEq, Repr

structure Transfer where
  id : String
  fromUserId : String
  toUserId : String
  amount : ℤ
  currency : String
  status : TransferStatus
  idempotencyKey : String
  failureReason : Option String
deriving DecidableEq, Repr

instance : Entity Transfer where
  clash a b := a.id == b.id || a.idempotencyKey == b.idempotencyKey
  clash_self a := by simp
  clash_comm a b := by rw [BEq.comm (a := a.id), BEq.comm (a := a.idempotencyKey)]

structure OutboxEvent where
  id : String
  eventName : DomainEventName
  aggregateId : String
  payloadJson : Record
  occurredAt : ℕ
  processedAt : Option ℕ
  retryCount : ℕ
  createdAt : ℕ
deriving DecidableEq, Repr

instance : Entity OutboxEvent where
  clash a b := a.id == b.id
  clash_self a := by simp
  clash_comm a b := BEq.comm

structure Store where
  users : Table Users
  wallets : Table Wallet
  transactions : Table Transaction
  transfers : Table Transfer
  ledger : Table LedgerEntry
  outbox : Table OutboxEvent

/-! ## Equal indexes, equal rows -/

section Indexes

variable {wallets : Table Wallet} {transactions : Table Transaction} {transfers : Table Transfer}
variable {ledger : Table LedgerEntry}

theorem Wallet.eq_of_id {a b : Wallet} (ha : a ∈ wallets) (hb : b ∈ wallets) (h : a.id = b.id) :
    a = b :=
  Table.eq_of_clash ha hb (by simp [Entity.clash, h])

theorem Wallet.eq_of_user {a b : Wallet} (ha : a ∈ wallets) (hb : b ∈ wallets)
    (hu : a.userId = b.userId) (hc : a.currency = b.currency) : a = b :=
  Table.eq_of_clash ha hb (by simp [Entity.clash, hu, hc])

theorem Transaction.eq_of_id {a b : Transaction} (ha : a ∈ transactions) (hb : b ∈ transactions)
    (h : a.id = b.id) : a = b :=
  Table.eq_of_clash ha hb (by simp [Entity.clash, h])

theorem Transaction.eq_of_key {a b : Transaction} (ha : a ∈ transactions) (hb : b ∈ transactions)
    (h : a.idempotencyKey = b.idempotencyKey) : a = b :=
  Table.eq_of_clash ha hb (by simp [Entity.clash, h])

theorem Transfer.eq_of_id {a b : Transfer} (ha : a ∈ transfers) (hb : b ∈ transfers)
    (h : a.id = b.id) : a = b :=
  Table.eq_of_clash ha hb (by simp [Entity.clash, h])

theorem Transfer.eq_of_key {a b : Transfer} (ha : a ∈ transfers) (hb : b ∈ transfers)
    (h : a.idempotencyKey = b.idempotencyKey) : a = b :=
  Table.eq_of_clash ha hb (by simp [Entity.clash, h])

theorem LedgerEntry.eq_of_key {a b : LedgerEntry} (ha : a ∈ ledger) (hb : b ∈ ledger)
    (h : a.idempotencyKey = b.idempotencyKey) : a = b :=
  Table.eq_of_clash ha hb (by simp [Entity.clash, h])

end Indexes

end LiorParisWallet
