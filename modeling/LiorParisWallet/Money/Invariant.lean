import LiorParisWallet.Accounting.Statement
import LiorParisWallet.Money.Growth

/-!
# The invariant of the money server

What holds of every world that any interleaving of calls reaches: balances replay the ledger, ledger
entries and outbox events belong to rows of transactions and transfers, and every provider reference
belongs to one payment.
-/

namespace LiorParisWallet

open Relational Accounting

/-- What an entry does to the balance of its wallet. -/
def LedgerEntry.change (e : LedgerEntry) : ℤ :=
  match e.type with
  | .deposit => e.amount
  | .transferOut => -e.amount
  | .transferIn => e.amount

/-- The balance of every wallet is what its entries, in the order of their commits, lead to. -/
def Replays (wallets : Table Wallet) (entries : List LedgerEntry) : Prop :=
  ∀ a ∈ wallets, Statement LedgerEntry.change LedgerEntry.balanceAfter 0
    (entries.filter (·.walletId == a.id)) a.balance

/-- The event announces that the transfer has happened. -/
structure Transfer.Announced (t : Transfer) (ev : OutboxEvent) : Prop where
  name : ev.eventName = .transferCompleted
  aggregateId : ev.aggregateId = t.id
  transferId : ev.payloadJson.lookup "transferId" = some (.string t.id)
  fromUserId : ev.payloadJson.lookup "fromUserId" = some (.string t.fromUserId)
  toUserId : ev.payloadJson.lookup "toUserId" = some (.string t.toUserId)
  amount : ev.payloadJson.lookup "amount" = some (.number t.amount)
  currency : ev.payloadJson.lookup "currency" = some (.string t.currency)

namespace World

/-- The entry credits the deposit of the transaction. -/
structure Credits (w : World) (t : Transaction) (e : LedgerEntry) : Prop where
  key : e.idempotencyKey = t.idempotencyKey
  amount : e.amount = t.amount
  currency : e.currency = t.currency
  wallet : w.WalletOf e.walletId t.userId t.currency

/-- The event announces the deposit entry. -/
structure Notifies (w : World) (e : LedgerEntry) (ev : OutboxEvent) : Prop where
  aggregateId : ev.aggregateId = e.walletId
  walletId : ev.payloadJson.lookup "walletId" = some (.string e.walletId)
  amount : ev.payloadJson.lookup "amount" = some (.number e.amount)
  currency : ev.payloadJson.lookup "currency" = some (.string e.currency)
  user : ∃ t ∈ w.db.transactions, t.idempotencyKey = e.idempotencyKey ∧
    ev.payloadJson.lookup "userId" = some (.string t.userId)

/-- The entry is the side of the transfer that has this type and key suffix and concerns this user. -/
structure SideOf (w : World) (t : Transfer) (type : LedgerEntryType) (suffix userId : String)
    (e : LedgerEntry) : Prop where
  type : e.type = type
  key : e.idempotencyKey = t.idempotencyKey ++ suffix
  amount : e.amount = t.amount
  currency : e.currency = t.currency
  wallet : w.WalletOf e.walletId userId t.currency

def SentBy (w : World) (t : Transfer) (e : LedgerEntry) : Prop :=
  w.SideOf t .transferOut ":out" t.fromUserId e

def ReceivedBy (w : World) (t : Transfer) (e : LedgerEntry) : Prop :=
  w.SideOf t .transferIn ":in" t.toUserId e

def depositEntries (w : World) : List LedgerEntry :=
  w.db.ledger.rows.filter (·.type == .deposit)

def eventsNamed (w : World) (name : DomainEventName) : List OutboxEvent :=
  w.db.outbox.rows.filter (·.eventName == name)

/-- Ids come from the generator, and it gives none twice. -/
structure Ids (w : World) : Prop where
  nodup : w.issuedIds.Nodup
  wallets : ∀ a ∈ w.db.wallets, a.id ∈ w.issuedIds
  transactions : ∀ t ∈ w.db.transactions, t.id ∈ w.issuedIds
  transfers : ∀ t ∈ w.db.transfers, t.id ∈ w.issuedIds
  outbox : ∀ ev ∈ w.db.outbox, ev.id ∈ w.issuedIds
  ledger : ∀ e ∈ w.db.ledger, e.walletId ∈ w.issuedIds

structure Deposits (w : World) : Prop where
  amount_min : ∀ t ∈ w.db.transactions, 1 ≤ t.amount
  credited : ∀ e ∈ w.db.ledger, e.type = .deposit → ∃ t ∈ w.db.transactions,
    w.Credits t e ∧ t.status ≠ .pending ∧ ∃ ref, t.providerRef = some ref
  completed : ∀ t ∈ w.db.transactions, t.status = .completed → w.Credited t
  notified : List.Forall₂ w.Notifies w.depositEntries (w.eventsNamed .depositSucceeded)

structure Payments (w : World) : Prop where
  made : ∀ p ∈ w.payments, ∃ t ∈ w.db.transactions, t.id = p.transactionId ∧
    t.userId = p.userId ∧ t.amount = p.amount ∧ t.currency = p.currency ∧ (t.id, p.call) ∈ w.issued
  recorded : ∀ t ∈ w.db.transactions, ∀ ref, t.providerRef = some ref →
    ∃ p ∈ w.payments, p.transactionId = t.id ∧ p.providerRef = some ref
  transactionIds : (w.payments.map (·.transactionId)).Nodup
  providerRefs : w.providerRefs.Nodup

structure Transfers (w : World) : Prop where
  amount_min : ∀ t ∈ w.db.transfers, 1 ≤ t.amount
  users : ∀ t ∈ w.db.transfers, t.fromUserId ≠ t.toUserId
  sent : ∀ e ∈ w.db.ledger, e.type = .transferOut →
    ∃ t ∈ w.db.transfers, t.status = .completed ∧ w.SentBy t e
  received : ∀ e ∈ w.db.ledger, e.type = .transferIn →
    ∃ t ∈ w.db.transfers, t.status = .completed ∧ w.ReceivedBy t e
  completed : ∀ t ∈ w.db.transfers, t.status = .completed →
    (∃ e ∈ w.db.ledger, w.SentBy t e) ∧ (∃ e ∈ w.db.ledger, w.ReceivedBy t e) ∧
      ∃ ev ∈ w.db.outbox, t.Announced ev
  announced : ∀ ev ∈ w.db.outbox, ev.eventName = .transferCompleted →
    ∃ t ∈ w.db.transfers, t.status = .completed ∧ t.Announced ev
  announcedOnce : ((w.eventsNamed .transferCompleted).map (·.aggregateId)).Nodup

structure Inv (w : World) : Prop where
  ids : w.Ids
  replays : Replays w.db.wallets w.db.ledger.rows
  deposits : w.Deposits
  payments : w.Payments
  transfers : w.Transfers

end World

section

variable {w w' : World}

theorem World.Ids.insert_outbox (h : w.Ids) {item : OutboxEvent} (hid : item.id ∉ w.issuedIds) :
    ∃ outbox, w.db.outbox.insert? item = some outbox := by
  refine Option.isSome_iff_exists.mp (Table.insert?_isSome.mpr fun ev hev => ?_)
  exact beq_false_of_ne fun heq => hid (heq ▸ h.outbox ev hev)

theorem eq_of_nodup_filterMap {α β : Type} {f : α → Option β} {l : List α}
    (hnd : (l.filterMap f).Nodup) {a a' : α} (ha : a ∈ l) (ha' : a' ∈ l) {b : β}
    (hb : f a = some b) (hb' : f a' = some b) : a = a' := by
  induction l with
  | nil => cases ha
  | cons x xs ih =>
    have htail : (xs.filterMap f).Nodup :=
      hnd.sublist ((List.sublist_cons_self x xs).filterMap f)
    have hhead : f x = some b → ∀ y ∈ xs, f y ≠ some b := by
      intro hx y hy hyb
      rw [List.filterMap_cons_some hx] at hnd
      exact (List.nodup_cons.mp hnd).1 (List.mem_filterMap.mpr ⟨y, hy, hyb⟩)
    rcases List.mem_cons.mp ha with rfl | hxs <;> rcases List.mem_cons.mp ha' with rfl | hxs'
    · rfl
    · exact absurd hb' (hhead hb a' hxs')
    · exact absurd hb (hhead hb' a hxs)
    · exact ih htail hxs hxs'

/-- Transactions with one provider reference are one transaction. -/
theorem World.Payments.eq_of_ref (h : w.Payments) {t t' : Transaction}
    (ht : t ∈ w.db.transactions) (ht' : t' ∈ w.db.transactions) {ref : String}
    (hr : t.providerRef = some ref) (hr' : t'.providerRef = some ref) : t = t' := by
  obtain ⟨p, hp, hid, href⟩ := h.recorded t ht ref hr
  obtain ⟨p', hp', hid', href'⟩ := h.recorded t' ht' ref hr'
  have hpp : p = p' := eq_of_nodup_filterMap h.providerRefs hp hp' href href'
  exact Transaction.eq_of_id ht ht' (by rw [← hid, ← hid', hpp])

/-! ## What growth keeps -/

theorem World.Credits.mono {t t' : Transaction} {e : LedgerEntry} (h : w.Credits t e)
    (hg : Grows w w') (hc : t'.core = t.core) : w'.Credits t' e where
  key := h.key.trans (Transaction.core_key hc).symm
  amount := h.amount.trans (Transaction.core_amount hc).symm
  currency := h.currency.trans (Transaction.core_currency hc).symm
  wallet := by
    rw [Transaction.core_userId hc, Transaction.core_currency hc]
    exact hg.walletOf h.wallet

theorem World.Notifies.mono {e : LedgerEntry} {ev : OutboxEvent} (h : w.Notifies e ev)
    (hg : Grows w w') : w'.Notifies e ev where
  aggregateId := h.aggregateId
  walletId := h.walletId
  amount := h.amount
  currency := h.currency
  user := by
    obtain ⟨t, ht, hk, hu⟩ := h.user
    obtain ⟨t', ht', hl⟩ := hg.transactions t ht
    exact ⟨t', ht', (Transaction.core_key hl.core).trans hk, by
      rw [Transaction.core_userId hl.core]; exact hu⟩

theorem World.SideOf.mono {t t' : Transfer} {type : LedgerEntryType} {suffix userId : String}
    {e : LedgerEntry} (h : w.SideOf t type suffix userId e) (hg : Grows w w')
    (hc : t'.core = t.core) : w'.SideOf t' type suffix userId e where
  type := h.type
  key := h.key.trans (by rw [Transfer.core_key hc])
  amount := h.amount.trans (Transfer.core_amount hc).symm
  currency := h.currency.trans (Transfer.core_currency hc).symm
  wallet := by
    rw [Transfer.core_currency hc]
    exact hg.walletOf h.wallet

theorem World.SentBy.mono {t t' : Transfer} {e : LedgerEntry} (h : w.SentBy t e)
    (hg : Grows w w') (hc : t'.core = t.core) : w'.SentBy t' e := by
  have hside := World.SideOf.mono h hg hc
  rw [← Transfer.core_fromUserId hc] at hside
  exact hside

theorem World.ReceivedBy.mono {t t' : Transfer} {e : LedgerEntry} (h : w.ReceivedBy t e)
    (hg : Grows w w') (hc : t'.core = t.core) : w'.ReceivedBy t' e := by
  have hside := World.SideOf.mono h hg hc
  rw [← Transfer.core_toUserId hc] at hside
  exact hside

theorem Transfer.Announced.mono {t t' : Transfer} {ev : OutboxEvent} (h : t.Announced ev)
    (hc : t'.core = t.core) : t'.Announced ev where
  name := h.name
  aggregateId := h.aggregateId.trans (Transfer.core_id hc).symm
  transferId := by rw [Transfer.core_id hc]; exact h.transferId
  fromUserId := by rw [Transfer.core_fromUserId hc]; exact h.fromUserId
  toUserId := by rw [Transfer.core_toUserId hc]; exact h.toUserId
  amount := by rw [Transfer.core_amount hc]; exact h.amount
  currency := by rw [Transfer.core_currency hc]; exact h.currency

end

end LiorParisWallet
