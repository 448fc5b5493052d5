import LiorParisWallet.Money.Effects

/-!
# What only grows

Rows of transactions, transfers, the ledger and the outbox are never removed, ids are never reused, and
the columns that say what a row is about never change.  A call that has seen such a row therefore knows
something that no other call can take away, and that is all it knows of the rows it has read.
-/

namespace LiorParisWallet

open Relational

/-- The columns of a transaction that never change. -/
def Transaction.core (t : Transaction) : Transaction :=
  { t with status := .pending, providerRef := none, failureReason := none }

/-- The columns of a transfer that never change. -/
def Transfer.core (t : Transfer) : Transfer :=
  { t with status := .pending, failureReason := none }

namespace World

/-- The wallet with this id, as long as there is one, is the user's wallet of the currency. -/
def WalletOf (w : World) (id userId currency : String) : Prop :=
  id ∈ w.issuedIds ∧ ∀ a ∈ w.db.wallets, a.id = id → a.userId = userId ∧ a.currency = currency

/-- The deposit of this transaction has been credited. -/
def Credited (w : World) (t : Transaction) : Prop :=
  ∃ e ∈ w.db.ledger, e.type = .deposit ∧ e.idempotencyKey = t.idempotencyKey

/-- The transaction is stored, and its provider reference is at least the one it had when it was
    read. -/
def Knows (w : World) (t : Transaction) : Prop :=
  ∃ t' ∈ w.db.transactions, t'.core = t.core ∧
    ∀ ref, t.providerRef = some ref → t'.providerRef = some ref

end World

/-- `t'` may be a later state of the transaction `t`. -/
structure Transaction.Later (t t' : Transaction) : Prop where
  core : t'.core = t.core
  settled : t.status ≠ .pending → t'.status ≠ .pending
  providerRef : ∀ ref, t.providerRef = some ref → t'.providerRef = some ref

structure Grows (w w' : World) : Prop where
  issued : ∀ x ∈ w.issued, x ∈ w'.issued
  wallets : ∀ a ∈ w'.db.wallets, a.id ∈ w.issuedIds → ∃ b ∈ w.db.wallets,
    b.id = a.id ∧ b.userId = a.userId ∧ b.currency = a.currency
  transactions : ∀ t ∈ w.db.transactions, ∃ t' ∈ w'.db.transactions, t.Later t'
  transfers : ∀ t ∈ w.db.transfers, ∃ t' ∈ w'.db.transfers,
    t'.core = t.core ∧ (t.status = .completed → t'.status = .completed)
  ledger : w.db.ledger.rows <+: w'.db.ledger.rows
  outbox : w.db.outbox.rows <+: w'.db.outbox.rows
  payments : w.payments <+: w'.payments

/-- What the other calls leave alone of the rows that call `i` has inserted. -/
structure Own (i : ℕ) (w w' : World) : Prop where
  payments : ∀ id, (id, i) ∈ w.issued → (∀ p ∈ w.payments, p.transactionId ≠ id) →
    ∀ p ∈ w'.payments, p.transactionId ≠ id
  transactions : ∀ t ∈ w.db.transactions, (t.id, i) ∈ w.issued → t.providerRef = none →
    t ∈ w'.db.transactions
  transfers : ∀ t ∈ w.db.transfers, (t.id, i) ∈ w.issued → t ∈ w'.db.transfers

section

variable {w w' w'' : World} {i : ℕ}

theorem Transaction.Later.refl (t : Transaction) : t.Later t :=
  ⟨rfl, fun h => h, fun _ h => h⟩

theorem Transaction.Later.trans {t t' t'' : Transaction} (h : t.Later t') (h' : t'.Later t'') :
    t.Later t'' where
  core := h'.core.trans h.core
  settled hs := h'.settled (h.settled hs)
  providerRef ref hr := h'.providerRef ref (h.providerRef ref hr)

theorem Transaction.core_id {t t' : Transaction} (h : t'.core = t.core) : t'.id = t.id :=
  (congrArg Transaction.id h :)

theorem Transaction.core_userId {t t' : Transaction} (h : t'.core = t.core) :
    t'.userId = t.userId :=
  (congrArg Transaction.userId h :)

theorem Transaction.core_amount {t t' : Transaction} (h : t'.core = t.core) :
    t'.amount = t.amount :=
  (congrArg Transaction.amount h :)

theorem Transaction.core_currency {t t' : Transaction} (h : t'.core = t.core) :
    t'.currency = t.currency :=
  (congrArg Transaction.currency h :)

theorem Transaction.core_key {t t' : Transaction} (h : t'.core = t.core) :
    t'.idempotencyKey = t.idempotencyKey :=
  (congrArg Transaction.idempotencyKey h :)

theorem Transfer.core_id {t t' : Transfer} (h : t'.core = t.core) : t'.id = t.id :=
  (congrArg Transfer.id h :)

theorem Transfer.core_fromUserId {t t' : Transfer} (h : t'.core = t.core) :
    t'.fromUserId = t.fromUserId :=
  (congrArg Transfer.fromUserId h :)

theorem Transfer.core_toUserId {t t' : Transfer} (h : t'.core = t.core) :
    t'.toUserId = t.toUserId :=
  (congrArg Transfer.toUserId h :)

theorem Transfer.core_amount {t t' : Transfer} (h : t'.core = t.core) : t'.amount = t.amount :=
  (congrArg Transfer.amount h :)

theorem Transfer.core_currency {t t' : Transfer} (h : t'.core = t.core) :
    t'.currency = t.currency :=
  (congrArg Transfer.currency h :)

theorem Transfer.core_key {t t' : Transfer} (h : t'.core = t.core) :
    t'.idempotencyKey = t.idempotencyKey :=
  (congrArg Transfer.idempotencyKey h :)

theorem mem_issuedIds {id : String} : id ∈ w.issuedIds ↔ ∃ i, (id, i) ∈ w.issued := by
  unfold World.issuedIds
  simp

/-- An id was generated for one call only. -/
theorem issued_unique (hnd : w.issuedIds.Nodup) {id : String} {i j : ℕ} (hi : (id, i) ∈ w.issued)
    (hj : (id, j) ∈ w.issued) : i = j :=
  congrArg Prod.snd (List.inj_on_of_nodup_map hnd hi hj rfl)

/-! ## What is known stays known -/

theorem Grows.issuedIds (h : Grows w w') {id : String} (hid : id ∈ w.issuedIds) :
    id ∈ w'.issuedIds :=
  let ⟨i, hi⟩ := mem_issuedIds.mp hid
  mem_issuedIds.mpr ⟨i, h.issued _ hi⟩

theorem Grows.mem_ledger (h : Grows w w') {e : LedgerEntry} (he : e ∈ w.db.ledger) :
    e ∈ w'.db.ledger :=
  h.ledger.subset he

theorem Grows.mem_outbox (h : Grows w w') {e : OutboxEvent} (he : e ∈ w.db.outbox) :
    e ∈ w'.db.outbox :=
  h.outbox.subset he

theorem Grows.mem_payments (h : Grows w w') {p : Payment} (hp : p ∈ w.payments) :
    p ∈ w'.payments :=
  h.payments.subset hp

theorem Grows.walletOf (h : Grows w w') {id userId currency : String}
    (hw : w.WalletOf id userId currency) : w'.WalletOf id userId currency := by
  refine ⟨h.issuedIds hw.1, fun a ha hid => ?_⟩
  obtain ⟨b, hb, hbid, hu, hc⟩ := h.wallets a ha (hid ▸ hw.1)
  rw [← hu, ← hc]
  exact hw.2 b hb (hbid.trans hid)

theorem Grows.credited (h : Grows w w') {t : Transaction} (hc : w.Credited t) : w'.Credited t :=
  let ⟨e, he, ht⟩ := hc
  ⟨e, h.mem_ledger he, ht⟩

theorem Grows.knows (h : Grows w w') {t : Transaction} (hk : w.Knows t) : w'.Knows t := by
  obtain ⟨t₁, ht₁, hcore, href⟩ := hk
  obtain ⟨t₂, ht₂, hl⟩ := h.transactions t₁ ht₁
  exact ⟨t₂, ht₂, hl.core.trans hcore, fun ref hr => hl.providerRef ref (href ref hr)⟩

theorem World.knows_of_mem {t : Transaction} (ht : t ∈ w.db.transactions) : w.Knows t :=
  ⟨t, ht, rfl, fun _ => id⟩

theorem Grows.refl (w : World) : Grows w w where
  issued _ := id
  wallets a ha _ := ⟨a, ha, rfl, rfl, rfl⟩
  transactions t ht := ⟨t, ht, .refl t⟩
  transfers t ht := ⟨t, ht, rfl, id⟩
  ledger := List.prefix_rfl
  outbox := List.prefix_rfl
  payments := List.prefix_rfl

theorem Grows.trans (h : Grows w w') (h' : Grows w' w'') : Grows w w'' where
  issued x hx := h'.issued x (h.issued x hx)
  wallets a ha hid := by
    obtain ⟨b, hb, hb₁, hb₂, hb₃⟩ := h'.wallets a ha (h.issuedIds hid)
    obtain ⟨c, hc, hc₁, hc₂, hc₃⟩ := h.wallets b hb (hb₁ ▸ hid)
    exact ⟨c, hc, hc₁.trans hb₁, hc₂.trans hb₂, hc₃.trans hb₃⟩
  transactions t ht := by
    obtain ⟨t', ht', hl⟩ := h.transactions t ht
    obtain ⟨t'', ht'', hl'⟩ := h'.transactions t' ht'
    exact ⟨t'', ht'', hl.trans hl'⟩
  transfers t ht := by
    obtain ⟨t', ht', hc, hs⟩ := h.transfers t ht
    obtain ⟨t'', ht'', hc', hs'⟩ := h'.transfers t' ht'
    exact ⟨t'', ht'', hc'.trans hc, fun hst => hs' (hs hst)⟩
  ledger := h.ledger.trans h'.ledger
  outbox := h.outbox.trans h'.outbox
  payments := h.payments.trans h'.payments

theorem Own.refl (i : ℕ) (w : World) : Own i w w :=
  ⟨fun _ _ h => h, fun _ ht _ _ => ht, fun _ ht _ => ht⟩

theorem Own.trans (hg : Grows w w') (h : Own i w w') (h' : Own i w' w'') : Own i w w'' where
  payments id hid hp := h'.payments id (hg.issued _ hid) (h.payments id hid hp)
  transactions t ht hid hr := h'.transactions t (h.transactions t ht hid hr) (hg.issued _ hid) hr
  transfers t ht hid := h'.transfers t (h.transfers t ht hid) (hg.issued _ hid)

end

end LiorParisWallet
