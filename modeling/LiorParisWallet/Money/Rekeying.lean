import LiorParisWallet.Async.Simulation
import LiorParisWallet.Money.Collisions
import LiorParisWallet.Relational.Alike

/-!
# The same world under other keys

Two worlds are alike when they differ in the idempotency keys of their rows only, and a key of the one
stands everywhere for the same key of the other.  As long as this keeps which keys clash, the operations
cannot tell the worlds apart.
-/

namespace LiorParisWallet

open Async Relational

/-- A key that calls of `user` carry in the one run, and the key that they carry in the other. -/
structure KeyUse where
  user : String
  key : String
  key' : String
deriving DecidableEq, Repr

/-- The keys of the deposits and of the transfers of two runs. -/
structure KeyUses where
  deposits : List KeyUse
  transfers : List KeyUse

/-- Two keys clash in the one run if and only if they do in the other. -/
structure KeyUses.KeepsClashes (K : KeyUses) : Prop where
  deposits : ∀ d ∈ K.deposits, ∀ e ∈ K.deposits, d.key = e.key ↔ d.key' = e.key'
  transfers : ∀ t ∈ K.transfers, ∀ u ∈ K.transfers, t.key = u.key ↔ t.key' = u.key'
  outs : ∀ d ∈ K.deposits, ∀ t ∈ K.transfers,
    d.key = t.key ++ ":out" ↔ d.key' = t.key' ++ ":out"
  ins : ∀ d ∈ K.deposits, ∀ t ∈ K.transfers, d.key = t.key ++ ":in" ↔ d.key' = t.key' ++ ":in"

/-- The keys under which the ledger keeps them. -/
inductive KeyUses.Ledger (K : KeyUses) : String → String → Prop where
  | deposit {d : KeyUse} : d ∈ K.deposits → Ledger K d.key d.key'
  | out {t : KeyUse} : t ∈ K.transfers → Ledger K (t.key ++ ":out") (t.key' ++ ":out")
  | in {t : KeyUse} : t ∈ K.transfers → Ledger K (t.key ++ ":in") (t.key' ++ ":in")

def Transaction.Alike (K : KeyUses) (t t' : Transaction) : Prop :=
  ∃ key', ⟨t.userId, t.idempotencyKey, key'⟩ ∈ K.deposits ∧ t' = { t with idempotencyKey := key' }

def Transfer.Alike (K : KeyUses) (t t' : Transfer) : Prop :=
  ∃ key', ⟨t.fromUserId, t.idempotencyKey, key'⟩ ∈ K.transfers ∧
    t' = { t with idempotencyKey := key' }

def LedgerEntry.Alike (K : KeyUses) (e e' : LedgerEntry) : Prop :=
  ∃ key', K.Ledger e.idempotencyKey key' ∧ e' = { e with idempotencyKey := key' }

inductive Store.Alike (K : KeyUses) (db : Store) : Store → Prop where
  | intro {transactions : Table Transaction} {transfers : Table Transfer}
      {ledger : Table LedgerEntry} :
      Table.Alike (Transaction.Alike K) db.transactions transactions →
      Table.Alike (Transfer.Alike K) db.transfers transfers →
      Table.Alike (LedgerEntry.Alike K) db.ledger ledger →
        Alike K db { db with transactions := transactions, transfers := transfers, ledger := ledger }

inductive World.Alike (K : KeyUses) (w : World) : World → Prop where
  | intro {db : Store} : Store.Alike K w.db db → Alike K w { w with db := db }

variable {K : KeyUses}

/-! ## Rows -/

theorem KeyUses.KeepsClashes.ledger (hK : K.KeepsClashes) {k k' l l' : String} (hk : K.Ledger k k')
    (hl : K.Ledger l l') : k = l ↔ k' = l' := by
  have hsuffix : ∀ {t u : KeyUse}, t ∈ K.transfers → u ∈ K.transfers → ∀ suffix : String,
      t.key ++ suffix = u.key ++ suffix ↔ t.key' ++ suffix = u.key' ++ suffix := by
    intro t u ht hu suffix
    constructor
    · intro h
      rw [(hK.transfers t ht u hu).mp (append_suffix_cancel h)]
    · intro h
      rw [(hK.transfers t ht u hu).mpr (append_suffix_cancel h)]
  cases hk with
  | deposit hd =>
    cases hl with
    | deposit he => exact hK.deposits _ hd _ he
    | out ht => exact hK.outs _ hd _ ht
    | «in» ht => exact hK.ins _ hd _ ht
  | out ht =>
    cases hl with
    | deposit hd => rw [eq_comm, hK.outs _ hd _ ht, eq_comm]
    | out hu => exact hsuffix ht hu _
    | «in» hu => exact ⟨fun h => absurd h (out_ne_in _ _), fun h => absurd h (out_ne_in _ _)⟩
  | «in» ht =>
    cases hl with
    | deposit hd => rw [eq_comm, hK.ins _ hd _ ht, eq_comm]
    | out hu =>
      exact ⟨fun h => absurd h.symm (out_ne_in _ _), fun h => absurd h.symm (out_ne_in _ _)⟩
    | «in» hu => exact hsuffix ht hu _

theorem beq_congr {a b a' b' : String} (h : a = b ↔ a' = b') : (a == b) = (a' == b') := by
  rw [Bool.eq_iff_iff, beq_iff_eq, beq_iff_eq]
  exact h

theorem Transaction.Alike.clash (hK : K.KeepsClashes) {a a' r r' : Transaction}
    (ha : Transaction.Alike K a a') (hr : Transaction.Alike K r r') :
    Entity.clash a r = Entity.clash a' r' := by
  obtain ⟨k, hk, rfl⟩ := ha
  obtain ⟨l, hl, rfl⟩ := hr
  show (a.id == r.id || a.idempotencyKey == r.idempotencyKey) = (a.id == r.id || k == l)
  rw [beq_congr (hK.deposits _ hk _ hl)]

theorem Transfer.Alike.clash (hK : K.KeepsClashes) {a a' r r' : Transfer}
    (ha : Transfer.Alike K a a') (hr : Transfer.Alike K r r') :
    Entity.clash a r = Entity.clash a' r' := by
  obtain ⟨k, hk, rfl⟩ := ha
  obtain ⟨l, hl, rfl⟩ := hr
  show (a.id == r.id || a.idempotencyKey == r.idempotencyKey) = (a.id == r.id || k == l)
  rw [beq_congr (hK.transfers _ hk _ hl)]

theorem LedgerEntry.Alike.clash (hK : K.KeepsClashes) {a a' r r' : LedgerEntry}
    (ha : LedgerEntry.Alike K a a') (hr : LedgerEntry.Alike K r r') :
    Entity.clash a r = Entity.clash a' r' := by
  obtain ⟨k, hk, rfl⟩ := ha
  obtain ⟨l, hl, rfl⟩ := hr
  show (a.idempotencyKey == r.idempotencyKey) = (k == l)
  rw [beq_congr (hK.ledger hk hl)]

/-! ## Repositories -/

namespace Store

variable {db db' : Store}

theorem insertInto_alike {ρ : Type} [Entity ρ] {R : ρ → ρ → Prop} {t t' : Table ρ} {r r' : ρ}
    (h : Table.Alike R t t') (hr : R r r')
    (hclash : ∀ a a', R a a' → Entity.clash a r = Entity.clash a' r') :
    Settles (Table.Alike R) (insertInto t r) (insertInto t' r') := by
  unfold insertInto
  have hi := h.insert? hr hclash
  generalize t.insert? r = x at hi ⊢
  generalize t'.insert? r' = x' at hi ⊢
  cases hi with
  | some hi => exact .ok hi
  | none => exact .error _

namespace Alike

theorem findWallet (h : Store.Alike K db db') (id : String) : db'.findWallet id = db.findWallet id := by
  cases h
  rfl

theorem findTransactionByIdempotencyKey (hK : K.KeepsClashes) (h : Store.Alike K db db') {d : KeyUse}
    (hd : d ∈ K.deposits) : Option.Rel (Transaction.Alike K)
      (db.findTransactionByIdempotencyKey d.key) (db'.findTransactionByIdempotencyKey d.key') := by
  cases h with
  | intro transactions _ _ =>
    refine transactions.find? fun t t' ht => ?_
    obtain ⟨k, hk, rfl⟩ := ht
    exact beq_congr (hK.deposits _ hk _ hd)

theorem findTransactionByProviderRef (h : Store.Alike K db db') (ref : String) :
    Option.Rel (Transaction.Alike K)
      (db.findTransactionByProviderRef ref) (db'.findTransactionByProviderRef ref) := by
  cases h with
  | intro transactions _ _ =>
    refine transactions.find? fun t t' ht => ?_
    obtain ⟨k, -, rfl⟩ := ht
    rfl

theorem findTransferByIdempotencyKey (hK : K.KeepsClashes) (h : Store.Alike K db db') {u : KeyUse}
    (hu : u ∈ K.transfers) : Option.Rel (Transfer.Alike K)
      (db.findTransferByIdempotencyKey u.key) (db'.findTransferByIdempotencyKey u.key') := by
  cases h with
  | intro _ transfers _ =>
    refine transfers.find? fun t t' ht => ?_
    obtain ⟨k, hk, rfl⟩ := ht
    exact beq_congr (hK.transfers _ hk _ hu)

theorem setBalance (h : Store.Alike K db db') (id : String) (balance : ℤ) :
    Store.Alike K (db.setBalance id balance) (db'.setBalance id balance) := by
  cases h with
  | intro transactions transfers ledger => exact .intro transactions transfers ledger

/-- An update of the transaction with this id that is indifferent to keys. -/
theorem updateTransactions (h : Store.Alike K db db') (id : String) {f : Transaction → Transaction}
    (hf : ∀ a b, Entity.clash (f a) b = Entity.clash a b)
    (hkey : ∀ t t', Transaction.Alike K t t' → Transaction.Alike K (f t) (f t')) :
    Store.Alike K { db with transactions := db.transactions.update (·.id == id) f hf }
      { db' with transactions := db'.transactions.update (·.id == id) f hf } := by
  cases h with
  | intro transactions transfers ledger =>
    refine .intro (transactions.update hf hf (fun t t' ht => ?_) hkey) transfers ledger
    obtain ⟨k, -, rfl⟩ := ht
    rfl

theorem updateTransactionProviderRef (h : Store.Alike K db db') (id ref : String) :
    Store.Alike K (db.updateTransactionProviderRef id ref)
      (db'.updateTransactionProviderRef id ref) :=
  h.updateTransactions id _ fun _ _ ⟨k, hk, ht⟩ => ⟨k, hk, by rw [ht]⟩

theorem failTransaction (h : Store.Alike K db db') {t t' : Transaction}
    (ht : Transaction.Alike K t t') (reason : String) :
    Store.Alike K (db.failTransaction t reason) (db'.failTransaction t' reason) := by
  obtain ⟨_, -, rfl⟩ := ht
  exact h.updateTransactions t.id _ fun _ _ ⟨k, hk, ht⟩ => ⟨k, hk, by rw [ht]⟩

theorem completeTransaction (h : Store.Alike K db db') (id : String) :
    Store.Alike K (db.completeTransaction id) (db'.completeTransaction id) :=
  h.updateTransactions id _ fun _ _ ⟨k, hk, ht⟩ => ⟨k, hk, by rw [ht]⟩

/-- An update of the transfer with this id that is indifferent to keys. -/
theorem updateTransfers (h : Store.Alike K db db') (id : String) {f : Transfer → Transfer}
    (hf : ∀ a b, Entity.clash (f a) b = Entity.clash a b)
    (hkey : ∀ t t', Transfer.Alike K t t' → Transfer.Alike K (f t) (f t')) :
    Store.Alike K { db with transfers := db.transfers.update (·.id == id) f hf }
      { db' with transfers := db'.transfers.update (·.id == id) f hf } := by
  cases h with
  | intro transactions transfers ledger =>
    refine .intro transactions (transfers.update hf hf (fun t t' ht => ?_) hkey) ledger
    obtain ⟨k, -, rfl⟩ := ht
    rfl

theorem completeTransfer (h : Store.Alike K db db') (id : String) :
    Store.Alike K (db.completeTransfer id) (db'.completeTransfer id) :=
  h.updateTransfers id _ fun _ _ ⟨k, hk, ht⟩ => ⟨k, hk, by rw [ht]⟩

theorem saveLedgerEntry (hK : K.KeepsClashes) (h : Store.Alike K db db') {e e' : LedgerEntry}
    (he : LedgerEntry.Alike K e e') :
    Settles (Store.Alike K) (db.saveLedgerEntry e) (db'.saveLedgerEntry e') := by
  cases h with
  | intro transactions transfers ledger =>
    refine (insertInto_alike ledger he fun a a' ha => ha.clash hK he).bind fun t t' ht => ?_
    exact .ok (.intro transactions transfers ht)

theorem saveOutboxEvent (h : Store.Alike K db db') (item : OutboxEvent) :
    Settles (Store.Alike K) (db.saveOutboxEvent item) (db'.saveOutboxEvent item) := by
  cases h with
  | intro transactions transfers ledger =>
    refine (Settles.refl (insertInto db.outbox item)).bind fun t t' ht => ?_
    cases ht
    exact .ok (.intro transactions transfers ledger)

/-- What the two stores answer to a write, and what they become. -/
abbrev Results {α : Type} (K : KeyUses) (R : α → α → Prop) (x x' : α × Store) : Prop :=
  R x.1 x'.1 ∧ Store.Alike K x.2 x'.2

theorem saveWallet (h : Store.Alike K db db') (a : Wallet) :
    Settles (Results K Eq) (db.saveWallet a) (db'.saveWallet a) := by
  cases h with
  | intro transactions transfers ledger =>
    unfold Store.saveWallet
    split
    · exact .error _
    · refine (Settles.refl (insertInto db.wallets a)).bind fun t t' ht => ?_
      cases ht
      exact .ok ⟨rfl, .intro transactions transfers ledger⟩

theorem createUser (h : Store.Alike K db db') (u : Users) :
    Settles (Results K Eq) (db.createUser u) (db'.createUser u) := by
  cases h with
  | intro transactions transfers ledger =>
    refine (Settles.refl (insertInto db.users u)).bind fun t t' ht => ?_
    cases ht
    exact .ok ⟨rfl, .intro transactions transfers ledger⟩

theorem deleteUser (h : Store.Alike K db db') (id : String) :
    Store.Alike K (db.deleteUser id) (db'.deleteUser id) := by
  cases h with
  | intro transactions transfers ledger => exact .intro transactions transfers ledger

theorem createTransaction (hK : K.KeepsClashes) (h : Store.Alike K db db') {t t' : Transaction}
    (ht : Transaction.Alike K t t') :
    Settles (Results K (Transaction.Alike K)) (db.createTransaction t) (db'.createTransaction t') := by
  cases h with
  | intro transactions transfers ledger =>
    refine (insertInto_alike transactions ht fun a a' ha => ha.clash hK ht).bind fun x x' hx => ?_
    exact .ok ⟨ht, .intro hx transfers ledger⟩

theorem createTransfer (hK : K.KeepsClashes) (h : Store.Alike K db db') {t t' : Transfer}
    (ht : Transfer.Alike K t t') :
    Settles (Results K (Transfer.Alike K)) (db.createTransfer t) (db'.createTransfer t') := by
  cases h with
  | intro transactions transfers ledger =>
    refine (insertInto_alike transfers ht fun a a' ha => ha.clash hK ht).bind fun x x' hx => ?_
    exact .ok ⟨ht, .intro transactions hx ledger⟩

theorem settleTransaction (hK : K.KeepsClashes) (h : Store.Alike K db db') {t t' : Transaction}
    (ht : Transaction.Alike K t t') (walletId : String) (type : LedgerEntryType) (change : ℤ)
    (item : OutboxEvent) :
    Settles (Results K (LedgerEntry.Alike K)) (db.settleTransaction walletId t type change item)
      (db'.settleTransaction walletId t' type change item) := by
  obtain ⟨k, hk, rfl⟩ := ht
  unfold Store.settleTransaction
  rw [h.findWallet]
  cases db.findWallet walletId with
  | none => exact .error _
  | some wallet =>
    by_cases hneg : wallet.balance + change < 0
    · simp only [hneg, if_true]
      exact .error _
    · simp only [hneg, if_false]
      have he : LedgerEntry.Alike K
          { walletId := walletId, type := type, amount := t.amount, currency := wallet.currency,
            balanceAfter := wallet.balance + change, idempotencyKey := t.idempotencyKey }
          { walletId := walletId, type := type, amount := t.amount, currency := wallet.currency,
            balanceAfter := wallet.balance + change, idempotencyKey := k } :=
        ⟨k, .deposit hk, rfl⟩
      refine ((h.setBalance _ _).saveLedgerEntry hK he).bind fun db₁ db₁' h₁ => ?_
      refine ((h₁.completeTransaction t.id).saveOutboxEvent item).bind fun db₂ db₂' h₂ => ?_
      exact .ok ⟨he, h₂⟩

theorem executeTransfer (hK : K.KeepsClashes) (h : Store.Alike K db db') {t t' : Transfer}
    (ht : Transfer.Alike K t t') (fromWalletId toWalletId : String) (item : OutboxEvent) :
    Settles (Results K Eq) (db.executeTransfer t fromWalletId toWalletId item)
      (db'.executeTransfer t' fromWalletId toWalletId item) := by
  obtain ⟨k, hk, rfl⟩ := ht
  unfold Store.executeTransfer
  simp only [h.findWallet]
  split
  · -- `firstWallet` is there
    split
    · split
      · exact .error _
      · split
        · refine (((h.setBalance _ _).setBalance _ _).saveLedgerEntry hK ⟨_, .out hk, rfl⟩).bind
            fun db₁ db₁' h₁ => ?_
          refine (h₁.saveLedgerEntry hK ⟨_, .in hk, rfl⟩).bind fun db₂ db₂' h₂ => ?_
          refine ((h₂.completeTransfer t.id).saveOutboxEvent item).bind fun db₃ db₃' h₃ => ?_
          exact .ok ⟨rfl, h₃⟩
        · exact .error _
    · exact .error _
  · exact .error _

end Alike

end Store

/-! ## Operations -/

/-- The operation has to do with no key. -/
def Op.keyless : Op → Bool
  | .findTransactionByIdempotencyKey _ => false
  | .findTransactionByProviderRef _ => false
  | .createTransaction _ => false
  | .failTransaction _ _ => false
  | .settleTransaction _ _ _ _ _ => false
  | .findTransferByIdempotencyKey _ => false
  | .createTransfer _ => false
  | .executeTransfer _ _ _ _ => false
  | _ => true

/-- Operations that differ in keys only, with how their answers do. -/
inductive Op.Alike (K : KeyUses) : (o o' : Op) → (Ans o → Ans o' → Prop) → Prop where
  | keyless {o : Op} : o.keyless = true → Alike K o o Eq
  | findTransactionByIdempotencyKey {d : KeyUse} : d ∈ K.deposits →
      Alike K (.findTransactionByIdempotencyKey d.key) (.findTransactionByIdempotencyKey d.key')
        (Option.Rel (Transaction.Alike K))
  | findTransactionByProviderRef (ref : String) :
      Alike K (.findTransactionByProviderRef ref) (.findTransactionByProviderRef ref)
        (Option.Rel (Transaction.Alike K))
  | createTransaction {data : TransactionData} {key' : String} :
      ⟨data.userId, data.idempotencyKey, key'⟩ ∈ K.deposits →
        Alike K (.createTransaction data) (.createTransaction { data with idempotencyKey := key' })
          (Transaction.Alike K)
  | failTransaction {t t' : Transaction} (reason : String) : Transaction.Alike K t t' →
      Alike K (.failTransaction t reason) (.failTransaction t' reason) Eq
  | settleTransaction {t t' : Transaction} (walletId : String) (type : LedgerEntryType) (change : ℤ)
      (data : OutboxData) : Transaction.Alike K t t' →
        Alike K (.settleTransaction walletId t type change data)
          (.settleTransaction walletId t' type change data) (LedgerEntry.Alike K)
  | findTransferByIdempotencyKey {u : KeyUse} : u ∈ K.transfers →
      Alike K (.findTransferByIdempotencyKey u.key) (.findTransferByIdempotencyKey u.key')
        (Option.Rel (Transfer.Alike K))
  | createTransfer {data : TransferData} {key' : String} :
      ⟨data.fromUserId, data.idempotencyKey, key'⟩ ∈ K.transfers →
        Alike K (.createTransfer data) (.createTransfer { data with idempotencyKey := key' })
          (Transfer.Alike K)
  | executeTransfer {t t' : Transfer} (fromWalletId toWalletId : String) (data : OutboxData) :
      Transfer.Alike K t t' →
        Alike K (.executeTransfer t fromWalletId toWalletId data)
          (.executeTransfer t' fromWalletId toWalletId data) Eq

/-- How the operation has settled in the two worlds, and what has become of them. -/
abbrev Performed {α α' : Type} (K : KeyUses) (R : α → α' → Prop) (x : Except Err α × World)
    (x' : Except Err α' × World) : Prop :=
  Settles R x.1 x'.1 ∧ World.Alike K x.2 x'.2

namespace World.Alike

variable {w w' : World} {α : Type} {R : α → α → Prop} {ω : Choice}

theorem db (h : World.Alike K w w') : Store.Alike K w.db w'.db := by
  cases h with
  | intro h => exact h

theorem read (h : World.Alike K w w') {a a' : α} (ha : R a a') :
    Option.Rel (Performed K R) (w.read ω a) (w'.read ω a') := by
  unfold World.read
  split
  · exact .some ⟨.error _, h⟩
  · exact .some ⟨.ok ha, h⟩

theorem write (h : World.Alike K w w') {a a' : α} (ha : R a a') {w₁ w₁' : World}
    (h₁ : World.Alike K w₁ w₁') : Option.Rel (Performed K R) (w.write ω a w₁) (w'.write ω a' w₁') := by
  unfold World.write
  split
  · exact .some ⟨.error _, h⟩
  · exact .some ⟨.ok ha, h₁⟩

theorem withDb (h : World.Alike K w w') {db db' : Store} (hdb : Store.Alike K db db') :
    World.Alike K { w with db := db } { w' with db := db' } := by
  cases h with
  | intro _ => exact .intro hdb

theorem insert (h : World.Alike K w w') (i : ℕ) {result result' : Except Err (α × Store)}
    (hr : Settles (Store.Alike.Results K R) result result') :
    Option.Rel (Performed K R) (w.insert i ω result) (w'.insert i ω result') := by
  have hids : w'.issuedIds = w.issuedIds := by
    cases h
    rfl
  unfold World.insert
  rw [hids]
  split
  · exact .none
  · cases ω.fault with
    | some e => exact .some ⟨.error e, h⟩
    | none =>
      cases hr with
      | error e => exact .some ⟨.error e, h⟩
      | ok hr =>
        cases h with
        | intro h => exact .some ⟨.ok hr.1, .intro hr.2⟩

theorem pay (h : World.Alike K w w') (p : Payment) :
    Option.Rel (Performed K Eq) (w.pay p) (w'.pay p) := by
  have hrefs : w'.providerRefs = w.providerRefs := by
    cases h
    rfl
  unfold World.pay
  rw [hrefs]
  split
  · exact .none
  · cases h with
    | intro h => exact .some ⟨.refl _, .intro h⟩

theorem keyless (h : World.Alike K w w') {o : Op} (ho : o.keyless = true) (i : ℕ) :
    Option.Rel (Performed K Eq) (perform i o ω w) (perform i o ω w') := by
  cases o with
  | findByUserIdAndCurrency userId currency => exact h.read (by obtain ⟨⟨⟩⟩ := h; rfl)
  | findByWalletTag walletTag => exact h.read (by obtain ⟨⟨⟩⟩ := h; rfl)
  | findUserById userId => exact h.read (by obtain ⟨⟨⟩⟩ := h; rfl)
  | randomBytes => exact h.read rfl
  | newDate => exact h.read rfl
  | saveWallet data => exact h.insert i (h.db.saveWallet _)
  | createUser data => exact h.insert i (h.db.createUser _)
  | deleteUser id => exact h.write rfl (h.withDb (h.db.deleteUser id))
  | updateTransactionProviderRef id ref =>
    exact h.write rfl (h.withDb (h.db.updateTransactionProviderRef id ref))
  | processDeposit amount currency paymentMethod transactionId userId => exact h.pay _
  | cacheGet key =>
    show Option.Rel _ (if ω.expired = true then _ else _) (if ω.expired = true then _ else _)
    split
    · refine h.write rfl ?_
      cases h with
      | intro h => exact .intro h
    · refine h.read ?_
      cases h
      rfl
  | cacheSet key wallet =>
    refine h.write rfl ?_
    cases h with
    | intro h => exact .intro h
  | cacheDel key =>
    refine h.write rfl ?_
    cases h with
    | intro h => exact .intro h
  | _ => cases ho

/-- Alike operations on alike worlds have alike answers. -/
theorem performed (hK : K.KeepsClashes) (h : World.Alike K w w') {o o' : Op} {R : Ans o → Ans o' → Prop}
    (ho : Op.Alike K o o' R) (i : ℕ) :
    Option.Rel (Performed K R) (perform i o ω w) (perform i o' ω w') := by
  cases ho with
  | keyless ho => exact h.keyless ho i
  | findTransactionByIdempotencyKey hd =>
    exact h.read (h.db.findTransactionByIdempotencyKey hK hd)
  | findTransactionByProviderRef ref => exact h.read (h.db.findTransactionByProviderRef ref)
  | createTransaction hd => exact h.insert i (h.db.createTransaction hK ⟨_, hd, rfl⟩)
  | failTransaction reason ht => exact h.write rfl (h.withDb (h.db.failTransaction ht reason))
  | settleTransaction walletId type change data ht =>
    exact h.insert i (h.db.settleTransaction hK ht walletId type change _)
  | findTransferByIdempotencyKey hu => exact h.read (h.db.findTransferByIdempotencyKey hK hu)
  | createTransfer hu => exact h.insert i (h.db.createTransfer hK ⟨_, hu, rfl⟩)
  | executeTransfer fromWalletId toWalletId data ht =>
    exact h.insert i (h.db.executeTransfer hK ht fromWalletId toWalletId _)

end World.Alike

end LiorParisWallet
