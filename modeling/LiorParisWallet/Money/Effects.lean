import LiorParisWallet.Server.World

/-!
# What an operation can do to the world

`Effect i o w w'` lists, operation by operation, the changes that call `i` can make, with everything
that the database has checked on the way.  `effect_of_perform` is the one place where the repository
functions are taken apart.
-/

namespace LiorParisWallet

open Relational

/-- The entry that settles a deposit. -/
def settlementEntry (wallet : Wallet) (t : Transaction) (type : LedgerEntryType) (change : ℤ) :
    LedgerEntry :=
  { walletId := wallet.id
    type := type
    amount := t.amount
    currency := wallet.currency
    balanceAfter := wallet.balance + change
    idempotencyKey := t.idempotencyKey }

/-- The entry on the sender's side of a transfer. -/
def debitEntry (wallet : Wallet) (t : Transfer) : LedgerEntry :=
  { walletId := wallet.id
    type := .transferOut
    amount := t.amount
    currency := t.currency
    balanceAfter := wallet.balance - t.amount
    idempotencyKey := t.idempotencyKey ++ ":out" }

/-- The entry on the receiver's side of a transfer. -/
def creditEntry (wallet : Wallet) (t : Transfer) : LedgerEntry :=
  { walletId := wallet.id
    type := .transferIn
    amount := t.amount
    currency := t.currency
    balanceAfter := wallet.balance + t.amount
    idempotencyKey := t.idempotencyKey ++ ":in" }

/-- The store after a settlement that went through. -/
def Store.settled (db : Store) (wallet : Wallet) (t : Transaction) (change : ℤ)
    (ledger : Table LedgerEntry) (outbox : Table OutboxEvent) : Store :=
  { db with
    wallets := (db.setBalance wallet.id (wallet.balance + change)).wallets
    transactions := (db.completeTransaction t.id).transactions
    ledger := ledger
    outbox := outbox }

/-- The store after a transfer that went through. -/
def Store.transferred (db : Store) (sender receiver : Wallet) (t : Transfer)
    (ledger : Table LedgerEntry) (outbox : Table OutboxEvent) : Store :=
  { db with
    wallets := ((db.setBalance sender.id (sender.balance - t.amount)).setBalance receiver.id
      (receiver.balance + t.amount)).wallets
    transfers := (db.completeTransfer t.id).transfers
    ledger := ledger
    outbox := outbox }

section Repositories

variable {db db' : Store}

theorem bind_eq_ok {α β : Type} {x : Except Err α} {f : α → Except Err β} {b : β} :
    (x >>= f) = .ok b ↔ ∃ a, x = .ok a ∧ f a = .ok b := by
  cases x with
  | error e => exact ⟨nofun, fun ⟨_, h, _⟩ => nomatch h⟩
  | ok a => exact ⟨fun h => ⟨a, rfl, h⟩, fun ⟨_, h, hf⟩ => by cases h; exact hf⟩

theorem insertInto_eq_ok {ρ : Type} [Entity ρ] {t t' : Table ρ} {r : ρ} :
    Store.insertInto t r = .ok t' ↔ t.insert? r = some t' := by
  unfold Store.insertInto
  cases t.insert? r with
  | none => exact ⟨nofun, nofun⟩
  | some t₁ => simp only [Except.ok.injEq, Option.some.injEq]

theorem findWallet_eq_some {id : String} {a : Wallet} :
    db.findWallet id = some a ↔ a ∈ db.wallets ∧ a.id = id := by
  constructor
  · intro h
    obtain ⟨ha, hid⟩ := Table.mem_of_find? h
    exact ⟨ha, by simpa using hid⟩
  · rintro ⟨ha, rfl⟩
    refine Table.find?_eq_some ha (by simp) fun b hb => ?_
    have hb : b.id = a.id := by simpa using hb
    simp [Entity.clash, hb]

theorem mem_setBalance {id : String} {balance : ℤ} {a : Wallet} :
    a ∈ (db.setBalance id balance).wallets ↔ ∃ b ∈ db.wallets,
      (if b.id == id then { b with balance := balance } else b) = a :=
  List.mem_map

/-- What holds of the wallets, whatever their balances, holds after one of them was written. -/
theorem forall_setBalance {P : Wallet → Prop} {id : String} {balance : ℤ} (h : ∀ a ∈ db.wallets, P a)
    (hset : ∀ a, P a → P { a with balance := balance }) : ∀ a ∈ (db.setBalance id balance).wallets, P a := by
  intro a ha
  obtain ⟨b, hb, rfl⟩ := mem_setBalance.mp ha
  split
  · exact hset b (h b hb)
  · exact h b hb

theorem mem_updateTransactionProviderRef {id ref : String} {t : Transaction} :
    t ∈ (db.updateTransactionProviderRef id ref).transactions ↔ ∃ t' ∈ db.transactions,
      (if t'.id == id then { t' with providerRef := some ref } else t') = t :=
  List.mem_map

theorem mem_failTransaction {t₀ t : Transaction} {reason : String} :
    t ∈ (db.failTransaction t₀ reason).transactions ↔ ∃ t' ∈ db.transactions,
      (if t'.id == t₀.id then { t' with status := .failed, failureReason := some reason }
        else t') = t :=
  List.mem_map

theorem mem_completeTransaction {id : String} {t : Transaction} :
    t ∈ (db.completeTransaction id).transactions ↔ ∃ t' ∈ db.transactions,
      (if t'.id == id then { t' with status := .completed } else t') = t :=
  List.mem_map

theorem mem_completeTransfer {id : String} {t : Transfer} :
    t ∈ (db.completeTransfer id).transfers ↔ ∃ t' ∈ db.transfers,
      (if t'.id == id then { t' with status := .completed } else t') = t :=
  List.mem_map

theorem saveWallet_eq_ok {a a' : Wallet} (h : db.saveWallet a = .ok (a', db')) :
    a' = a ∧ (∃ u ∈ db.users, u.id = a.userId) ∧
      ∃ wallets, db.wallets.insert? a = some wallets ∧ db' = { db with wallets := wallets } := by
  unfold Store.saveWallet at h
  cases hu : db.users.find? (·.id == a.userId) with
  | none => rw [hu] at h; cases h
  | some u =>
    rw [hu] at h
    obtain ⟨wallets, hi, h⟩ := bind_eq_ok.mp h
    cases h
    obtain ⟨hmem, hid⟩ := Table.mem_of_find? hu
    exact ⟨rfl, ⟨u, hmem, by simpa using hid⟩, wallets, insertInto_eq_ok.mp hi, rfl⟩

theorem createTransaction_eq_ok {t t' : Transaction} (h : db.createTransaction t = .ok (t', db')) :
    t' = t ∧ ∃ transactions, db.transactions.insert? t = some transactions ∧
      db' = { db with transactions := transactions } := by
  obtain ⟨transactions, hi, h⟩ := bind_eq_ok.mp h
  cases h
  exact ⟨rfl, transactions, insertInto_eq_ok.mp hi, rfl⟩

theorem createTransfer_eq_ok {t t' : Transfer} (h : db.createTransfer t = .ok (t', db')) :
    t' = t ∧ ∃ transfers, db.transfers.insert? t = some transfers ∧
      db' = { db with transfers := transfers } := by
  obtain ⟨transfers, hi, h⟩ := bind_eq_ok.mp h
  cases h
  exact ⟨rfl, transfers, insertInto_eq_ok.mp hi, rfl⟩

theorem createUser_eq_ok {u u' : Users} (h : db.createUser u = .ok (u', db')) :
    u' = u ∧ ∃ users, db.users.insert? u = some users ∧ db' = { db with users := users } := by
  obtain ⟨users, hi, h⟩ := bind_eq_ok.mp h
  cases h
  exact ⟨rfl, users, insertInto_eq_ok.mp hi, rfl⟩

theorem saveLedgerEntry_eq_ok {e : LedgerEntry} :
    db.saveLedgerEntry e = .ok db' ↔
      ∃ ledger, db.ledger.insert? e = some ledger ∧ db' = { db with ledger := ledger } := by
  refine bind_eq_ok.trans (exists_congr fun ledger => ?_)
  rw [insertInto_eq_ok]
  exact and_congr_right fun _ => ⟨fun h => (Except.ok.inj h).symm, fun h => congrArg _ h.symm⟩

theorem saveOutboxEvent_eq_ok {e : OutboxEvent} :
    db.saveOutboxEvent e = .ok db' ↔
      ∃ outbox, db.outbox.insert? e = some outbox ∧ db' = { db with outbox := outbox } := by
  refine bind_eq_ok.trans (exists_congr fun outbox => ?_)
  rw [insertInto_eq_ok]
  exact and_congr_right fun _ => ⟨fun h => (Except.ok.inj h).symm, fun h => congrArg _ h.symm⟩

/-- A settlement goes through exactly when the wallet is there, its balance stays non-negative and
    both rows can be inserted. -/
theorem settleTransaction_eq_ok {walletId : String} {t : Transaction} {type : LedgerEntryType}
    {change : ℤ} {item : OutboxEvent} {entry : LedgerEntry} :
    db.settleTransaction walletId t type change item = .ok (entry, db') ↔
      ∃ wallet ∈ db.wallets, wallet.id = walletId ∧ 0 ≤ wallet.balance + change ∧
        entry = settlementEntry wallet t type change ∧
        ∃ ledger outbox, db.ledger.insert? entry = some ledger ∧
          db.outbox.insert? item = some outbox ∧
          db' = db.settled wallet t change ledger outbox := by
  unfold Store.settleTransaction
  cases hw : db.findWallet walletId with
  | none =>
    refine ⟨nofun, ?_⟩
    rintro ⟨wallet, hmem, hid, _⟩
    rw [findWallet_eq_some.mpr ⟨hmem, hid⟩] at hw
    cases hw
  | some wallet =>
    obtain ⟨hmem, rfl⟩ := findWallet_eq_some.mp hw
    have hunique : ∀ a ∈ db.wallets, a.id = wallet.id → a = wallet :=
      fun a ha hid => Wallet.eq_of_id ha hmem hid
    by_cases hneg : wallet.balance + change < 0
    · simp only [hneg, if_true]
      refine ⟨nofun, ?_⟩
      rintro ⟨a, ha, hid, hnn, _⟩
      rw [hunique a ha hid] at hnn
      omega
    · -- the balance and the status cannot be refused, the two inserts can
      simp only [hneg, if_false, bind_eq_ok, saveLedgerEntry_eq_ok, saveOutboxEvent_eq_ok]
      constructor
      · rintro ⟨db₁, ⟨ledger, hl, rfl⟩, db₂, ⟨outbox, ho, rfl⟩, h⟩
        cases h
        exact ⟨wallet, hmem, rfl, by omega, rfl, ledger, outbox, hl, ho, rfl⟩
      · rintro ⟨a, ha, hid, _, rfl, ledger, outbox, hl, ho, rfl⟩
        obtain rfl := hunique a ha hid
        exact ⟨_, ⟨ledger, hl, rfl⟩, _, ⟨outbox, ho, rfl⟩, rfl⟩

/-- What `executeTransfer` does once it has the two rows, the receiver's being perhaps missing. -/
theorem transferWrites_eq_ok {t : Transfer} {item : OutboxEvent} (a : Wallet)
    (receiver? : Option Wallet) :
    (do
      let senderNewBalance := a.balance - t.amount
      if senderNewBalance < 0 then
        throw (.badRequest "Insufficient balance")
      let some toWallet := receiver?
        | throw .typeError
      let db := (db.setBalance a.id senderNewBalance).setBalance toWallet.id
        (toWallet.balance + t.amount)
      let db ← db.saveLedgerEntry (debitEntry a t)
      let db ← db.saveLedgerEntry (creditEntry toWallet t)
      let db ← (db.completeTransfer t.id).saveOutboxEvent item
      return ((), db) : Except Err (Unit × Store)) = .ok ((), db') ↔
      ∃ receiver, receiver? = some receiver ∧ 0 ≤ a.balance - t.amount ∧
        ∃ ledger₁ ledger outbox, db.ledger.insert? (debitEntry a t) = some ledger₁ ∧
          ledger₁.insert? (creditEntry receiver t) = some ledger ∧
          db.outbox.insert? item = some outbox ∧
          db' = db.transferred a receiver t ledger outbox := by
  by_cases hneg : a.balance - t.amount < 0
  · simp only [hneg, if_true]
    refine ⟨nofun, ?_⟩
    rintro ⟨_, _, hnn, _⟩
    omega
  · simp only [hneg, if_false]
    cases receiver? with
    | none => exact ⟨nofun, nofun⟩
    | some b =>
      simp only [bind_eq_ok, saveLedgerEntry_eq_ok, saveOutboxEvent_eq_ok]
      constructor
      · rintro ⟨db₁, ⟨ledger₁, hl₁, rfl⟩, db₂, ⟨ledger, hl, rfl⟩, db₃, ⟨outbox, ho, rfl⟩, h⟩
        cases h
        exact ⟨b, rfl, by omega, ledger₁, ledger, outbox, hl₁, hl, ho, rfl⟩
      · rintro ⟨b', hb', _, ledger₁, ledger, outbox, hl₁, hl, ho, rfl⟩
        cases hb'
        exact ⟨_, ⟨ledger₁, hl₁, rfl⟩, _, ⟨ledger, hl, rfl⟩, _, ⟨outbox, ho, rfl⟩, rfl⟩

/-- The renaming by lock order is undone: whichever id is smaller, the sender is the wallet with the id
    `fromWalletId` and the receiver the one with `toWalletId`. -/
theorem executeTransfer_eq_ok {t : Transfer} {fromWalletId toWalletId : String} {item : OutboxEvent} :
    db.executeTransfer t fromWalletId toWalletId item = .ok ((), db') ↔
      ∃ sender receiver, db.findWallet fromWalletId = some sender ∧
        db.findWallet toWalletId = some receiver ∧ 0 ≤ sender.balance - t.amount ∧
        ∃ ledger₁ ledger outbox, db.ledger.insert? (debitEntry sender t) = some ledger₁ ∧
          ledger₁.insert? (creditEntry receiver t) = some ledger ∧
          db.outbox.insert? item = some outbox ∧
          db' = db.transferred sender receiver t ledger outbox := by
  unfold Store.executeTransfer
  by_cases hlt : fromWalletId < toWalletId
  · -- the sender's row is the first, and it is not the receiver's
    have hne : fromWalletId ≠ toWalletId := fun h => String.lt_irrefl _ (h ▸ hlt)
    simp only [hlt, if_true]
    cases ha : db.findWallet fromWalletId with
    | none => exact ⟨nofun, nofun⟩
    | some a =>
      obtain ⟨-, rfl⟩ := findWallet_eq_some.mp ha
      simp only [if_true, hne, if_false]
      refine (transferWrites_eq_ok a (db.findWallet toWalletId)).trans ?_
      simp only [Option.some.injEq, exists_and_left, exists_eq_left']
  · -- the receiver's row is the first, and where the ids are equal it is the sender's as well
    simp only [hlt, if_false]
    cases hb : db.findWallet toWalletId with
    | none => exact ⟨nofun, nofun⟩
    | some b =>
      obtain ⟨-, rfl⟩ := findWallet_eq_some.mp hb
      have hfrom : (if b.id = fromWalletId then some b else db.findWallet fromWalletId) =
          db.findWallet fromWalletId := by
        split
        · rename_i h
          rw [← h, hb]
        · rfl
      simp only [hfrom, if_true]
      cases ha : db.findWallet fromWalletId with
      | none => exact ⟨nofun, nofun⟩
      | some a =>
        refine (transferWrites_eq_ok a (some b)).trans ?_
        simp only [Option.some.injEq, exists_and_left, exists_eq_left']

theorem transfer_rows {t : Transfer} {sender receiver : Wallet} {ledger₀ ledger₁ ledger : Table LedgerEntry}
    (debit : ledger₀.insert? (debitEntry sender t) = some ledger₁)
    (credit : ledger₁.insert? (creditEntry receiver t) = some ledger) :
    ledger.rows = ledger₀.rows ++ [debitEntry sender t, creditEntry receiver t] := by
  rw [(Table.insert?_eq_some credit).2, (Table.insert?_eq_some debit).2, List.append_assoc]
  rfl

end Repositories

section Operations

variable {α : Type} {w w' : World} {ω : Choice} {i : ℕ}

theorem read_eq_some {a : α} {r : Except Err α} (h : w.read ω a = some (r, w')) :
    w' = w ∧ ∀ b, r = .ok b → b = a := by
  unfold World.read at h
  split at h <;> cases h
  · exact ⟨rfl, nofun⟩
  · exact ⟨rfl, fun b hb => by cases hb; rfl⟩

theorem write_eq_some {a : α} {w₁ : World} {r : Except Err α} (h : w.write ω a w₁ = some (r, w')) :
    (w' = w ∧ ∀ b, r ≠ .ok b) ∨ w' = w₁ ∧ r = .ok a := by
  unfold World.write at h
  split at h <;> cases h
  · exact .inl ⟨rfl, nofun⟩
  · exact .inr ⟨rfl, rfl⟩

theorem insert_eq_some {result : Except Err (α × Store)} {r : Except Err α}
    (h : w.insert i ω result = some (r, w')) :
    (w' = w ∧ ∀ b, r ≠ .ok b) ∨ ∃ a db, result = .ok (a, db) ∧ r = .ok a ∧ ω.uuid ∉ w.issuedIds ∧
      w' = { w with db := db, issued := (ω.uuid, i) :: w.issued } := by
  unfold World.insert at h
  split at h
  · cases h
  · rename_i hfresh
    split at h <;> cases h
    · exact .inl ⟨rfl, nofun⟩
    · exact .inl ⟨rfl, nofun⟩
    · exact .inr ⟨_, _, rfl, rfl, hfresh, rfl⟩

theorem pay_eq_some {p : Payment} {r : Except Err PaymentGatewayResult}
    (h : w.pay p = some (r, w')) :
    r = p.answer ∧ (∀ ref, p.providerRef = some ref → ref ∉ w.providerRefs) ∧
      w' = { w with payments := w.payments ++ [p] } := by
  unfold World.pay at h
  split at h
  · cases h
  · rename_i hfresh
    cases h
    exact ⟨rfl, fun ref href hmem => hfresh ⟨ref, href, hmem⟩, rfl⟩

end Operations

/-- The ways in which call `i` can change the world by the operation `o`. -/
inductive Effect (i : ℕ) (w : World) : Op → World → Prop where
  | nothing (o : Op) : Effect i w o w
  | cache (o : Op) (cache : List (String × Wallet)) : Effect i w o { w with cache := cache }
  | saveWallet {data : WalletData} {id : String} {wallets : Table Wallet}
      (fresh : id ∉ w.issuedIds) (user : ∃ u ∈ w.db.users, u.id = data.userId)
      (inserted : w.db.wallets.insert? (data.create id) = some wallets) :
      Effect i w (.saveWallet data)
        { w with db := { w.db with wallets := wallets }, issued := (id, i) :: w.issued }
  | createTransaction {data : TransactionData} {id : String} {transactions : Table Transaction}
      (fresh : id ∉ w.issuedIds)
      (inserted : w.db.transactions.insert? (data.create id) = some transactions) :
      Effect i w (.createTransaction data)
        { w with db := { w.db with transactions := transactions }, issued := (id, i) :: w.issued }
  | updateTransactionProviderRef (id ref : String) :
      Effect i w (.updateTransactionProviderRef id ref)
        { w with db := w.db.updateTransactionProviderRef id ref }
  | failTransaction (t : Transaction) (reason : String) :
      Effect i w (.failTransaction t reason) { w with db := w.db.failTransaction t reason }
  | settleTransaction {t : Transaction} {type : LedgerEntryType} {change : ℤ} {data : OutboxData}
      {id : String} {now : ℕ} {wallet : Wallet} {ledger : Table LedgerEntry}
      {outbox : Table OutboxEvent} (fresh : id ∉ w.issuedIds) (wallet_mem : wallet ∈ w.db.wallets)
      (enough : 0 ≤ wallet.balance + change)
      (entry : w.db.ledger.insert? (settlementEntry wallet t type change) = some ledger)
      (event : w.db.outbox.insert? (data.create id now) = some outbox) :
      Effect i w (.settleTransaction wallet.id t type change data)
        { w with db := w.db.settled wallet t change ledger outbox, issued := (id, i) :: w.issued }
  | createTransfer {data : TransferData} {id : String} {transfers : Table Transfer}
      (fresh : id ∉ w.issuedIds)
      (inserted : w.db.transfers.insert? (data.create id) = some transfers) :
      Effect i w (.createTransfer data)
        { w with db := { w.db with transfers := transfers }, issued := (id, i) :: w.issued }
  | executeTransfer {t : Transfer} {data : OutboxData} {id : String} {now : ℕ}
      {sender receiver : Wallet} {ledger₁ ledger : Table LedgerEntry} {outbox : Table OutboxEvent}
      (fresh : id ∉ w.issuedIds) (sender_mem : sender ∈ w.db.wallets)
      (receiver_mem : receiver ∈ w.db.wallets) (enough : 0 ≤ sender.balance - t.amount)
      (debit : w.db.ledger.insert? (debitEntry sender t) = some ledger₁)
      (credit : ledger₁.insert? (creditEntry receiver t) = some ledger)
      (event : w.db.outbox.insert? (data.create id now) = some outbox) :
      Effect i w (.executeTransfer t sender.id receiver.id data)
        { w with
          db := w.db.transferred sender receiver t ledger outbox
          issued := (id, i) :: w.issued }
  | createUser {data : UserData} {id : String} {users : Table Users} (fresh : id ∉ w.issuedIds)
      (inserted : w.db.users.insert? (data.create id) = some users) :
      Effect i w (.createUser data)
        { w with db := { w.db with users := users }, issued := (id, i) :: w.issued }
  | deleteUser (id : String) : Effect i w (.deleteUser id) { w with db := w.db.deleteUser id }
  | processDeposit (p : Payment) (caller : p.call = i)
      (fresh : ∀ ref, p.providerRef = some ref → ref ∉ w.providerRefs) :
      Effect i w (.processDeposit p.amount p.currency p.paymentMethod p.transactionId p.userId)
        { w with payments := w.payments ++ [p] }

theorem perform_cacheGet (i : ℕ) (key : String) (ω : Choice) (w : World) :
    perform i (.cacheGet key) ω w =
      if ω.expired then w.write ω none { w with cache := w.cache.filter (·.1 != key) }
      else w.read ω (w.cache.lookup key) :=
  rfl

theorem effect_of_perform {i : ℕ} {o : Op} {ω : Choice} {w w' : World} {r : Except Err (Ans o)}
    (h : perform i o ω w = some (r, w')) : Effect i w o w' := by
  cases o with
  -- operations that read
  | findByUserIdAndCurrency userId currency => rw [(read_eq_some h).1]; exact .nothing _
  | findByWalletTag walletTag => rw [(read_eq_some h).1]; exact .nothing _
  | findTransactionByIdempotencyKey key => rw [(read_eq_some h).1]; exact .nothing _
  | findTransactionByProviderRef providerRef => rw [(read_eq_some h).1]; exact .nothing _
  | findTransferByIdempotencyKey key => rw [(read_eq_some h).1]; exact .nothing _
  | findUserById userId => rw [(read_eq_some h).1]; exact .nothing _
  | randomBytes => rw [(read_eq_some h).1]; exact .nothing _
  | newDate => rw [(read_eq_some h).1]; exact .nothing _
  -- operations that write without an id
  | cacheGet key =>
    rw [perform_cacheGet] at h
    split at h
    · rcases write_eq_some h with ⟨rfl, _⟩ | ⟨rfl, _⟩
      · exact .nothing _
      · exact .cache _ _
    · rw [(read_eq_some h).1]; exact .nothing _
  | cacheSet key wallet =>
    rcases write_eq_some h with ⟨rfl, _⟩ | ⟨rfl, _⟩
    · exact .nothing _
    · exact .cache _ _
  | cacheDel key =>
    rcases write_eq_some h with ⟨rfl, _⟩ | ⟨rfl, _⟩
    · exact .nothing _
    · exact .cache _ _
  | updateTransactionProviderRef id ref =>
    rcases write_eq_some h with ⟨rfl, _⟩ | ⟨rfl, _⟩
    · exact .nothing _
    · exact .updateTransactionProviderRef id ref
  | failTransaction t reason =>
    rcases write_eq_some h with ⟨rfl, _⟩ | ⟨rfl, _⟩
    · exact .nothing _
    · exact .failTransaction t reason
  | deleteUser id =>
    rcases write_eq_some h with ⟨rfl, _⟩ | ⟨rfl, _⟩
    · exact .nothing _
    · exact .deleteUser id
  -- transactions that insert a row with a new id
  | saveWallet data =>
    rcases insert_eq_some h with ⟨rfl, _⟩ | ⟨a, db, hr, _, hfresh, rfl⟩
    · exact .nothing _
    · obtain ⟨-, hu, wallets, hi, rfl⟩ := saveWallet_eq_ok hr
      exact .saveWallet hfresh hu hi
  | createTransaction data =>
    rcases insert_eq_some h with ⟨rfl, _⟩ | ⟨a, db, hr, _, hfresh, rfl⟩
    · exact .nothing _
    · obtain ⟨-, transactions, hi, rfl⟩ := createTransaction_eq_ok hr
      exact .createTransaction hfresh hi
  | createTransfer data =>
    rcases insert_eq_some h with ⟨rfl, _⟩ | ⟨a, db, hr, _, hfresh, rfl⟩
    · exact .nothing _
    · obtain ⟨-, transfers, hi, rfl⟩ := createTransfer_eq_ok hr
      exact .createTransfer hfresh hi
  | createUser data =>
    rcases insert_eq_some h with ⟨rfl, _⟩ | ⟨a, db, hr, _, hfresh, rfl⟩
    · exact .nothing _
    · obtain ⟨-, users, hi, rfl⟩ := createUser_eq_ok hr
      exact .createUser hfresh hi
  | settleTransaction walletId t type change data =>
    rcases insert_eq_some h with ⟨rfl, _⟩ | ⟨a, db, hr, _, hfresh, rfl⟩
    · exact .nothing _
    · obtain ⟨wallet, hmem, rfl, hnn, rfl, ledger, outbox, hl, ho, rfl⟩ :=
        settleTransaction_eq_ok.mp hr
      exact .settleTransaction hfresh hmem hnn hl ho
  | executeTransfer t fromWalletId toWalletId data =>
    rcases insert_eq_some h with ⟨rfl, _⟩ | ⟨a, db, hr, _, hfresh, rfl⟩
    · exact .nothing _
    · obtain ⟨sender, receiver, hs, hrcv, hnn, ledger₁, ledger, outbox, hd, hc, ho, rfl⟩ :=
        executeTransfer_eq_ok.mp hr
      obtain ⟨hsender, rfl⟩ := findWallet_eq_some.mp hs
      obtain ⟨hreceiver, rfl⟩ := findWallet_eq_some.mp hrcv
      exact .executeTransfer hfresh hsender hreceiver hnn hd hc ho
  | processDeposit amount currency paymentMethod transactionId userId =>
    obtain ⟨-, hfresh, rfl⟩ := pay_eq_some h
    exact .processDeposit _ rfl hfresh

end LiorParisWallet
