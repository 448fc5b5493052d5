import LiorParisWallet.Locking.Database
import LiorParisWallet.Money.Effects

/-!
# Money transactions, statement by statement

The bodies of `settleTransaction` and `executeTransfer` with the single statements that they send to the
database.  Run alone they are the repository functions of `Store` (`settleTransaction_runOn`,
`executeTransfer_runOn`).
-/

namespace LiorParisWallet.RowLocks

open Locking Relational

inductive Statement where
  /-- `findOne(Wallet, { where: { id }, lock: { mode: 'pessimistic_write' } })` -/
  | lockWallet (id : String)
  /-- `update(Wallet, id, { balance })` -/
  | updateWallet (id : String) (balance : ℤ)
  | saveLedgerEntry (entry : LedgerEntry)
  /-- `update(Transaction, id, { status: Completed })` -/
  | completeTransaction (id : String)
  /-- `update(Transfer, id, { status: Completed })` -/
  | completeTransfer (id : String)
  | saveOutboxEvent (event : OutboxEvent)

abbrev Statement.Ans : Statement → Type
  | .lockWallet _ => Option Wallet
  | .updateWallet _ _ => Unit
  | .saveLedgerEntry _ => Unit
  | .completeTransaction _ => Unit
  | .completeTransfer _ => Unit
  | .saveOutboxEvent _ => Unit

def exec : (o : Statement) → Store → Except Err (Statement.Ans o × Store)
  | .lockWallet id, db => .ok (db.findWallet id, db)
  | .updateWallet id balance, db => .ok ((), db.setBalance id balance)
  | .saveLedgerEntry entry, db => (db.saveLedgerEntry entry).map ((), ·)
  | .completeTransaction id, db => .ok ((), db.completeTransaction id)
  | .completeTransfer id, db => .ok ((), db.completeTransfer id)
  | .saveOutboxEvent event, db => (db.saveOutboxEvent event).map ((), ·)

/-! ## What can be locked -/

/-- A row, by the value of the index through which the statements come to it. -/
inductive Resource where
  | wallet (id : String)
  | ledgerEntry (idempotencyKey : String)
  | transaction (id : String)
  | transfer (id : String)
  | outboxEvent (id : String)
deriving DecidableEq, Repr

def Statement.resource : Statement → Resource
  | .lockWallet id => .wallet id
  | .updateWallet id _ => .wallet id
  | .saveLedgerEntry entry => .ledgerEntry entry.idempotencyKey
  | .completeTransaction id => .transaction id
  | .completeTransfer id => .transfer id
  | .saveOutboxEvent event => .outboxEvent event.id

abbrev Resource.Row : Resource → Type
  | .wallet _ => Option Wallet
  | .ledgerEntry _ => Option LedgerEntry
  | .transaction _ => Option Transaction
  | .transfer _ => Option Transfer
  | .outboxEvent _ => Option OutboxEvent

def row (db : Store) : (k : Resource) → k.Row
  | .wallet id => db.findWallet id
  | .ledgerEntry idempotencyKey => db.ledger.find? (·.idempotencyKey == idempotencyKey)
  | .transaction id => db.transactions.find? (·.id == id)
  | .transfer id => db.transfers.find? (·.id == id)
  | .outboxEvent id => db.outbox.find? (·.id == id)

/-- An insertion locks the value of the unique index, which may be new; the other statements lock a row
    that they have found. -/
def lockable : (k : Resource) → k.Row → Bool
  | .wallet _, r => r.isSome
  | .ledgerEntry _, _ => true
  | .transaction _, r => r.isSome
  | .transfer _, r => r.isSome
  | .outboxEvent _, _ => true

section Laws

variable {o : Statement} {db db' e : Store} {a : Statement.Ans o}

theorem map_unit_eq_ok {x : Except Err Store} {u : Unit} :
    x.map ((), ·) = .ok (u, db') ↔ x = .ok db' := by
  cases x with
  | error e => exact ⟨nofun, nofun⟩
  | ok db₁ => exact ⟨fun h => by cases h; rfl, fun h => by cases h; rfl⟩

theorem exec_saveLedgerEntry {entry : LedgerEntry} {u : Unit} :
    exec (.saveLedgerEntry entry) db = .ok (u, db') ↔
      ∃ ledger, db.ledger.insert? entry = some ledger ∧ db' = { db with ledger := ledger } :=
  map_unit_eq_ok.trans saveLedgerEntry_eq_ok

theorem exec_saveOutboxEvent {event : OutboxEvent} {u : Unit} :
    exec (.saveOutboxEvent event) db = .ok (u, db') ↔
      ∃ outbox, db.outbox.insert? event = some outbox ∧ db' = { db with outbox := outbox } :=
  map_unit_eq_ok.trans saveOutboxEvent_eq_ok

theorem findWallet_setBalance (db : Store) (id id' : String) (balance : ℤ) :
    (db.setBalance id balance).findWallet id' = (db.findWallet id').map fun w =>
      if w.id == id then { w with balance := balance } else w := by
  refine Table.find?_update ?_ ?_
  · exact fun _ _ => rfl
  · exact fun _ => rfl

theorem findTransaction_completeTransaction (db : Store) (id id' : String) :
    (db.completeTransaction id).transactions.find? (·.id == id') =
      (db.transactions.find? (·.id == id')).map fun t =>
        if t.id == id then { t with status := .completed } else t := by
  refine Table.find?_update ?_ ?_
  · exact fun _ _ => rfl
  · exact fun _ => rfl

theorem findTransfer_completeTransfer (db : Store) (id id' : String) :
    (db.completeTransfer id).transfers.find? (·.id == id') =
      (db.transfers.find? (·.id == id')).map fun t =>
        if t.id == id then { t with status := .completed } else t := by
  refine Table.find?_update ?_ ?_
  · exact fun _ _ => rfl
  · exact fun _ => rfl

/-- An update of the rows with another id leaves a row as it is. -/
theorem map_update_of_ne {ρ : Type} {t : Option ρ} {key : ρ → String} {id id' : String} {f : ρ → ρ}
    (h : ∀ r ∈ t, key r = id') (hne : id' ≠ id) :
    (t.map fun r => if key r == id then f r else r) = t := by
  cases t with
  | none => rfl
  | some r =>
    have hr : key r ≠ id := fun heq => hne ((h r rfl).symm.trans heq)
    rw [Option.map_some, if_neg (by simpa using hr)]

theorem key_of_find? {ρ : Type} [Entity ρ] {t : Table ρ} {key : ρ → String} {id : String} :
    ∀ r ∈ t.find? (key · == id), key r = id := by
  intro r hr
  simpa using (Table.mem_of_find? hr).2

theorem exec_of_row (h : exec o db = .ok (a, db')) (hrow : row e o.resource = row db o.resource) :
    ∃ e', exec o e = .ok (a, e') ∧ row e' o.resource = row db' o.resource := by
  cases o with
  | lockWallet id =>
    cases h
    exact ⟨e, congrArg (fun w => Except.ok (w, e)) hrow, hrow⟩
  | updateWallet id balance =>
    cases h
    refine ⟨_, rfl, ?_⟩
    show (e.setBalance id balance).findWallet id = (db.setBalance id balance).findWallet id
    rw [findWallet_setBalance, findWallet_setBalance]
    exact congrArg _ hrow
  | saveLedgerEntry entry =>
    obtain ⟨ledger, hinsert, rfl⟩ := exec_saveLedgerEntry.mp h
    replace hrow : e.ledger.find? (Entity.clash · entry) = db.ledger.find? (Entity.clash · entry) :=
      hrow
    cases hi : e.ledger.insert? entry with
    | none =>
      -- the row that would be in the way there is in the way here
      rw [Table.insert?_eq_none_iff, hrow, ← Table.insert?_eq_none_iff, hinsert] at hi
      cases hi
    | some ledger' =>
      refine ⟨_, exec_saveLedgerEntry.mpr ⟨ledger', hi, rfl⟩, ?_⟩
      show ledger'.find? (Entity.clash · entry) = ledger.find? (Entity.clash · entry)
      rw [Table.find?_insert? hi, Table.find?_insert? hinsert, hrow]
  | completeTransaction id =>
    cases h
    refine ⟨_, rfl, ?_⟩
    show (e.completeTransaction id).transactions.find? (·.id == id) =
      (db.completeTransaction id).transactions.find? (·.id == id)
    rw [findTransaction_completeTransaction, findTransaction_completeTransaction]
    exact congrArg _ hrow
  | completeTransfer id =>
    cases h
    refine ⟨_, rfl, ?_⟩
    show (e.completeTransfer id).transfers.find? (·.id == id) =
      (db.completeTransfer id).transfers.find? (·.id == id)
    rw [findTransfer_completeTransfer, findTransfer_completeTransfer]
    exact congrArg _ hrow
  | saveOutboxEvent event =>
    obtain ⟨outbox, hinsert, rfl⟩ := exec_saveOutboxEvent.mp h
    replace hrow : e.outbox.find? (Entity.clash · event) = db.outbox.find? (Entity.clash · event) :=
      hrow
    cases hi : e.outbox.insert? event with
    | none =>
      rw [Table.insert?_eq_none_iff, hrow, ← Table.insert?_eq_none_iff, hinsert] at hi
      cases hi
    | some outbox' =>
      refine ⟨_, exec_saveOutboxEvent.mpr ⟨outbox', hi, rfl⟩, ?_⟩
      show outbox'.find? (Entity.clash · event) = outbox.find? (Entity.clash · event)
      rw [Table.find?_insert? hi, Table.find?_insert? hinsert, hrow]

theorem row_frame {k : Resource} (h : exec o db = .ok (a, db')) (hk : k ≠ o.resource) :
    row db' k = row db k := by
  cases o with
  | lockWallet id =>
    cases h
    rfl
  | updateWallet id balance =>
    cases h
    cases k with
    | wallet id' =>
      show (db.setBalance id balance).findWallet id' = db.findWallet id'
      rw [findWallet_setBalance]
      exact map_update_of_ne key_of_find? fun heq => hk (congrArg Resource.wallet heq)
    | _ => rfl
  | saveLedgerEntry entry =>
    obtain ⟨ledger, hinsert, rfl⟩ := exec_saveLedgerEntry.mp h
    cases k with
    | ledgerEntry key =>
      show ledger.find? (·.idempotencyKey == key) = db.ledger.find? (·.idempotencyKey == key)
      have hne : entry.idempotencyKey ≠ key := fun heq => hk (congrArg Resource.ledgerEntry heq.symm)
      rw [Table.find?_insert? hinsert, if_neg (by simpa using hne), Option.or_none]
    | _ => rfl
  | completeTransaction id =>
    cases h
    cases k with
    | transaction id' =>
      show (db.completeTransaction id).transactions.find? (·.id == id') =
        db.transactions.find? (·.id == id')
      rw [findTransaction_completeTransaction]
      exact map_update_of_ne key_of_find? fun heq => hk (congrArg Resource.transaction heq)
    | _ => rfl
  | completeTransfer id =>
    cases h
    cases k with
    | transfer id' =>
      show (db.completeTransfer id).transfers.find? (·.id == id') = db.transfers.find? (·.id == id')
      rw [findTransfer_completeTransfer]
      exact map_update_of_ne key_of_find? fun heq => hk (congrArg Resource.transfer heq)
    | _ => rfl
  | saveOutboxEvent event =>
    obtain ⟨outbox, hinsert, rfl⟩ := exec_saveOutboxEvent.mp h
    cases k with
    | outboxEvent id =>
      show outbox.find? (·.id == id) = db.outbox.find? (·.id == id)
      have hne : event.id ≠ id := fun heq => hk (congrArg Resource.outboxEvent heq.symm)
      rw [Table.find?_insert? hinsert, if_neg (by simpa using hne), Option.or_none]
    | _ => rfl

/-- A statement that finds no row to lock has nothing to change. -/
theorem row_of_not_lockable (h : exec o db = .ok (a, db'))
    (hl : lockable o.resource (row db o.resource) = false) :
    row db' o.resource = row db o.resource := by
  cases o with
  | lockWallet id =>
    cases h
    rfl
  | updateWallet id balance =>
    cases h
    have hnone : db.findWallet id = none := by simpa [lockable, row, Statement.resource] using hl
    show (db.setBalance id balance).findWallet id = db.findWallet id
    rw [findWallet_setBalance, hnone]
    rfl
  | saveLedgerEntry entry => cases hl
  | completeTransaction id =>
    cases h
    have hnone : db.transactions.find? (·.id == id) = none := by
      simpa only [lockable, row, Statement.resource, Option.isSome_eq_false_iff,
        Option.isNone_iff_eq_none] using hl
    show (db.completeTransaction id).transactions.find? (·.id == id) =
      db.transactions.find? (·.id == id)
    rw [findTransaction_completeTransaction, hnone]
    rfl
  | completeTransfer id =>
    cases h
    have hnone : db.transfers.find? (·.id == id) = none := by
      simpa only [lockable, row, Statement.resource, Option.isSome_eq_false_iff,
        Option.isNone_iff_eq_none] using hl
    show (db.completeTransfer id).transfers.find? (·.id == id) = db.transfers.find? (·.id == id)
    rw [findTransfer_completeTransfer, hnone]
    rfl
  | saveOutboxEvent event => cases hl

theorem lockable_exec (h : exec o db = .ok (a, db'))
    (hl : lockable o.resource (row db o.resource) = true) :
    lockable o.resource (row db' o.resource) = true := by
  cases o with
  | lockWallet id =>
    cases h
    exact hl
  | updateWallet id balance =>
    cases h
    show ((db.setBalance id balance).findWallet id).isSome = true
    rw [findWallet_setBalance, Option.isSome_map]
    exact hl
  | saveLedgerEntry entry => rfl
  | completeTransaction id =>
    cases h
    show ((db.completeTransaction id).transactions.find? (·.id == id)).isSome = true
    rw [findTransaction_completeTransaction, Option.isSome_map]
    exact hl
  | completeTransfer id =>
    cases h
    show ((db.completeTransfer id).transfers.find? (·.id == id)).isSome = true
    rw [findTransfer_completeTransfer, Option.isSome_map]
    exact hl
  | saveOutboxEvent event => rfl

end Laws

/-- The database as it locks rows: every statement reads and writes one row, and locks it. -/
def rowLocks : Statements Store Statement Statement.Ans Err Resource Resource.Row where
  exec := exec
  key := Statement.resource
  view := row
  lockable := lockable
  exec_of_view := exec_of_row
  frame := row_frame
  view_of_not_lockable := row_of_not_lockable
  lockable_exec := lockable_exec

/-! ## The transactions -/

abbrev Body (α : Type) : Type := Script Statement Statement.Ans Err α

def query (o : Statement) : Body (Statement.Ans o) := .call o

def settleTransaction (walletId : String) (transaction : Transaction) (entryType : LedgerEntryType)
    (balanceChange : ℤ) (outboxItem : OutboxEvent) : Body LedgerEntry := do
  let wallet ← query (.lockWallet walletId)
  let some wallet := wallet
    | .throw .typeError
  let newBalance := wallet.balance + balanceChange
  if newBalance < 0 then
    .throw (.badRequest "Insufficient balance")
  else
    query (.updateWallet walletId newBalance)
    let entry : LedgerEntry :=
      { walletId := walletId
        type := entryType
        amount := transaction.amount
        currency := wallet.currency
        balanceAfter := newBalance
        idempotencyKey := transaction.idempotencyKey }
    query (.saveLedgerEntry entry)
    query (.completeTransaction transaction.id)
    query (.saveOutboxEvent outboxItem)
    return entry

def executeTransfer (transfer : Transfer) (fromWalletId toWalletId : String)
    (outboxItem : OutboxEvent) : Body Unit := do
  let (walletIdFirst, walletIdSecond) :=
    if fromWalletId < toWalletId then (fromWalletId, toWalletId) else (toWalletId, fromWalletId)
  let firstWallet ← query (.lockWallet walletIdFirst)
  let secondWallet ← query (.lockWallet walletIdSecond)
  let some firstWallet := firstWallet
    | .throw .typeError
  let some fromWallet := if firstWallet.id = fromWalletId then some firstWallet else secondWallet
    | .throw .typeError
  let toWallet := if firstWallet.id = toWalletId then some firstWallet else secondWallet
  let senderNewBalance := fromWallet.balance - transfer.amount
  if senderNewBalance < 0 then
    .throw (.badRequest "Insufficient balance")
  else
    let some toWallet := toWallet
      | .throw .typeError
    let receiverNewBalance := toWallet.balance + transfer.amount
    query (.updateWallet fromWallet.id senderNewBalance)
    query (.updateWallet toWallet.id receiverNewBalance)
    -- `save([debitEntry, creditEntry])`
    query (.saveLedgerEntry
      { walletId := fromWallet.id
        type := .transferOut
        amount := transfer.amount
        currency := transfer.currency
        balanceAfter := senderNewBalance
        idempotencyKey := transfer.idempotencyKey ++ ":out" })
    query (.saveLedgerEntry
      { walletId := toWallet.id
        type := .transferIn
        amount := transfer.amount
        currency := transfer.currency
        balanceAfter := receiverNewBalance
        idempotencyKey := transfer.idempotencyKey ++ ":in" })
    query (.completeTransfer transfer.id)
    query (.saveOutboxEvent outboxItem)

/-! ## The transactions run alone -/

section Serial

variable {α : Type} (db : Store)

theorem runOn_lockWallet (id : String) (f : Option Wallet → Body α) :
    (query (.lockWallet id) >>= f).runOn exec db = (f (db.findWallet id)).runOn exec db := rfl

theorem runOn_updateWallet (id : String) (balance : ℤ) (f : Unit → Body α) :
    (query (.updateWallet id balance) >>= f).runOn exec db =
      (f ()).runOn exec (db.setBalance id balance) := rfl

theorem runOn_completeTransaction (id : String) (f : Unit → Body α) :
    (query (.completeTransaction id) >>= f).runOn exec db =
      (f ()).runOn exec (db.completeTransaction id) := rfl

theorem runOn_completeTransfer (id : String) (f : Unit → Body α) :
    (query (.completeTransfer id) >>= f).runOn exec db =
      (f ()).runOn exec (db.completeTransfer id) := rfl

theorem runOn_saveLedgerEntry (entry : LedgerEntry) (f : Unit → Body α) :
    (query (.saveLedgerEntry entry) >>= f).runOn exec db =
      db.saveLedgerEntry entry >>= fun db => (f ()).runOn exec db := by
  show (Script.exec (.saveLedgerEntry entry) f).runOn exec db = _
  rw [Script.runOn, exec]
  cases db.saveLedgerEntry entry <;> rfl

theorem runOn_saveOutboxEvent (event : OutboxEvent) (f : Unit → Body α) :
    (query (.saveOutboxEvent event) >>= f).runOn exec db =
      db.saveOutboxEvent event >>= fun db => (f ()).runOn exec db := by
  show (Script.exec (.saveOutboxEvent event) f).runOn exec db = _
  rw [Script.runOn, exec]
  cases db.saveOutboxEvent event <;> rfl

/-- Run alone, the statements of `settleTransaction` do what the repository function does. -/
theorem settleTransaction_runOn (walletId : String) (transaction : Transaction)
    (entryType : LedgerEntryType) (balanceChange : ℤ) (outboxItem : OutboxEvent) :
    (settleTransaction walletId transaction entryType balanceChange outboxItem).runOn exec db =
      db.settleTransaction walletId transaction entryType balanceChange outboxItem := by
  unfold settleTransaction Store.settleTransaction
  rw [runOn_lockWallet]
  cases db.findWallet walletId with
  | none => rfl
  | some wallet =>
    dsimp only
    by_cases hneg : wallet.balance + balanceChange < 0
    · rw [if_pos hneg, if_pos hneg]
      rfl
    · rw [if_neg hneg, if_neg hneg, runOn_updateWallet, runOn_saveLedgerEntry]
      refine congrArg (Except.bind _) (funext fun db₁ => ?_)
      rw [runOn_completeTransaction, runOn_saveOutboxEvent]
      rfl

/-- Run alone, the statements of `executeTransfer` do what the repository function does. -/
theorem executeTransfer_runOn (transfer : Transfer) (fromWalletId toWalletId : String)
    (outboxItem : OutboxEvent) :
    (executeTransfer transfer fromWalletId toWalletId outboxItem).runOn exec db =
      db.executeTransfer transfer fromWalletId toWalletId outboxItem := by
  unfold executeTransfer Store.executeTransfer
  generalize (if fromWalletId < toWalletId then (fromWalletId, toWalletId)
    else (toWalletId, fromWalletId)) = ids
  obtain ⟨walletIdFirst, walletIdSecond⟩ := ids
  dsimp only
  rw [runOn_lockWallet, runOn_lockWallet]
  cases db.findWallet walletIdFirst with
  | none => rfl
  | some firstWallet =>
    dsimp only
    generalize db.findWallet walletIdSecond = secondWallet
    cases (if firstWallet.id = fromWalletId then some firstWallet else secondWallet) with
    | none => rfl
    | some fromWallet =>
      dsimp only
      by_cases hneg : fromWallet.balance - transfer.amount < 0
      · rw [if_pos hneg, if_pos hneg]
        rfl
      · rw [if_neg hneg, if_neg hneg]
        cases (if firstWallet.id = toWalletId then some firstWallet else secondWallet) with
        | none => rfl
        | some toWallet =>
          dsimp only
          rw [runOn_updateWallet, runOn_updateWallet, runOn_saveLedgerEntry]
          refine congrArg (Except.bind _) (funext fun db₁ => ?_)
          rw [runOn_saveLedgerEntry]
          refine congrArg (Except.bind _) (funext fun db₂ => ?_)
          rw [runOn_completeTransfer]
          show Script.runOn exec _ (query (.saveOutboxEvent outboxItem) >>= pure) = _
          rw [runOn_saveOutboxEvent]
          rfl

end Serial

end LiorParisWallet.RowLocks
