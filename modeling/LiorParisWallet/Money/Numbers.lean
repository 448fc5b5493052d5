import LiorParisWallet.Numeric.Doubles
import LiorParisWallet.Money.Runs

/-!
# Money as JavaScript numbers

`BIGINT` columns are read as strings, `Number(…)` makes doubles of them, and the driver writes doubles out
in decimal.  `Numbers.server` computes as the program does; as long as no amount and no balance leaves the
range in which doubles are exact, it is the server that computes with integers.
-/

namespace LiorParisWallet

open Async Relational Numeric

variable {registry : PaymentGatewayRegistry} {s s' : State}
variable {allowed : State → Label Request Choice → Prop}

namespace Numbers

/-- A number for a `BIGINT` column. -/
def bigint (x : ℤ) : Except Err ℤ :=
  if -2 ^ 63 ≤ decimal x ∧ decimal x < 2 ^ 63 then return decimal x else throw .unavailable

/-- The entity that is returned has the number that was given, the row has what the column holds. -/
def createTransaction (db : Store) (transaction : Transaction) : Except Err (Transaction × Store) := do
  let amount ← bigint transaction.amount
  let (_, db) ← db.createTransaction { transaction with amount := amount }
  return (transaction, db)

def settleTransaction (db : Store) (walletId : String) (transaction : Transaction)
    (entryType : LedgerEntryType) (balanceChange : ℤ) (outboxItem : OutboxEvent) :
    Except Err (LedgerEntry × Store) := do
  let some wallet := db.findWallet walletId
    | throw .typeError
  let newBalance := number (number wallet.balance + balanceChange)
  if newBalance < 0 then
    throw (.badRequest "Insufficient balance")
  let balance ← bigint newBalance
  -- `transaction.amount` is the string that was read
  let entry : LedgerEntry :=
    { walletId := walletId
      type := entryType
      amount := transaction.amount
      currency := wallet.currency
      balanceAfter := balance
      idempotencyKey := transaction.idempotencyKey }
  let db ← (db.setBalance walletId balance).saveLedgerEntry entry
  let db ← (db.completeTransaction transaction.id).saveOutboxEvent outboxItem
  return (entry, db)

def createTransfer (db : Store) (transfer : Transfer) : Except Err (Transfer × Store) := do
  let amount ← bigint transfer.amount
  let (_, db) ← db.createTransfer { transfer with amount := amount }
  return (transfer, db)

/-- What `executeTransfer` does once it has the two rows, the receiver's being perhaps missing. -/
def transferWrites (db : Store) (transfer : Transfer) (outboxItem : OutboxEvent) (fromWallet : Wallet)
    (toWallet : Option Wallet) : Except Err (Unit × Store) := do
  let senderNewBalance := number (number fromWallet.balance - transfer.amount)
  if senderNewBalance < 0 then
    throw (.badRequest "Insufficient balance")
  let some toWallet := toWallet
    | throw .typeError
  let receiverNewBalance := number (number toWallet.balance + transfer.amount)
  let senderBalance ← bigint senderNewBalance
  let receiverBalance ← bigint receiverNewBalance
  let amount ← bigint transfer.amount
  let db := (db.setBalance fromWallet.id senderBalance).setBalance toWallet.id receiverBalance
  let db ← db.saveLedgerEntry
    { walletId := fromWallet.id
      type := .transferOut
      amount := amount
      currency := transfer.currency
      balanceAfter := senderBalance
      idempotencyKey := transfer.idempotencyKey ++ ":out" }
  let db ← db.saveLedgerEntry
    { walletId := toWallet.id
      type := .transferIn
      amount := amount
      currency := transfer.currency
      balanceAfter := receiverBalance
      idempotencyKey := transfer.idempotencyKey ++ ":in" }
  let db ← (db.completeTransfer transfer.id).saveOutboxEvent outboxItem
  return ((), db)

def executeTransfer (db : Store) (transfer : Transfer) (fromWalletId toWalletId : String)
    (outboxItem : OutboxEvent) : Except Err (Unit × Store) := do
  let (walletIdFirst, walletIdSecond) :=
    if fromWalletId < toWalletId then (fromWalletId, toWalletId) else (toWalletId, fromWalletId)
  let some firstWallet := db.findWallet walletIdFirst
    | throw .typeError
  let secondWallet := db.findWallet walletIdSecond
  let some fromWallet := if firstWallet.id = fromWalletId then some firstWallet else secondWallet
    | throw .typeError
  let toWallet := if firstWallet.id = toWalletId then some firstWallet else secondWallet
  transferWrites db transfer outboxItem fromWallet toWallet

def inNumbers : Value → Value
  | .number n => .number (number n)
  | .string s => .string s

/-- The payload with the amount that `Number(…)` or the parser of the request has made of it. -/
def payload (data : OutboxData) : OutboxData :=
  { data with payloadJson := data.payloadJson.map fun field => (field.1, inNumbers field.2) }

/-- `perform` with the numbers of the program.  The amount of a request is a double since its body was
    parsed, and `settleByProviderRef` passes on `Number(transaction.amount)`. -/
def perform (i : ℕ) : (o : Op) → Choice → World → Option (Except Err (Ans o) × World)
  | .createTransaction data, ω, w =>
      w.insert i ω (createTransaction w.db ({ data with amount := number data.amount }.create ω.uuid))
  | .processDeposit amount currency paymentMethod transactionId userId, ω, w =>
      LiorParisWallet.perform i
        (.processDeposit (number amount) currency paymentMethod transactionId userId) ω w
  | .settleTransaction walletId transaction entryType balanceChange outboxPayload, ω, w =>
      w.insert i ω (settleTransaction w.db walletId transaction entryType (number balanceChange)
        ((payload outboxPayload).create ω.uuid ω.now))
  | .createTransfer data, ω, w =>
      w.insert i ω (createTransfer w.db ({ data with amount := number data.amount }.create ω.uuid))
  | .executeTransfer transfer fromWalletId toWalletId outboxPayload, ω, w =>
      w.insert i ω (executeTransfer w.db transfer fromWalletId toWalletId
        ((payload outboxPayload).create ω.uuid ω.now))
  | o, ω, w => LiorParisWallet.perform i o ω w

def server (registry : PaymentGatewayRegistry) : Server Op Ans Err Request Reply Choice World where
  serve := serve registry
  perform := perform

/-- A state that a run from an initial world reaches, every step of it admitted by `allowed`. -/
def ReachableBy (registry : PaymentGatewayRegistry)
    (allowed : State → Label Request Choice → Prop) (s : State) : Prop :=
  ∃ w : World, w.Initial ∧ (server registry).Reaches allowed ⟨w, []⟩ s

/-! ## In the range -/

section

variable {db : Store}

theorem bigint_eq {x : ℤ} (h : x.natAbs ≤ maxSafeInteger) : bigint x = .ok x := by
  have hrange : -2 ^ 63 ≤ x ∧ x < 2 ^ 63 := by
    unfold maxSafeInteger at h
    omega
  rw [bigint, decimal_eq h, if_pos hrange]
  rfl

/-- An integer that is a double and is written as it is. -/
def Exact (x : ℤ) : Prop := number x = x ∧ bigint x = .ok x

theorem exact_of_le {x : ℤ} (h : x.natAbs ≤ maxSafeInteger) : Exact x := ⟨number_eq h, bigint_eq h⟩

theorem createTransaction_eq {t : Transaction} (h : t.amount.natAbs ≤ maxSafeInteger) :
    createTransaction db t = db.createTransaction t := by
  rw [createTransaction, bigint_eq h]
  show (db.createTransaction t >>= fun x => pure (t, x.2)) = db.createTransaction t
  cases hcreate : db.createTransaction t with
  | error e => rfl
  | ok x =>
    obtain ⟨ht, _⟩ := createTransaction_eq_ok hcreate
    rw [← ht]
    rfl

theorem createTransfer_eq {t : Transfer} (h : t.amount.natAbs ≤ maxSafeInteger) :
    createTransfer db t = db.createTransfer t := by
  rw [createTransfer, bigint_eq h]
  show (db.createTransfer t >>= fun x => pure (t, x.2)) = db.createTransfer t
  cases hcreate : db.createTransfer t with
  | error e => rfl
  | ok x =>
    obtain ⟨ht, _⟩ := createTransfer_eq_ok hcreate
    rw [← ht]
    rfl

/-- The sum is exact, and so is everything that is stored. -/
theorem settleTransaction_eq {walletId : String} {t : Transaction} {type : LedgerEntryType} {change : ℤ}
    {item : OutboxEvent} (h : ∀ wallet, db.findWallet walletId = some wallet →
      wallet.balance.natAbs ≤ maxSafeInteger ∧ (wallet.balance + change).natAbs ≤ maxSafeInteger) :
    settleTransaction db walletId t type change item = db.settleTransaction walletId t type change item := by
  unfold settleTransaction Store.settleTransaction
  cases hwallet : db.findWallet walletId with
  | none => rfl
  | some wallet =>
    obtain ⟨hbalance, hsum⟩ := h wallet hwallet
    simp only [number_eq hbalance, number_eq hsum, bigint_eq hsum]
    rfl

theorem transferWrites_eq {t : Transfer} {item : OutboxEvent} {sender : Wallet} {receiver? : Option Wallet}
    (hamount : t.amount.natAbs ≤ maxSafeInteger)
    (hsender : sender.balance.natAbs ≤ maxSafeInteger ∧ (sender.balance - t.amount).natAbs ≤ maxSafeInteger)
    (hreceiver : t.amount ≤ sender.balance → ∀ receiver, receiver? = some receiver →
      receiver.balance.natAbs ≤ maxSafeInteger ∧ Exact (receiver.balance + t.amount)) :
    transferWrites db t item sender receiver? = (do
      let senderNewBalance := sender.balance - t.amount
      if senderNewBalance < 0 then
        throw (.badRequest "Insufficient balance")
      let some toWallet := receiver?
        | throw .typeError
      let db := (db.setBalance sender.id senderNewBalance).setBalance toWallet.id
        (toWallet.balance + t.amount)
      let db ← db.saveLedgerEntry (debitEntry sender t)
      let db ← db.saveLedgerEntry (creditEntry toWallet t)
      let db ← (db.completeTransfer t.id).saveOutboxEvent item
      return ((), db)) := by
  simp only [transferWrites, number_eq hsender.1, number_eq hsender.2]
  by_cases hneg : sender.balance - t.amount < 0
  · simp only [hneg, if_true]
    rfl
  · simp only [hneg, if_false]
    cases receiver? with
    | none => rfl
    | some receiver =>
      obtain ⟨hbalance, hsum⟩ := hreceiver (by omega) receiver rfl
      simp only [number_eq hbalance, hsum.1, hsum.2, bigint_eq hsender.2, bigint_eq hamount]
      rfl

theorem executeTransfer_eq {t : Transfer} {fromWalletId toWalletId : String} {item : OutboxEvent}
    (hamount : t.amount.natAbs ≤ maxSafeInteger)
    (hsender : ∀ sender, db.findWallet fromWalletId = some sender →
      sender.balance.natAbs ≤ maxSafeInteger ∧ (sender.balance - t.amount).natAbs ≤ maxSafeInteger)
    (hreceiver : ∀ sender, db.findWallet fromWalletId = some sender → t.amount ≤ sender.balance →
      ∀ receiver, db.findWallet toWalletId = some receiver →
        receiver.balance.natAbs ≤ maxSafeInteger ∧ Exact (receiver.balance + t.amount)) :
    executeTransfer db t fromWalletId toWalletId item =
      db.executeTransfer t fromWalletId toWalletId item := by
  unfold executeTransfer Store.executeTransfer
  by_cases hlt : fromWalletId < toWalletId
  · -- the sender's row is locked first
    have hne : fromWalletId ≠ toWalletId := fun h => String.lt_irrefl _ (h ▸ hlt)
    simp only [hlt, if_true]
    cases hfirst : db.findWallet fromWalletId with
    | none => rfl
    | some sender =>
      obtain ⟨-, rfl⟩ := findWallet_eq_some.mp hfirst
      simp only [if_true, hne, if_false]
      exact transferWrites_eq hamount (hsender sender hfirst) (hreceiver sender hfirst)
  · simp only [hlt, if_false]
    cases hfirst : db.findWallet toWalletId with
    | none => rfl
    | some receiver =>
      obtain ⟨-, rfl⟩ := findWallet_eq_some.mp hfirst
      simp only [if_true]
      cases hsecond : (if receiver.id = fromWalletId then some receiver
          else db.findWallet fromWalletId) with
      | none => rfl
      | some sender =>
        -- a transfer within one wallet finds the same row twice
        have hfound : db.findWallet fromWalletId = some sender := by
          split at hsecond
          · rename_i h
            rw [← h, hfirst, hsecond]
          · exact hsecond
        refine transferWrites_eq hamount (hsender sender hfound) fun henough receiver' heq => ?_
        exact hreceiver sender hfound henough receiver' (hfirst.trans heq)

theorem payload_deposit (name : DomainEventName) (walletId userId : String) (amount : ℤ)
    (currency : String) (userEmail : Option String) (now : ℕ) :
    payload (buildOutboxPayload name walletId userId amount currency userEmail now) =
      buildOutboxPayload name walletId userId (number amount) currency userEmail now := by
  cases userEmail <;> rfl

/-- A settlement whose sum is exact. -/
theorem perform_settle {walletId type walletId' userId currency} {t : Transaction} {name : DomainEventName}
    {userEmail : Option String} {now i : ℕ} {ω : Choice} {w : World} (hamount : t.amount.natAbs ≤ maxSafeInteger)
    (hsum : ∀ wallet, w.db.findWallet walletId = some wallet →
      wallet.balance.natAbs ≤ maxSafeInteger ∧ (wallet.balance + t.amount).natAbs ≤ maxSafeInteger) :
    perform i (.settleTransaction walletId t type t.amount
        (buildOutboxPayload name walletId' userId t.amount currency userEmail now)) ω w =
      LiorParisWallet.perform i (.settleTransaction walletId t type t.amount
        (buildOutboxPayload name walletId' userId t.amount currency userEmail now)) ω w := by
  simp only [perform, LiorParisWallet.perform, payload_deposit, number_eq hamount]
  rw [settleTransaction_eq hsum]

theorem payload_transfer (transferId fromUserId toUserId : String) (amount : ℤ)
    (currency fromUserEmail : String) (fromUserName : Option String) (toUser : Option Users) (now : ℕ) :
    payload (transferOutboxPayload transferId fromUserId toUserId amount currency fromUserEmail
      fromUserName toUser now) = transferOutboxPayload transferId fromUserId toUserId (number amount)
      currency fromUserEmail fromUserName toUser now := by
  cases toUser <;> rfl

end

end Numbers

/-! ## Runs -/

/-- No amount that is stored, and no balance that a credit leads to, leaves the range. -/
def Op.InRange (w : World) : Op → Prop
  | .createTransaction data => data.amount ≤ maxSafeInteger
  | .createTransfer data => data.amount ≤ maxSafeInteger
  | .settleTransaction walletId _ _ balanceChange _ =>
      ∀ a ∈ w.db.wallets.rows, a.id = walletId → balanceChange ≤ maxSafeInteger - a.balance
  | .executeTransfer t fromWalletId toWalletId _ =>
      ∀ a ∈ w.db.wallets.rows, a.id = fromWalletId → t.amount ≤ a.balance →
        ∀ b ∈ w.db.wallets.rows, b.id = toWalletId → t.amount ≤ maxSafeInteger - b.balance
  | _ => True

instance (w : World) : ∀ o : Op, Decidable (o.InRange w) := by
  intro o
  unfold Op.InRange
  split <;> infer_instance

def InRange (s : State) : Label Request Choice → Prop
  | .start _ => True
  | .step i _ => ∀ o ∈ s.awaits i, o.InRange s.world

instance (s : State) (l : Label Request Choice) : Decidable (InRange s l) :=
  match l with
  | .start _ => .isTrue trivial
  | .step i _ => inferInstanceAs (Decidable (∀ o ∈ s.awaits i, o.InRange s.world))

/-- The sums and differences that an operation computes. -/
def Op.computes (db : Store) : Op → List ℤ
  | .settleTransaction walletId _ _ balanceChange _ =>
      (db.findWallet walletId).toList.map fun wallet => wallet.balance + balanceChange
  | .executeTransfer t fromWalletId toWalletId _ =>
      (db.findWallet fromWalletId).toList.flatMap fun fromWallet =>
        (fromWallet.balance - t.amount) ::
          if fromWallet.balance - t.amount < 0 then []
          else (db.findWallet toWalletId).toList.map fun toWallet => toWallet.balance + t.amount
  | _ => []

/-- Everything stored is in the range. -/
structure World.Bounded (w : World) : Prop where
  wallets : ∀ a ∈ w.db.wallets, a.balance ≤ maxSafeInteger
  transactions : ∀ t ∈ w.db.transactions, t.amount ≤ maxSafeInteger
  transfers : ∀ t ∈ w.db.transfers, t.amount ≤ maxSafeInteger
  ledger : ∀ e ∈ w.db.ledger, e.amount ≤ maxSafeInteger ∧ e.balanceAfter ≤ maxSafeInteger

section

variable {w w' : World} {i : ℕ} {req : Request} {o : Op}

theorem bounded_initial (hw : w.Initial) : w.Bounded where
  wallets a ha := absurd (hw.wallets ▸ ha) (Table.not_mem_empty a)
  transactions t ht := absurd (hw.transactions ▸ ht) (Table.not_mem_empty t)
  transfers t ht := absurd (hw.transfers ▸ ht) (Table.not_mem_empty t)
  ledger e he := absurd (hw.ledger ▸ he) (Table.not_mem_empty e)

/-- A transaction that a call knows has the amount of a stored one. -/
theorem World.Knows.amount_le {t : Transaction} (h : w.Knows t) (hb : w.Bounded) :
    t.amount ≤ maxSafeInteger := by
  obtain ⟨t', ht', hcore, -⟩ := h
  rw [← Transaction.core_amount hcore]
  exact hb.transactions t' ht'

theorem bounded_step (hinv : w.Inv) (hpre : Guarantee req i o w) (hrange : o.InRange w) (he : Effect i w o w')
    (h : w.Bounded) : w'.Bounded := by
  cases he with
  | @saveWallet data _ _ fresh user inserted =>
    refine { h with wallets := fun a ha => ?_ }
    rcases (Table.mem_insert? inserted).mp ha with ha | rfl
    · exact h.wallets a ha
    · -- a new wallet is empty
      have hzero : data.balance = 0 := hpre
      simp [WalletData.create, hzero]
  | createTransaction fresh inserted =>
    refine { h with transactions := fun t ht => ?_ }
    rcases (Table.mem_insert? inserted).mp ht with ht | rfl
    · exact h.transactions t ht
    · exact hrange
  | updateTransactionProviderRef id ref =>
    refine { h with transactions := fun t ht => ?_ }
    obtain ⟨t', ht', rfl⟩ := mem_updateTransactionProviderRef.mp ht
    split <;> exact h.transactions t' ht'
  | failTransaction t₀ reason =>
    refine { h with transactions := fun t ht => ?_ }
    obtain ⟨t', ht', rfl⟩ := mem_failTransaction.mp ht
    split <;> exact h.transactions t' ht'
  | settleTransaction fresh wallet_mem enough entry event =>
    have hsum := hrange _ wallet_mem rfl
    exact {
      wallets := forall_setBalance h.wallets fun _ _ => by
        show _ + _ ≤ _
        omega
      transactions := fun t ht => by
        obtain ⟨t', ht', rfl⟩ := mem_completeTransaction.mp ht
        split <;> exact h.transactions t' ht'
      transfers := h.transfers
      ledger := fun e he => by
        rcases (Table.mem_insert? entry).mp he with he | rfl
        · exact h.ledger e he
        · refine ⟨hpre.known.amount_le h, ?_⟩
          show _ + _ ≤ _
          omega }
  | createTransfer fresh inserted =>
    refine { h with transfers := fun t ht => ?_ }
    rcases (Table.mem_insert? inserted).mp ht with ht | rfl
    · exact h.transfers t ht
    · exact hrange
  | executeTransfer fresh sender_mem receiver_mem enough debit credit event =>
    have hsum := hrange _ sender_mem rfl (by omega) _ receiver_mem rfl
    have hamount := h.transfers _ hpre.stored
    have hmin := hinv.transfers.amount_min _ hpre.stored
    have hsender := h.wallets _ sender_mem
    exact {
      wallets := by
        -- the debit leads to less than the sender had, the credit to no more than is allowed
        refine forall_setBalance (forall_setBalance h.wallets fun _ _ => ?_) fun _ _ => ?_
        · show _ - _ ≤ _
          omega
        · show _ + _ ≤ _
          omega
      transactions := h.transactions
      transfers := fun t ht => by
        obtain ⟨t', ht', rfl⟩ := mem_completeTransfer.mp ht
        split <;> exact h.transfers t' ht'
      ledger := fun e he => by
        rcases (Table.mem_insert? credit).mp he with he | rfl
        · rcases (Table.mem_insert? debit).mp he with he | rfl
          · exact h.ledger e he
          · refine ⟨hamount, ?_⟩
            show _ - _ ≤ _
            omega
        · refine ⟨hamount, ?_⟩
          show _ + _ ≤ _
          omega }
  | deleteUser id =>
    exact { h with wallets := fun a ha => h.wallets a (Table.mem_delete.mp ha).1 }
  | _ => exact { h with }

theorem bounded (h : ReachableBy registry InRange s) : s.world.Bounded :=
  h.induction World.Bounded (fun _ => bounded_initial)
    fun _ _ _ _ _ _ hinv hallowed _ hawaits hpre he hb =>
      bounded_step hinv hpre (hallowed _ hawaits) he hb

/-- A stored balance, as `Number(wallet.balance)` reads it. -/
theorem natAbs_le_of_positive {x : ℤ} (hmin : 1 ≤ x) (hmax : x ≤ maxSafeInteger) :
    x.natAbs ≤ maxSafeInteger := by
  omega

theorem balance_natAbs (hinv : w.Inv) (hb : w.Bounded) {a : Wallet} (ha : a ∈ w.db.wallets) :
    0 ≤ a.balance ∧ a.balance.natAbs ≤ maxSafeInteger := by
  have hnn := (hinv.replays a ha).closing_nonneg le_rfl
  have hle := hb.wallets a ha
  exact ⟨hnn, by omega⟩

theorem settle_natAbs (hinv : w.Inv) (hb : w.Bounded) {walletId : String} {t : Transaction}
    {type : LedgerEntryType} {change : ℤ} {data : OutboxData} (hpre : w.MaySettle walletId t type change data)
    (hrange : (Op.settleTransaction walletId t type change data).InRange w) : t.amount.natAbs ≤ maxSafeInteger ∧
      ∀ a, w.db.findWallet walletId = some a →
        a.balance.natAbs ≤ maxSafeInteger ∧ (a.balance + change).natAbs ≤ maxSafeInteger := by
  obtain ⟨t', ht', hcore, -⟩ := hpre.known
  have hmin := hinv.deposits.amount_min t' ht'
  rw [Transaction.core_amount hcore] at hmin
  have hmax := hpre.known.amount_le hb
  refine ⟨by omega, fun a ha => ?_⟩
  obtain ⟨hmem, hid⟩ := findWallet_eq_some.mp ha
  obtain ⟨hnn, hbalance⟩ := balance_natAbs hinv hb hmem
  have hsum : change ≤ maxSafeInteger - a.balance := hrange a hmem hid
  have hchange := hpre.change
  exact ⟨hbalance, by omega⟩

theorem transfer_natAbs (hinv : w.Inv) (hb : w.Bounded) {fromWalletId toWalletId : String} {t : Transfer}
    {data : OutboxData} (hpre : w.MayTransfer i t fromWalletId toWalletId data)
    (hrange : (Op.executeTransfer t fromWalletId toWalletId data).InRange w) :
    t.amount.natAbs ≤ maxSafeInteger ∧ ∀ a, w.db.findWallet fromWalletId = some a →
      (a.balance.natAbs ≤ maxSafeInteger ∧ (a.balance - t.amount).natAbs ≤ maxSafeInteger) ∧
        (t.amount ≤ a.balance → ∀ b, w.db.findWallet toWalletId = some b →
          b.balance.natAbs ≤ maxSafeInteger ∧ (b.balance + t.amount).natAbs ≤ maxSafeInteger) := by
  have hmin := hinv.transfers.amount_min t hpre.stored
  have hmax := hb.transfers t hpre.stored
  refine ⟨by omega, fun a ha => ?_⟩
  obtain ⟨hmem, hid⟩ := findWallet_eq_some.mp ha
  obtain ⟨hnn, hbalance⟩ := balance_natAbs hinv hb hmem
  refine ⟨⟨hbalance, by omega⟩, fun henough b hb' => ?_⟩
  obtain ⟨hmem', hid'⟩ := findWallet_eq_some.mp hb'
  obtain ⟨hnn', hbalance'⟩ := balance_natAbs hinv hb hmem'
  have hsum : t.amount ≤ maxSafeInteger - b.balance := hrange a hmem hid henough b hmem' hid'
  exact ⟨hbalance', by omega⟩

/-- What an operation computes is in the range. -/
theorem computes_natAbs (hinv : w.Inv) (hb : w.Bounded) (hpre : Guarantee req i o w)
    (hrange : o.InRange w) : ∀ x ∈ o.computes w.db, x.natAbs ≤ maxSafeInteger := by
  cases o with
  | settleTransaction walletId t type change data =>
    intro x hx
    simp only [Op.computes, List.mem_map, Option.mem_toList] at hx
    obtain ⟨a, ha, rfl⟩ := hx
    exact ((settle_natAbs hinv hb hpre hrange).2 a ha).2
  | executeTransfer t fromWalletId toWalletId data =>
    intro x hx
    simp only [Op.computes, List.mem_flatMap, Option.mem_toList, List.mem_cons] at hx
    obtain ⟨a, ha, hx⟩ := hx
    obtain ⟨hsender, hreceiver⟩ := (transfer_natAbs hinv hb hpre hrange).2 a ha
    rcases hx with rfl | hx
    · exact hsender.2
    · split at hx
      · cases hx
      · simp only [List.mem_map, Option.mem_toList] at hx
        obtain ⟨b, hb', rfl⟩ := hx
        exact (hreceiver (by omega) b hb').2
  | _ => simp [Op.computes]

/-- In the range the program computes with integers. -/
theorem perform_numbers (hinv : w.Inv) (hb : w.Bounded) (hpre : Guarantee req i o w)
    (hrange : o.InRange w) (ω : Choice) : Numbers.perform i o ω w = perform i o ω w := by
  cases o with
  | createTransaction data =>
    obtain ⟨userId, input, -, rfl⟩ := hpre
    have hamount : input.amount.natAbs ≤ maxSafeInteger := natAbs_le_of_positive input.amount_min hrange
    simp only [Numbers.perform, perform, number_eq hamount]
    rw [Numbers.createTransaction_eq hamount]
  | processDeposit amount currency paymentMethod transactionId userId =>
    obtain ⟨t, hown, -, -, rfl, -⟩ := hpre
    have hmin := hinv.deposits.amount_min t hown.stored
    have hmax := hb.transactions t hown.stored
    rw [Numbers.perform, number_eq (by omega)]
  | settleTransaction walletId t type change data =>
    obtain ⟨hamount, hsum⟩ := settle_natAbs hinv hb hpre hrange
    -- the amount of the payload is the one that is credited
    obtain ⟨userEmail, now, rfl⟩ := hpre.payload
    obtain rfl := hpre.change
    exact Numbers.perform_settle hamount hsum
  | createTransfer data =>
    obtain ⟨fromUserId, fromUserEmail, input, toUserId, -, -, rfl⟩ := hpre
    have hamount : input.amount.natAbs ≤ maxSafeInteger := natAbs_le_of_positive input.amount_min hrange
    simp only [Numbers.perform, perform, number_eq hamount]
    rw [Numbers.createTransfer_eq hamount]
  | executeTransfer t fromWalletId toWalletId data =>
    obtain ⟨hamount, hsums⟩ := transfer_natAbs hinv hb hpre hrange
    obtain ⟨fromUserEmail, fromUserName, toUser, now, rfl⟩ := hpre.payload
    simp only [Numbers.perform, perform, Numbers.payload_transfer, number_eq hamount]
    rw [Numbers.executeTransfer_eq hamount (fun a ha => (hsums a ha).1) fun a ha henough b hb' =>
      ((hsums a ha).2 henough b hb').imp_right Numbers.exact_of_le]
  | _ => rfl

/-- Whatever a call awaits, it has its guarantee. -/
theorem Reachable.guarantee (h : Reachable registry s) (ho : s.awaits i = some o) :
    ∃ req, Guarantee req i o s.world := by
  obtain ⟨c, hc, hnext⟩ := Option.bind_eq_some_iff.mp ho
  exact ⟨c.request, (h.sound.tracks i (List.getElem?_eq_some_iff.mp hc).1).awaited h.sound.inv hc hnext⟩

/-- In the range the next operation computes nothing but exact results. -/
theorem exact_in_range {ω : Choice} (h : ReachableBy registry InRange s) (hrange : InRange s (.step i ω))
    (ho : s.awaits i = some o) : (∀ x ∈ o.computes s.world.db, x.natAbs ≤ maxSafeInteger) ∧
      Numbers.perform i o ω s.world = perform i o ω s.world := by
  have hinv := h.reachable.inv
  obtain ⟨req, hpre⟩ := h.reachable.guarantee ho
  exact ⟨computes_natAbs hinv (bounded h) hpre (hrange o ho),
    perform_numbers hinv (bounded h) hpre (hrange o ho) ω⟩

/-- A run whose steps are all in the range is one of the server that computes with integers. -/
theorem reaches_of_numbers (hrange : ∀ s l, allowed s l → InRange s l) (hs : ReachableBy registry allowed s)
    (hr : (Numbers.server registry).Reaches allowed s s') : (server registry).Reaches allowed s s' := by
  obtain ⟨w, hw, hr₀⟩ := hs
  -- step by step the two servers agree
  refine Server.Reaches.of_agree (show (Numbers.server registry).serve = (server registry).serve from rfl)
    (fun s₁ i ω o hr₁ hallowed ho => ?_) hr
  have hs₁ : ReachableBy registry InRange s₁ := ⟨w, hw, (hr₀.trans hr₁).mono hrange⟩
  exact (exact_in_range hs₁ (hrange _ _ hallowed) ho).2

theorem Numbers.ReachableBy.integers (hrange : ∀ s l, allowed s l → InRange s l)
    (h : Numbers.ReachableBy registry allowed s) : LiorParisWallet.ReachableBy registry allowed s := by
  obtain ⟨w, hw, hr⟩ := h
  exact ⟨w, hw, reaches_of_numbers hrange ⟨w, hw, .refl⟩ hr⟩

/-- As long as no amount that is stored, and no balance that a credit leads to, leaves the range: every
    state of the program is one of the server that computes with integers, everything stored is in the
    range, the entries replay to the balances, and the next operation computes nothing but exact results
    in the range. -/
theorem arithmetic_exact (h : Numbers.ReachableBy registry InRange s) :
    Reachable registry s ∧ s.world.Bounded ∧ Replays s.world.db.wallets s.world.db.ledger.rows ∧
      ∀ i ω o, InRange s (.step i ω) → s.awaits i = some o →
        (∀ x ∈ o.computes s.world.db, x.natAbs ≤ maxSafeInteger) ∧
        Numbers.perform i o ω s.world = perform i o ω s.world := by
  have hs : ReachableBy registry InRange s := h.integers fun _ _ => id
  exact ⟨hs.reachable, bounded hs, hs.reachable.inv.replays, fun _ _ _ => exact_in_range hs⟩

end

theorem arithmetic_exact_everyday : ∃ s : State, Numbers.ReachableBy cardPayments InRange s ∧
    s.world.db.wallets.rows.map (·.balance) = [30, 20] ∧ s.world.Bounded := by
  have hrun : ((Numbers.server cardPayments).runUnder InRange everyday ⟨World.fresh adaAndBob, []⟩).map
      (fun s => s.world.db.wallets.rows.map (·.balance)) = some [30, 20] := by
    decide +kernel
  obtain ⟨s, hs, hbalances⟩ := Option.map_eq_some_iff.mp hrun
  have hreach : Numbers.ReachableBy cardPayments InRange s :=
    ⟨_, World.fresh_initial adaAndBob, Server.reaches_of_runUnder hs⟩
  exact ⟨s, hreach, hbalances, (arithmetic_exact hreach).2.1⟩

/-- The largest amount that a double has exactly. -/
def fortune : DepositDto := euros 9007199254740991 (by decide) "fortune" (by decide)

def tip : DepositDto := euros 2 (by decide) "tip" (by decide)

/-- Ada pays in her fortune, and two cents after it. -/
def twoCentsMore : List (Label Request Choice) :=
  openWallet 0 "u1" "Ada" "w1" ++ payIn 1 "u1" fortune "t1" "cs1" ++ settle 2 "cs1" "e1" ++
    payIn 3 "u1" tip "t2" "cs2" ++ settle 4 "cs2" "e2"

/-- The balance has left the range, and one of the two cents is lost. -/
theorem two_cents_more_loses_one : ∃ s : State, Numbers.ReachableBy cardPayments Server.Any s ∧
    ¬ s.world.Bounded ∧ ¬ Replays s.world.db.wallets s.world.db.ledger.rows := by
  have hrun : ((Numbers.server cardPayments).run twoCentsMore ⟨World.fresh adaAndBob, []⟩).map
      (fun s => (s.world.db.wallets.rows, s.world.db.ledger.rows)) =
      some ([⟨"w1", "u1", 9007199254740992, "EUR", "ada-0000"⟩],
        [⟨"w1", .deposit, 9007199254740991, "EUR", 9007199254740991, "fortune"⟩,
          ⟨"w1", .deposit, 2, "EUR", 9007199254740992, "tip"⟩]) := by
    decide +kernel
  obtain ⟨s, hs, hrows⟩ := Option.map_eq_some_iff.mp hrun
  simp only [Prod.mk.injEq] at hrows
  obtain ⟨hwallets, hledger⟩ := hrows
  have ha : (⟨"w1", "u1", 9007199254740992, "EUR", "ada-0000"⟩ : Wallet) ∈ s.world.db.wallets := by
    simp [Table.mem_def, hwallets]
  refine ⟨s, ⟨_, World.fresh_initial adaAndBob, Server.reaches_of_run hs⟩, fun hb => ?_, fun h => ?_⟩
  · exact absurd (hb.wallets _ ha) (by decide)
  · have hsum := (h _ ha).closing_eq
    rw [hledger] at hsum
    exact absurd hsum (by decide)

end LiorParisWallet
