import LiorParisWallet.Money.Collisions
import LiorParisWallet.Money.Columns

/-!
# The exact effect of a transfer

`initiateTransfer`, run alone on a store that was reached in the range, moves the money exactly if seven
conditions hold of the store and the input; and then it changes nothing else than it should.  That is so as
long as the ledger keys fit their column and the receiver's new balance is a double.
-/

namespace LiorParisWallet

open Async Relational Numeric

/-- The two wallets of a transfer that can be made. -/
structure Parties (w : World) (fromUserId : String) (input : InitiateTransferDto)
    (sender receiver : Wallet) : Prop where
  tagged : w.db.findByWalletTag input.toWalletTag = some receiver
  currency : receiver.currency = input.currency.value
  other : fromUserId ≠ receiver.userId
  newKey : w.db.findTransferByIdempotencyKey input.idempotencyKey = none
  owned : w.db.findByUserIdAndCurrency fromUserId input.currency.value = some sender
  enough : input.amount ≤ sender.balance
  ledgerKeys : ∀ e ∈ w.db.ledger, e.idempotencyKey ≠ input.idempotencyKey ++ ":out" ∧
    e.idempotencyKey ≠ input.idempotencyKey ++ ":in"

def Transferable (w : World) (fromUserId : String) (input : InitiateTransferDto) : Prop :=
  ∃ sender receiver, Parties w fromUserId input sender receiver

/-- The keys of the two entries fit their column, and the receiver's new balance is a double. -/
def Writable (input : InitiateTransferDto) (receiver : Wallet) : Prop :=
  input.idempotencyKey.length ≤ 251 ∧ number (receiver.balance + input.amount) = receiver.balance + input.amount

/-- Some balance has changed. -/
def MovesMoney (w w' : World) : Prop :=
  ∃ a ∈ w.db.wallets, ∃ a' ∈ w'.db.wallets, a'.id = a.id ∧ a'.balance ≠ a.balance

/-- A balance after the transfer. -/
def Wallet.after (a sender receiver : Wallet) (amount : ℤ) : Wallet :=
  if a = sender then { a with balance := a.balance - amount }
  else if a = receiver then { a with balance := a.balance + amount }
  else a

/-- The transfer `t` has been made, `event` announces it, and nothing else has changed. -/
structure Moved (fromUserId fromUserEmail : String) (input : InitiateTransferDto)
    (sender receiver : Wallet) (t : Transfer) (event : OutboxEvent) (w w' : World) : Prop where
  transfer : t.Carries fromUserId receiver.userId input
  payload : ∃ id now createdAt, event = (transferOutboxPayload t.id fromUserId receiver.userId
    input.amount input.currency.value fromUserEmail ((w.db.findUserById fromUserId).map (·.name))
    (w.db.findUserById receiver.userId) now).create id createdAt
  wallets : w'.db.wallets.rows = w.db.wallets.rows.map (·.after sender receiver input.amount)
  transfers : w'.db.transfers.rows = w.db.transfers.rows ++ [t]
  ledger : w'.db.ledger.rows = w.db.ledger.rows ++ [debitEntry sender t, creditEntry receiver t]
  outbox : w'.db.outbox.rows = w.db.outbox.rows ++ [event]
  users : w'.db.users = w.db.users
  transactions : w'.db.transactions = w.db.transactions
  payments : w'.payments = w.payments
  cache : w'.cache = w.cache.filter fun entry =>
    entry.1 != balanceCacheKey fromUserId input.currency.value &&
      entry.1 != balanceCacheKey receiver.userId input.currency.value

/-- No money was moved, and nothing says that it was. -/
structure Unmoved (w w' : World) : Prop where
  wallets : w'.db.wallets = w.db.wallets
  ledger : w'.db.ledger = w.db.ledger
  outbox : w'.db.outbox = w.db.outbox

/-- What a call does, if it can be made and if it cannot. -/
structure TransferEffect (fromUserId fromUserEmail : String) (input : InitiateTransferDto) (w : World)
    (r : Except Err Unit) (w' : World) : Prop where
  moved : ∀ sender receiver, Parties w fromUserId input sender receiver →
    r = .ok () ∧ ∃ t event, Moved fromUserId fromUserEmail input sender receiver t event w w'
  unmoved : ¬ Transferable w fromUserId input → Unmoved w w'

section

variable {fromUserId fromUserEmail : String} {input : InitiateTransferDto} {w w' : World} {i : ℕ}
variable {sender receiver : Wallet} {r : Except Err Unit}

theorem Unmoved.refl (w : World) : Unmoved w w := ⟨rfl, rfl, rfl⟩

/-- There is one pair of parties at most. -/
theorem Parties.unique (h : Parties w fromUserId input sender receiver) {sender' receiver' : Wallet}
    (h' : Parties w fromUserId input sender' receiver') : sender' = sender ∧ receiver' = receiver :=
  ⟨Option.some.inj (h'.owned.symm.trans h.owned), Option.some.inj (h'.tagged.symm.trans h.tagged)⟩

/-- The wallets that the two lookups find are two wallets. -/
theorem lookups_mem (htag : w.db.findByWalletTag input.toWalletTag = some receiver)
    (howned : w.db.findByUserIdAndCurrency fromUserId input.currency.value = some sender)
    (hother : fromUserId ≠ receiver.userId) :
    sender ∈ w.db.wallets ∧ receiver ∈ w.db.wallets ∧ sender.id ≠ receiver.id := by
  obtain ⟨hsender, huser⟩ := Table.mem_of_find? howned
  have hreceiver := (Table.mem_of_find? htag).1
  simp only [Bool.and_eq_true, beq_iff_eq] at huser
  refine ⟨hsender, hreceiver, fun hid => hother ?_⟩
  rw [← huser.1, Wallet.eq_of_id hsender hreceiver hid]

/-- The two balances are written one after the other, to two different rows. -/
theorem rows_after (hsender : sender ∈ w.db.wallets) (hreceiver : receiver ∈ w.db.wallets)
    (hne : sender.id ≠ receiver.id) (amount : ℤ) :
    ((w.db.setBalance sender.id (sender.balance - amount)).setBalance receiver.id
      (receiver.balance + amount)).wallets.rows =
      w.db.wallets.rows.map (·.after sender receiver amount) := by
  simp only [Store.setBalance, Table.update, List.map_map]
  refine List.map_congr_left fun a ha => ?_
  simp only [Function.comp_apply, Wallet.after, beq_iff_eq]
  by_cases hs : a = sender
  · subst hs
    simp only [if_true, if_neg hne]
  · have hid : a.id ≠ sender.id := fun hid => hs (Wallet.eq_of_id ha hsender hid)
    simp only [hs, hid, if_false]
    by_cases hr : a = receiver
    · subst hr
      simp only [if_true]
    · have hid' : a.id ≠ receiver.id := fun hid => hr (Wallet.eq_of_id ha hreceiver hid)
      simp only [hr, hid', if_false]

/-- A transfer between two stored wallets is refused for want of money, or because of the ledger keys. -/
theorem executeTransfer_isOk_iff (db : Store) (hsender : sender ∈ db.wallets)
    (hreceiver : receiver ∈ db.wallets) {t : Transfer} {item : OutboxEvent}
    (hitem : ∀ ev ∈ db.outbox, ev.id ≠ item.id) :
    (∃ db', db.executeTransfer t sender.id receiver.id item = .ok ((), db')) ↔
      t.amount ≤ sender.balance ∧ ∀ e ∈ db.ledger,
        e.idempotencyKey ≠ t.idempotencyKey ++ ":out" ∧ e.idempotencyKey ≠ t.idempotencyKey ++ ":in" := by
  simp only [executeTransfer_eq_ok, findWallet_eq_some.mpr ⟨hsender, rfl⟩,
    findWallet_eq_some.mpr ⟨hreceiver, rfl⟩, Option.some.injEq]
  constructor
  · rintro ⟨db', _, _, rfl, rfl, henough, ledger₁, ledger, outbox, hdebit, hcredit, -⟩
    refine ⟨by omega, fun e he => ⟨?_, ?_⟩⟩
    · exact ledger_insert_isSome.mp ⟨ledger₁, hdebit⟩ e he
    · exact ledger_insert_isSome.mp ⟨ledger, hcredit⟩ e ((Table.mem_insert? hdebit).mpr (.inl he))
  · rintro ⟨henough, hkeys⟩
    obtain ⟨ledger₁, hdebit⟩ := ledger_insert_isSome (e := debitEntry sender t) |>.mpr
      fun e he => (hkeys e he).1
    obtain ⟨ledger, hcredit⟩ := ledger_insert_isSome (e := creditEntry receiver t) |>.mpr fun e he => by
      rcases (Table.mem_insert? hdebit).mp he with he | rfl
      · exact (hkeys e he).2
      · exact out_ne_in t.idempotencyKey t.idempotencyKey
    obtain ⟨outbox, houtbox⟩ := Option.isSome_iff_exists.mp
      (Table.insert?_isSome.mpr fun ev hev => beq_false_of_ne (hitem ev hev))
    exact ⟨_, sender, receiver, rfl, rfl, by omega, ledger₁, ledger, outbox, hdebit, hcredit, houtbox, rfl⟩

/-- The row of a new transfer is never refused. -/
theorem createTransfer_isOk (hids : w.Ids) {t : Transfer} (hid : t.id ∉ w.issuedIds)
    (hkey : w.db.findTransferByIdempotencyKey t.idempotencyKey = none) :
    ∃ transfers, w.db.transfers.insert? t = some transfers ∧
      w.db.createTransfer t = .ok (t, { w.db with transfers := transfers }) := by
  have hfree : ∀ a ∈ w.db.transfers, Entity.clash a t = false := by
    intro a ha
    have hkey : (a.idempotencyKey == t.idempotencyKey) = false := Table.find?_eq_none.mp hkey a ha
    have hne : a.id ≠ t.id := fun heq => hid (heq ▸ hids.transfers a ha)
    simp only [Entity.clash, hkey, Bool.or_false, beq_eq_false_iff_ne]
    exact hne
  obtain ⟨transfers, hinsert⟩ := Option.isSome_iff_exists.mp (Table.insert?_isSome.mpr hfree)
  exact ⟨transfers, hinsert, by rw [Store.createTransfer, insertInto_eq_ok.mpr hinsert]; rfl⟩

/-! ## What the doubles do -/

theorem numbers_created {db db' : Store} {t t' : Transfer} (h : Numbers.createTransfer db t = .ok (t', db')) :
    t' = t ∧ ∃ transfers, db' = { db with transfers := transfers } := by
  obtain ⟨amount, -, h⟩ := bind_eq_ok.mp h
  obtain ⟨⟨t₁, db₁⟩, hcreate, h⟩ := bind_eq_ok.mp h
  obtain ⟨-, transfers, -, rfl⟩ := createTransfer_eq_ok hcreate
  cases h
  exact ⟨rfl, transfers, rfl⟩

/-- Whichever wallet is locked first, the one is debited and the other credited. -/
theorem numbers_executeTransfer {db : Store} (hsender : sender ∈ db.wallets) (hreceiver : receiver ∈ db.wallets)
    (hne : sender.id ≠ receiver.id) {t : Transfer} {item : OutboxEvent} :
    Numbers.executeTransfer db t sender.id receiver.id item =
      Numbers.transferWrites db t item sender (some receiver) := by
  have hs := findWallet_eq_some.mpr ⟨hsender, rfl⟩
  have hr := findWallet_eq_some.mpr ⟨hreceiver, rfl⟩
  unfold Numbers.executeTransfer
  by_cases hlt : sender.id < receiver.id
  · simp only [hlt, if_true, hs, hr, hne, if_false]
  · simp only [hlt, if_false, hs, hr, hne.symm, if_true]

/-- What a transaction that commits has checked and written, whatever the sums are. -/
theorem numbers_transferred {db db' : Store} {t : Transfer} {item : OutboxEvent}
    (h : Numbers.executeTransfer db t sender.id receiver.id item = .ok ((), db')) (hsender : sender ∈ db.wallets)
    (hreceiver : receiver ∈ db.wallets) (hne : sender.id ≠ receiver.id) :
    0 ≤ number (number sender.balance - t.amount) ∧
    (∀ e ∈ db.ledger, e.idempotencyKey ≠ t.idempotencyKey ++ ":out" ∧
      e.idempotencyKey ≠ t.idempotencyKey ++ ":in") ∧
    ∃ x y, Numbers.bigint (number (number receiver.balance + t.amount)) = .ok y ∧
      db'.wallets = ((db.setBalance sender.id x).setBalance receiver.id y).wallets := by
  rw [numbers_executeTransfer hsender hreceiver hne] at h
  unfold Numbers.transferWrites at h
  by_cases hneg : number (number sender.balance - t.amount) < 0
  · simp only [hneg, if_true] at h
    cases h
  · simp only [hneg, if_false] at h
    obtain ⟨x, -, h⟩ := bind_eq_ok.mp h
    obtain ⟨y, hy, h⟩ := bind_eq_ok.mp h
    obtain ⟨amount, -, h⟩ := bind_eq_ok.mp h
    obtain ⟨db₁, hsaved, h⟩ := bind_eq_ok.mp h
    obtain ⟨ledger₁, hdebit, rfl⟩ := saveLedgerEntry_eq_ok.mp hsaved
    obtain ⟨db₂, hsaved', h⟩ := bind_eq_ok.mp h
    obtain ⟨ledger, hcredit, rfl⟩ := saveLedgerEntry_eq_ok.mp hsaved'
    obtain ⟨db₃, hevent, h⟩ := bind_eq_ok.mp h
    obtain ⟨outbox, -, rfl⟩ := saveOutboxEvent_eq_ok.mp hevent
    cases h
    refine ⟨not_lt.mp hneg, fun e he => ⟨?_, ?_⟩, x, y, hy, rfl⟩
    · exact ledger_insert_isSome.mp ⟨ledger₁, hdebit⟩ e he
    · exact ledger_insert_isSome.mp ⟨ledger, hcredit⟩ e ((Table.mem_insert? hdebit).mpr (.inl he))

/-- A sum of two numbers in the range that is a double is also written as it is. -/
theorem exact_of_number {x : ℤ} (h₀ : 0 ≤ x) (h : x < 2 ^ 54 - 1) (hx : number x = x) : Numbers.Exact x := by
  have hdecimal := decimal_number h₀ h
  rw [hx] at hdecimal
  refine ⟨hx, ?_⟩
  rw [Numbers.bigint, hdecimal, if_pos (by omega)]
  rfl

theorem eq_number_of_bigint {x y : ℤ} (h₀ : 0 ≤ x) (h : x < 2 ^ 54 - 1)
    (hy : Numbers.bigint (number x) = .ok y) : y = number x := by
  rw [Numbers.bigint, decimal_number h₀ h] at hy
  split at hy
  · exact (Except.ok.inj hy).symm
  · cases hy

/-- Who has not enough has not enough in doubles. -/
theorem lt_number {x y : ℤ} (hx : 0 ≤ x) (hmax : x.natAbs ≤ maxSafeInteger) (h : x < y) : x < number y := by
  by_cases hy : y.natAbs ≤ maxSafeInteger
  · rwa [number_eq hy]
  · have hlt := maxSafeInteger_lt_nearestDouble (not_le.mp hy)
    rw [number, Int.sign_eq_one_of_pos (by omega), one_mul]
    omega

theorem fits_executeTransfer {t : Transfer} {fromWalletId toWalletId : String} {data : OutboxData} :
    (Op.executeTransfer t fromWalletId toWalletId data).Fits ↔ t.idempotencyKey.length ≤ 251 := by
  have hout : (t.idempotencyKey ++ ":out").length = t.idempotencyKey.length + 4 := String.length_append _ _
  have hin : (t.idempotencyKey ++ ":in").length = t.idempotencyKey.length + 3 := String.length_append _ _
  simp only [Op.Fits, Op.texts, List.forall_mem_cons, hout, hin, List.not_mem_nil, false_imp_iff,
    implies_true, and_true]
  omega

/-! ## The call -/

/-- Two keys are removed from the cache. -/
theorem wp_invalidate_both (userId userId' currency : String) (Q : Except Err (Unit × Unit) → World → Prop)
    (h : Q (.ok ((), ()))
      { w with
        cache := w.cache.filter fun entry => entry.1 != balanceCacheKey userId currency &&
          entry.1 != balanceCacheKey userId' currency }) :
    (Program.both (invalidateBalanceCache userId currency)
      (invalidateBalanceCache userId' currency)).wp (GetsThrough Columns.perform i) Eq Q w := by
  have hdelete : ∀ {key : String} {w : World} {ω : Choice}, Columns.perform i (.cacheDel key) ω w =
      w.write ω () { w with cache := w.cache.filter (·.1 != key) } := Columns.perform_of_no_text rfl
  refine Program.wp_both_alone (Program.wp_call_alone fun r w₁ ht => ?_)
  obtain ⟨rfl, rfl⟩ := faultless_write (fun _ => hdelete) ht
  refine Program.wp_call_alone fun r w₂ ht => ?_
  obtain ⟨rfl, rfl⟩ := faultless_write (fun _ => hdelete) ht
  simpa only [Program.joined, List.filter_filter, Bool.and_comm] using h

/-- The row of the transfer that a call creates. -/
def newTransfer (fromUserId : String) (input : InitiateTransferDto) (receiver : Wallet) : TransferData :=
  { fromUserId := fromUserId
    toUserId := receiver.userId
    amount := input.amount
    currency := input.currency.value
    idempotencyKey := input.idempotencyKey }

/-- The row of the transfer as the program has it, with the id `id`. -/
def numberedTransfer (fromUserId : String) (input : InitiateTransferDto) (receiver : Wallet) (id : String) :
    Transfer :=
  { newTransfer fromUserId input receiver with amount := number input.amount }.create id

/-- The event of the transfer as the program has it. -/
def numberedEvent (fromUserId fromUserEmail : String) (input : InitiateTransferDto) (receiver : Wallet)
    (w : World) (t : Transfer) (now : ℕ) (id : String) (createdAt : ℕ) : OutboxEvent :=
  (transferOutboxPayload t.id fromUserId receiver.userId (number input.amount) input.currency.value
    fromUserEmail ((w.db.findUserById fromUserId).map (·.name)) (w.db.findUserById receiver.userId)
    now).create id createdAt

/-- The rule for `moveMoney`: the row of the transfer is refused, or the transaction is, or both are
    committed and the cache is cleared. -/
theorem wp_moveMoney_of {Q : Except Err Unit → World → Prop}
    (hrefused : ∀ (ω : Choice) e, ω.uuid ∉ w.issuedIds →
      Columns.checked (.createTransfer (newTransfer fromUserId input receiver))
        (Numbers.createTransfer w.db (numberedTransfer fromUserId input receiver ω.uuid)) = .error e →
      Q (.error e) w)
    (hcreated : ∀ (ω : Choice) t db, ω.uuid ∉ w.issuedIds →
      Columns.checked (.createTransfer (newTransfer fromUserId input receiver))
        (Numbers.createTransfer w.db (numberedTransfer fromUserId input receiver ω.uuid)) = .ok (t, db) →
      ∀ data now (ω' : Choice), ω'.uuid ∉ ω.uuid :: w.issuedIds →
        (∀ e, Columns.checked (.executeTransfer t sender.id receiver.id data)
          (Numbers.executeTransfer db t sender.id receiver.id
            (numberedEvent fromUserId fromUserEmail input receiver w t now ω'.uuid ω'.now)) = .error e →
          Q (.error e) { w with db := db, issued := (ω.uuid, i) :: w.issued }) ∧
        ∀ db', Columns.checked (.executeTransfer t sender.id receiver.id data)
          (Numbers.executeTransfer db t sender.id receiver.id
            (numberedEvent fromUserId fromUserEmail input receiver w t now ω'.uuid ω'.now)) = .ok ((), db') →
          Q (.ok ())
            { w with
              db := db'
              issued := (ω'.uuid, i) :: (ω.uuid, i) :: w.issued
              cache := w.cache.filter fun entry =>
                entry.1 != balanceCacheKey fromUserId input.currency.value &&
                  entry.1 != balanceCacheKey receiver.userId input.currency.value }) :
    (moveMoney fromUserId fromUserEmail input sender receiver).wp (GetsThrough Columns.perform i) Eq Q w := by
  unfold moveMoney
  -- the two names are read
  refine Program.wp_bind (fun _ => rfl) (Program.wp_both_alone ?_)
  refine wp_read (fun _ => Columns.perform_of_no_text rfl) fun _ => ?_
  rintro _ rfl
  refine Program.wp_call_alone fun r w₁ ht => ?_
  obtain ⟨_, rfl, rfl⟩ := faultless_read (fun _ => Columns.perform_of_no_text rfl) ht
  -- the row of the transfer
  refine wp_insert (Columns.perform_insert fun _ => rfl) (fun ω t db hid hcreate => ?_) hrefused
  refine wp_read (fun _ => Columns.perform_of_no_text rfl) fun ω₁ => ?_
  -- the transaction that moves the money
  refine wp_insert (Columns.perform_insert fun _ => rfl) (fun ω₂ _ db' hid₂ hexecute => ?_)
    fun ω₂ e hid₂ hexecute => ?_
  · refine Program.wp_bind (fun _ => rfl) (wp_invalidate_both _ _ _ _ ?_)
    rintro _ rfl
    rw [Numbers.payload_transfer] at hexecute
    exact (hcreated ω t db hid hcreate _ _ ω₂ hid₂).2 db' hexecute
  · rw [Numbers.payload_transfer] at hexecute
    exact (hcreated ω t db hid hcreate _ _ ω₂ hid₂).1 e hexecute

/-- The sender has the money, and the keys of the two entries are free. -/
def Movable (w : World) (input : InitiateTransferDto) (sender : Wallet) : Prop :=
  input.amount ≤ sender.balance ∧ ∀ e ∈ w.db.ledger,
    e.idempotencyKey ≠ input.idempotencyKey ++ ":out" ∧ e.idempotencyKey ≠ input.idempotencyKey ++ ":in"

/-- What is known of two wallets that were found in the range. -/
structure Found (w : World) (sender receiver : Wallet) : Prop where
  ids : w.Ids
  sender_mem : sender ∈ w.db.wallets
  receiver_mem : receiver ∈ w.db.wallets
  ne : sender.id ≠ receiver.id
  sender_range : 0 ≤ sender.balance ∧ sender.balance.natAbs ≤ maxSafeInteger
  receiver_range : 0 ≤ receiver.balance ∧ receiver.balance.natAbs ≤ maxSafeInteger

theorem wp_moveMoney_refused (hfound : Found w sender receiver) (hnot : ¬ Movable w input sender) :
    (moveMoney fromUserId fromUserEmail input sender receiver).wp (GetsThrough Columns.perform i) Eq
      (fun _ w' => Unmoved w w') w := by
  refine wp_moveMoney_of (fun _ _ _ _ => .refl w) fun ω t db _ hcreate data now ω' _ => ?_
  obtain ⟨rfl, transfers, rfl⟩ := numbers_created (Columns.ok_of_checked hcreate)
  refine ⟨fun _ _ => ⟨rfl, rfl, rfl⟩, fun db' hexecute => ?_⟩
  -- a transaction that commits has found enough money and free keys
  obtain ⟨hnn, hkeys, -⟩ := numbers_transferred (Columns.ok_of_checked hexecute) hfound.sender_mem
    hfound.receiver_mem hfound.ne
  refine absurd ⟨?_, hkeys⟩ hnot
  by_contra hlt
  obtain ⟨hbalance, hmax⟩ := hfound.sender_range
  have hless := lt_number hbalance hmax (not_le.mp hlt)
  rw [number_eq hmax] at hnn
  exact absurd (number_neg (sub_neg.mpr hless)) (not_lt.mpr hnn)

/-- Two amounts in the range, and their sum. -/
theorem sum_lt {x y : ℤ} (hx : x.natAbs ≤ maxSafeInteger) (hy : y.natAbs ≤ maxSafeInteger) :
    x + y < 2 ^ 54 - 1 := by
  unfold maxSafeInteger at hx hy
  omega

theorem Found.amount_natAbs (hfound : Found w sender receiver) (hmovable : Movable w input sender) :
    input.amount.natAbs ≤ maxSafeInteger := by
  have hmin := input.amount_min
  have hmax := hfound.sender_range.2
  have henough := hmovable.1
  omega

theorem wp_moveMoney_spoiled (hfound : Found w sender receiver) (hmovable : Movable w input sender)
    (hnot : ¬ Writable input receiver) :
    (moveMoney fromUserId fromUserEmail input sender receiver).wp (GetsThrough Columns.perform i) Eq
      (fun r w' => ¬ (r = .ok () ∧
        ∃ t event, Moved fromUserId fromUserEmail input sender receiver t event w w')) w := by
  have hthrown : ∀ (e : Err) w', ¬ ((.error e : Except Err Unit) = .ok () ∧
      ∃ t event, Moved fromUserId fromUserEmail input sender receiver t event w w') := by
    rintro e w' ⟨h, -⟩
    cases h
  refine wp_moveMoney_of (fun _ e _ _ => hthrown e w) fun ω t db _ hcreate data now ω' _ => ?_
  obtain ⟨rfl, transfers, rfl⟩ := numbers_created (Columns.ok_of_checked hcreate)
  refine ⟨fun e _ => hthrown e _, fun db' hexecute => ?_⟩
  -- the entries were stored, so their keys fit
  have hlength : input.idempotencyKey.length ≤ 251 := by
    by_contra hlength
    exact Columns.checked_ne_ok (fun hfits => hlength (fits_executeTransfer.mp hfits)) _ _ hexecute
  obtain ⟨-, -, x, y, hy, hwallets⟩ := numbers_transferred (Columns.ok_of_checked hexecute) hfound.sender_mem
    hfound.receiver_mem hfound.ne
  have hamount := hfound.amount_natAbs hmovable
  obtain ⟨hnn, hmax⟩ := hfound.receiver_range
  have hmin := input.amount_min
  rintro ⟨-, t, event, hmoved⟩
  -- the row of the receiver has the number that was written, and not the sum
  have hy : Numbers.bigint (number (number receiver.balance + number input.amount)) = .ok y := hy
  rw [number_eq hmax, number_eq hamount] at hy
  have hy := eq_number_of_bigint (by omega) (sum_lt hmax hamount) hy
  have hrow : receiver.after sender receiver input.amount ∈ db'.wallets := by
    rw [Table.mem_def, show db'.wallets.rows = _ from hmoved.wallets]
    exact List.mem_map_of_mem hfound.receiver_mem
  have hafter : receiver.after sender receiver input.amount =
      { receiver with balance := receiver.balance + input.amount } := by
    have hne : receiver ≠ sender := fun h => hfound.ne (congrArg Wallet.id h).symm
    simp only [Wallet.after, hne, if_false, if_true]
  rw [hafter, hwallets] at hrow
  obtain ⟨b, -, hb⟩ := mem_setBalance.mp hrow
  have hid : b.id = receiver.id := by
    have hid := congrArg Wallet.id hb
    split at hid <;> exact hid
  rw [if_pos (beq_iff_eq.mpr hid)] at hb
  have hbalance : y = receiver.balance + input.amount := congrArg Wallet.balance hb
  exact hnot ⟨hlength, hy.symm.trans hbalance⟩

theorem wp_moveMoney_done (hfound : Found w sender receiver) (hmovable : Movable w input sender)
    (hwritable : Writable input receiver)
    (hkey : w.db.findTransferByIdempotencyKey input.idempotencyKey = none) :
    (moveMoney fromUserId fromUserEmail input sender receiver).wp (GetsThrough Columns.perform i) Eq
      (fun r w' => r = .ok () ∧
        ∃ t event, Moved fromUserId fromUserEmail input sender receiver t event w w') w := by
  have hamount := hfound.amount_natAbs hmovable
  have hnumber : number input.amount = input.amount := number_eq hamount
  have hrow : ∀ id, numberedTransfer fromUserId input receiver id =
      (newTransfer fromUserId input receiver).create id := by
    intro id
    rw [numberedTransfer, hnumber]
    rfl
  have hmin := input.amount_min
  -- every sum is exact
  have hsender : sender.balance.natAbs ≤ maxSafeInteger ∧
      (sender.balance - input.amount).natAbs ≤ maxSafeInteger := by
    have henough := hmovable.1
    have hmax := hfound.sender_range
    omega
  have hreceiver : receiver.balance.natAbs ≤ maxSafeInteger ∧
      Numbers.Exact (receiver.balance + input.amount) := by
    obtain ⟨hnn, hmax⟩ := hfound.receiver_range
    exact ⟨hmax, exact_of_number (by omega) (sum_lt hmax hamount) hwritable.2⟩
  have hfitsRow : (Op.createTransfer (newTransfer fromUserId input receiver)).Fits := by
    have hlength := hwritable.1
    simp only [Op.Fits, Op.texts, newTransfer, List.mem_singleton, forall_eq]
    omega
  refine wp_moveMoney_of (fun ω e hid hcreate => ?_) fun ω t db hid hcreate data now ω' hid' => ?_
  · -- no row has the key, and the id is new
    rw [Columns.checked_of_fits hfitsRow, hrow, Numbers.createTransfer_eq hamount] at hcreate
    obtain ⟨transfers, -, hok⟩ := createTransfer_isOk hfound.ids
      (t := (newTransfer fromUserId input receiver).create ω.uuid) hid hkey
    cases hcreate.symm.trans hok
  · rw [Columns.checked_of_fits hfitsRow, hrow, Numbers.createTransfer_eq hamount] at hcreate
    obtain ⟨rfl, transfers, hinsert, rfl⟩ := createTransfer_eq_ok hcreate
    have hfits : (Op.executeTransfer ((newTransfer fromUserId input receiver).create ω.uuid) sender.id
        receiver.id data).Fits := fits_executeTransfer.mpr hwritable.1
    have hexact : ∀ item, Numbers.executeTransfer { w.db with transfers := transfers }
        ((newTransfer fromUserId input receiver).create ω.uuid) sender.id receiver.id item =
        Store.executeTransfer { w.db with transfers := transfers }
          ((newTransfer fromUserId input receiver).create ω.uuid) sender.id receiver.id item := by
      refine fun item => Numbers.executeTransfer_eq hamount (fun a ha => ?_) fun a _ _ b hb => ?_
      · obtain ⟨hmem, hid⟩ := findWallet_eq_some.mp ha
        exact Wallet.eq_of_id hmem hfound.sender_mem hid ▸ hsender
      · obtain ⟨hmem, hid⟩ := findWallet_eq_some.mp hb
        exact Wallet.eq_of_id hmem hfound.receiver_mem hid ▸ hreceiver
    rw [Columns.checked_of_fits hfits, hexact]
    refine ⟨fun e hexecute => ?_, fun db' hexecute => ?_⟩
    · -- the store has no reason to refuse
      have hcommits : ∀ item : OutboxEvent, item.id = ω'.uuid →
          ∃ db', Store.executeTransfer { w.db with transfers := transfers }
            ((newTransfer fromUserId input receiver).create ω.uuid) sender.id receiver.id item =
              .ok ((), db') := by
        intro item hitem
        rw [executeTransfer_isOk_iff]
        · exact hmovable
        · exact hfound.sender_mem
        · exact hfound.receiver_mem
        · intro ev hev heq
          rw [← hitem, ← heq] at hid'
          exact hid' (List.mem_cons_of_mem _ (hfound.ids.outbox ev hev))
      obtain ⟨db', hok⟩ := hcommits (numberedEvent fromUserId fromUserEmail input receiver w
        ((newTransfer fromUserId input receiver).create ω.uuid) now ω'.uuid ω'.now) rfl
      cases hexecute.symm.trans hok
    · obtain ⟨sender', receiver', hs, hr, -, ledger₁, ledger, outbox, hdebit, hcredit, houtbox, rfl⟩ :=
        executeTransfer_eq_ok.mp hexecute
      obtain rfl := Option.some.inj (hs.symm.trans (findWallet_eq_some.mpr ⟨hfound.sender_mem, rfl⟩))
      obtain rfl := Option.some.inj (hr.symm.trans (findWallet_eq_some.mpr ⟨hfound.receiver_mem, rfl⟩))
      refine ⟨rfl, { (newTransfer fromUserId input receiver').create ω.uuid with status := .completed }, _, {
        transfer := ⟨rfl, rfl, rfl, rfl, rfl, rfl⟩
        payload := ⟨ω'.uuid, now, ω'.now, by rw [numberedEvent, hnumber]⟩
        wallets := rows_after hfound.sender_mem hfound.receiver_mem hfound.ne input.amount
        transfers := ?_
        ledger := transfer_rows hdebit hcredit
        outbox := (Table.insert?_eq_some houtbox).2
        users := rfl
        transactions := rfl
        payments := rfl
        cache := rfl }⟩
      exact Table.rows_update_last (p := (·.id == ω.uuid)) hinsert (beq_self_eq_true _)
        (fun a ha => by
          have hid : (a.id == ω.uuid) = true := ha
          simp only [Entity.clash, newTransfer, TransferData.create, hid, Bool.true_or])
        (fun t => { t with status := .completed }) fun _ _ => rfl

/-- Whichever way the call ends: money is moved as it should be exactly if the conditions hold and what is
    to be written can be. -/
def Outcome (fromUserId fromUserEmail : String) (input : InitiateTransferDto) (w : World)
    (r : Except Err Unit) (w' : World) : Prop :=
  (¬ Transferable w fromUserId input → Unmoved w w') ∧
    ∀ sender receiver, Parties w fromUserId input sender receiver →
      (Writable input receiver ↔
        r = .ok () ∧ ∃ t event, Moved fromUserId fromUserEmail input sender receiver t event w w')

/-- An exit for want of one of the conditions. -/
theorem outcome_of_not (hnot : ∀ sender receiver, ¬ Parties w fromUserId input sender receiver)
    (h : Unmoved w w') : Outcome fromUserId fromUserEmail input w r w' :=
  ⟨fun _ => h, fun sender receiver hp => absurd hp (hnot sender receiver)⟩

/-- All checks are passed; what remains is the balance, the ledger keys and what is written. -/
theorem wp_moveMoney (hfound : Found w sender receiver)
    (htag : w.db.findByWalletTag input.toWalletTag = some receiver)
    (hcurrency : receiver.currency = input.currency.value) (hother : fromUserId ≠ receiver.userId)
    (hkey : w.db.findTransferByIdempotencyKey input.idempotencyKey = none)
    (howned : w.db.findByUserIdAndCurrency fromUserId input.currency.value = some sender) :
    (moveMoney fromUserId fromUserEmail input sender receiver).wp (GetsThrough Columns.perform i) Eq
      (Outcome fromUserId fromUserEmail input w) w := by
  by_cases hmovable : Movable w input sender
  · have hparties : Parties w fromUserId input sender receiver :=
      ⟨htag, hcurrency, hother, hkey, howned, hmovable.1, hmovable.2⟩
    have houtcome : ∀ {r w'}, (Writable input receiver ↔ r = .ok () ∧
        ∃ t event, Moved fromUserId fromUserEmail input sender receiver t event w w') →
        Outcome fromUserId fromUserEmail input w r w' := by
      refine fun h => ⟨fun hnot => absurd ⟨sender, receiver, hparties⟩ hnot, fun sender' receiver' hp => ?_⟩
      obtain ⟨rfl, rfl⟩ := hparties.unique hp
      exact h
    by_cases hwritable : Writable input receiver
    · exact Program.wp_mono (wp_moveMoney_done hfound hmovable hwritable hkey) fun r w' h =>
        houtcome (iff_of_true hwritable h)
    · exact Program.wp_mono (wp_moveMoney_spoiled hfound hmovable hwritable) fun r w' h =>
        houtcome (iff_of_false hwritable h)
  · refine Program.wp_mono (wp_moveMoney_refused hfound hmovable) fun r w' h => ?_
    refine outcome_of_not (fun sender' receiver' hp => hmovable ?_) h
    obtain rfl := Option.some.inj (hp.owned.symm.trans howned)
    exact ⟨hp.enough, hp.ledgerKeys⟩

theorem wp_initiateTransfer (hinv : w.Inv) (hb : w.Bounded) :
    (initiateTransfer fromUserId fromUserEmail input).wp (GetsThrough Columns.perform i) Eq
      (Outcome fromUserId fromUserEmail input w) w := by
  have hexit : ∀ {r : Except Err Unit}, (∀ sender receiver,
      ¬ Parties w fromUserId input sender receiver) →
      Outcome fromUserId fromUserEmail input w r w := fun h => outcome_of_not h (.refl w)
  unfold initiateTransfer
  refine wp_read (fun _ => Columns.perform_of_no_text rfl) fun _ => ?_
  cases htag : w.db.findByWalletTag input.toWalletTag with
  | none =>
    rintro _ rfl
    exact hexit fun sender receiver h => by cases htag.symm.trans h.tagged
  | some receiver =>
    have hreceiver : ∀ {sender receiver'}, Parties w fromUserId input sender receiver' →
        receiver' = receiver := fun h => Option.some.inj (h.tagged.symm.trans htag)
    dsimp only
    -- each check that fails contradicts one of the conditions
    split
    · rename_i hcurrency
      rintro _ rfl
      exact hexit fun sender receiver' h => hcurrency (hreceiver h ▸ h.currency)
    rename_i hcurrency
    split
    · rename_i hself
      rintro _ rfl
      exact hexit fun sender receiver' h => h.other (hreceiver h ▸ hself)
    rename_i hother
    refine wp_read (fun _ => Columns.perform_of_no_text rfl) fun _ => ?_
    cases hkey : w.db.findTransferByIdempotencyKey input.idempotencyKey with
    | some t =>
      rintro _ rfl
      exact hexit fun sender receiver' h => by cases hkey.symm.trans h.newKey
    | none =>
      simp only [Option.isSome_none, Bool.false_eq_true, if_false]
      refine wp_read (fun _ => Columns.perform_of_no_text rfl) fun _ => ?_
      cases howned : w.db.findByUserIdAndCurrency fromUserId input.currency.value with
      | none =>
        rintro _ rfl
        exact hexit fun sender receiver' h => by cases howned.symm.trans h.owned
      | some sender =>
        obtain ⟨hsender, hmem, hne⟩ := lookups_mem htag howned hother
        have hfound : Found w sender receiver := ⟨hinv.ids, hsender, hmem, hne,
          balance_natAbs hinv hb hsender, balance_natAbs hinv hb hmem⟩
        exact wp_moveMoney hfound htag (not_ne_iff.mp hcurrency) hother hkey howned

/-- The sender has less than before. -/
theorem Moved.movesMoney {t : Transfer} {event : OutboxEvent}
    (h : Moved fromUserId fromUserEmail input sender receiver t event w w')
    (hparties : Parties w fromUserId input sender receiver) : MovesMoney w w' := by
  obtain ⟨hsender, -, -⟩ := lookups_mem hparties.tagged hparties.owned hparties.other
  refine ⟨sender, hsender, sender.after sender receiver input.amount, ?_, ?_, ?_⟩
  · rw [Table.mem_def, h.wallets]
    exact List.mem_map_of_mem hsender
  · simp only [Wallet.after, if_true]
  · have := input.amount_min
    simp only [Wallet.after, if_true]
    omega

theorem Unmoved.not_movesMoney (h : Unmoved w w') : ¬ MovesMoney w w' := by
  rintro ⟨a, ha, a', ha', hid, hne⟩
  rw [h.wallets] at ha'
  exact hne (congrArg Wallet.balance (Wallet.eq_of_id ha' ha hid))

end

/-- For every store that was reached in the range and every input, what is promised of the call, run alone,
    holds if and only if the ledger keys fit and the receiver's new balance is a double, should the seven
    conditions hold.  What is promised: money is moved exactly under these conditions; then the call returns,
    the sender's wallet has lost the amount, the tagged wallet has gained it, and one completed transfer, its
    two entries and its event are new; otherwise no wallet, entry or event has changed. -/
theorem initiateTransfer_exact {registry : PaymentGatewayRegistry} {s : State}
    (hs : Columns.ReachableBy registry InRange s) (i : ℕ) (fromUserId fromUserEmail : String)
    (input : InitiateTransferDto) (r : Except Err Unit) (w' : World)
    (h : (initiateTransfer fromUserId fromUserEmail input).Runs (GetsThrough Columns.perform i) s.world r w') :
    ((MovesMoney s.world w' ↔ Transferable s.world fromUserId input) ∧
      TransferEffect fromUserId fromUserEmail input s.world r w') ↔
    ∀ sender receiver, Parties s.world fromUserId input sender receiver → Writable input receiver := by
  have hreach : ReachableBy registry InRange s := (hs.numbers fun _ _ _ _ => id).integers fun _ _ => id
  obtain ⟨hunmoved, hmoved⟩ :=
    Program.wp_eq_iff.mp (wp_initiateTransfer hreach.reachable.inv (bounded hreach)) r w' h
  constructor
  · rintro ⟨-, heffect⟩ sender receiver hparties
    exact (hmoved sender receiver hparties).mpr (heffect.moved sender receiver hparties)
  · intro hwritable
    have heffect : TransferEffect fromUserId fromUserEmail input s.world r w' :=
      ⟨fun sender receiver hp => (hmoved sender receiver hp).mp (hwritable sender receiver hp), hunmoved⟩
    refine ⟨⟨fun hmoves => ?_, fun htransferable => ?_⟩, heffect⟩
    · by_contra hnot
      exact (hunmoved hnot).not_movesMoney hmoves
    · obtain ⟨sender, receiver, hparties⟩ := htransferable
      obtain ⟨-, t, event, hdone⟩ := heffect.moved sender receiver hparties
      exact hdone.movesMoney hparties

/-! ## Ada pays her rent -/

/-- Ada has 50 cents, and Bob what he has paid in. -/
def adaAndBobHave (amount : ℤ) (hamount : 1 ≤ amount) : List (Label Request Choice) :=
  openWallet 0 "u1" "Ada" "w1" ++ openWallet 1 "u2" "Bob" "w2" ++
    payIn 2 "u1" topup "t1" "cs1" ++ settle 3 "cs1" "e1" ++
    payIn 4 "u2" (euros amount hamount "savings" (by decide)) "t2" "cs2" ++ settle 5 "cs2" "e2"

/-- The choices of the operations of `initiateTransfer`. -/
def rentChoices : List Choice :=
  [{}, {}, {}, {}, {}, { uuid := "x1" }, {}, { uuid := "e3" }, {}, {}]

/-- What the seven conditions are about. -/
def World.found (w : World) (input : InitiateTransferDto) :
    Option Wallet × Option Transfer × Option Wallet × List String :=
  (w.db.findByWalletTag input.toWalletTag, w.db.findTransferByIdempotencyKey input.idempotencyKey,
    w.db.findByUserIdAndCurrency "u1" input.currency.value, w.db.ledger.rows.map (·.idempotencyKey))

theorem parties_of_found {w : World} {input : InitiateTransferDto} {receiver sender : Wallet}
    {keys : List String} (h : w.found input = (some receiver, none, some sender, keys))
    (hcurrency : receiver.currency = input.currency.value) (hother : "u1" ≠ receiver.userId)
    (henough : input.amount ≤ sender.balance) (hkeys : ∀ key ∈ keys,
      key ≠ input.idempotencyKey ++ ":out" ∧ key ≠ input.idempotencyKey ++ ":in") :
    Parties w "u1" input sender receiver := by
  simp only [World.found, Prod.mk.injEq] at h
  obtain ⟨htag, hkey, howned, rfl⟩ := h
  exact ⟨htag, hcurrency, hother, hkey, howned, henough, fun e he => hkeys _ (List.mem_map_of_mem he)⟩

theorem initiateTransfer_exact_rent : ∃ (s : State) (r : Except Err Unit) (w' : World),
    Columns.ReachableBy cardPayments InRange s ∧
      (initiateTransfer "u1" "ada@example.com" toBob).Runs (GetsThrough Columns.perform 6) s.world r w' ∧
      MovesMoney s.world w' := by
  have hrun : ((Columns.server cardPayments).runUnder InRange (adaAndBobHave 10 (by decide))
      ⟨World.fresh adaAndBob, []⟩).bind (fun s => ((Columns.server cardPayments).execute 6 rentChoices
        (initiateTransfer "u1" "ada@example.com" toBob) s.world).map fun _ => s.world.found toBob) =
      some (some ⟨"w2", "u2", 10, "EUR", "bob-0000"⟩, none, some ⟨"w1", "u1", 50, "EUR", "ada-0000"⟩,
        ["topup", "savings"]) := by
    decide +kernel
  obtain ⟨s, hs, hrun⟩ := Option.bind_eq_some_iff.mp hrun
  obtain ⟨⟨r, w'⟩, hexecute, hfound⟩ := Option.map_eq_some_iff.mp hrun
  have hparties := parties_of_found hfound rfl (by decide) (by decide) (by decide)
  have hreach : Columns.ReachableBy cardPayments InRange s :=
    ⟨_, World.fresh_initial adaAndBob, Server.reaches_of_runUnder hs⟩
  have hruns := runs_of_execute_faultless (by decide) hexecute
  refine ⟨s, r, w', hreach, hruns, ?_⟩
  refine ((initiateTransfer_exact hreach 6 _ _ _ r w' hruns).mpr fun sender receiver hp => ?_).1.mpr
    ⟨_, _, hparties⟩
  obtain ⟨-, rfl⟩ := hparties.unique hp
  exact ⟨by decide, by decide⟩

/-- Ada's transfer under a key of 252 characters, which the DTO admits. -/
def toBobWithLongKey : InitiateTransferDto :=
  { toBob with
    idempotencyKey := String.ofList (List.replicate 252 'k')
    idempotencyKey_notEmpty := by decide +kernel }

/-- The key of a ledger entry does not fit: the seven conditions hold, and nothing is moved. -/
theorem long_key_refused : ∃ (s : State) (r : Except Err Unit) (w' : World),
    Columns.ReachableBy cardPayments InRange s ∧
      (initiateTransfer "u1" "ada@example.com" toBobWithLongKey).Runs (GetsThrough Columns.perform 6)
        s.world r w' ∧
      Transferable s.world "u1" toBobWithLongKey ∧ ¬ MovesMoney s.world w' := by
  have hrun : ((Columns.server cardPayments).runUnder InRange (adaAndBobHave 10 (by decide))
      ⟨World.fresh adaAndBob, []⟩).bind (fun s => ((Columns.server cardPayments).execute 6 rentChoices
        (initiateTransfer "u1" "ada@example.com" toBobWithLongKey) s.world).map fun x =>
          (s.world.found toBobWithLongKey, decide (x.2.db.wallets.rows = s.world.db.wallets.rows))) =
      some ((some ⟨"w2", "u2", 10, "EUR", "bob-0000"⟩, none, some ⟨"w1", "u1", 50, "EUR", "ada-0000"⟩,
        ["topup", "savings"]), true) := by
    decide +kernel
  obtain ⟨s, hs, hrun⟩ := Option.bind_eq_some_iff.mp hrun
  obtain ⟨⟨r, w'⟩, hexecute, hend⟩ := Option.map_eq_some_iff.mp hrun
  obtain ⟨hfound, hsame⟩ := Prod.mk.inj hend
  refine ⟨s, r, w', ⟨_, World.fresh_initial adaAndBob, Server.reaches_of_runUnder hs⟩,
    runs_of_execute_faultless (by decide) hexecute, ?_, ?_⟩
  · exact ⟨_, _, parties_of_found hfound rfl (by decide) (by decide) (by decide +kernel)⟩
  · rintro ⟨a, ha, a', ha', hid, hne⟩
    rw [Table.ext (of_decide_eq_true hsame)] at ha'
    exact hne (congrArg Wallet.balance (Wallet.eq_of_id ha' ha hid))

/-- Bob has a fortune and gets two cents: they are taken from Ada, and Bob is credited with one. -/
example : ((Columns.server cardPayments).runUnder InRange (adaAndBobHave 9007199254740991 (by decide))
    ⟨World.fresh adaAndBob, []⟩).bind (fun s => ((Columns.server cardPayments).execute 6 rentChoices
      (initiateTransfer "u1" "ada@example.com" { toBob with amount := 2, amount_min := by decide })
        s.world).map fun x => (s.world.db.wallets.rows.map (·.balance), x.2.db.wallets.rows.map (·.balance))) =
    some ([50, 9007199254740991], [48, 9007199254740992]) := by
  decide +kernel

end LiorParisWallet
