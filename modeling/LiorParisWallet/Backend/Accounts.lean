import LiorParisWallet.Backend.Contract
import LiorParisWallet.Banking.Bank
import LiorParisWallet.Money.Ledger

/-!
# The wallets are a bank

The bank of the server has an account for every wallet.  Every operation of the server either leaves it as it
is or does what one action of a bank does: a wallet is opened, credited by a settlement or closed with its
user, or money is moved by a transfer.
-/

namespace LiorParisWallet.Backend

open Async Relational Banking Accounts

def Wallet.account (wallet : Wallet) : Account String String :=
  ⟨wallet.userId, wallet.currency, wallet.balance⟩

def bankOf (wallets : Table Wallet) : Bank String String String where
  account id := (wallets.find? (·.id == id)).map Wallet.account
  finite := by
    refine (wallets.rows.map (·.id)).toFinset.finite_toSet.subset fun id hid => ?_
    obtain ⟨x, hx⟩ := Option.ne_none_iff_exists'.mp hid
    obtain ⟨wallet, hfound, -⟩ := Option.map_eq_some_iff.mp hx
    obtain ⟨hmem, heq⟩ := Table.mem_of_find? hfound
    exact List.mem_toFinset.mpr (List.mem_map.mpr ⟨wallet, hmem, beq_iff_eq.mp heq⟩)

/-- The bank of the server. -/
def World.bank (w : World) : Bank String String String :=
  bankOf w.money.db.wallets

section Accounts

variable {wallets wallets' : Table Wallet} {id : String} {x : Account String String} {wallet : Wallet}

theorem account_bankOf : (bankOf wallets).account id = some x ↔
    ∃ wallet ∈ wallets, wallet.id = id ∧ Wallet.account wallet = x := by
  show (wallets.find? (·.id == id)).map Wallet.account = some x ↔ _
  rw [Option.map_eq_some_iff]
  constructor
  · rintro ⟨wallet, hfound, heq⟩
    obtain ⟨hmem, hid⟩ := Table.mem_of_find? hfound
    exact ⟨wallet, hmem, beq_iff_eq.mp hid, heq⟩
  · rintro ⟨wallet, hmem, rfl, heq⟩
    refine ⟨wallet, Table.find?_eq_some hmem (beq_self_eq_true _) fun b hb => ?_, heq⟩
    simp [Entity.clash, beq_iff_eq.mp hb]

theorem bankOf_eq {b : Bank String String String} (h : ∀ id x, b.account id = some x ↔
    ∃ wallet ∈ wallets, wallet.id = id ∧ Wallet.account wallet = x) : bankOf wallets = b := by
  ext id x
  rw [account_bankOf, h]

theorem bankOf_empty : bankOf Table.empty = Bank.empty :=
  bankOf_eq fun _ _ => ⟨nofun, fun ⟨wallet, hmem, _⟩ => absurd hmem (Table.not_mem_empty wallet)⟩

theorem account_of_mem (h : wallet ∈ wallets) :
    (bankOf wallets).account wallet.id = some (Wallet.account wallet) :=
  account_bankOf.mpr ⟨wallet, h, rfl, rfl⟩

theorem bankOf_insert (h : wallets.insert? wallet = some wallets') :
    bankOf wallets' = (bankOf wallets).set wallet.id (Wallet.account wallet) := by
  have hfresh : ∀ a ∈ wallets, a.id ≠ wallet.id := by
    intro a ha heq
    have hclash := (Table.insert?_eq_some h).1 a ha
    simp [Entity.clash, heq] at hclash
  refine bankOf_eq fun id x => ?_
  rw [Bank.account_set]
  split
  · rename_i heq
    subst heq
    constructor
    · intro hx
      exact ⟨wallet, (Table.mem_insert? h).mpr (.inr rfl), rfl, Option.some.inj hx⟩
    · rintro ⟨a, ha, hid, rfl⟩
      rcases (Table.mem_insert? h).mp ha with ha | rfl
      · exact absurd hid (hfresh a ha)
      · rfl
  · rename_i hne
    rw [account_bankOf]
    constructor
    · rintro ⟨a, ha, hid, hx⟩
      exact ⟨a, (Table.mem_insert? h).mpr (.inl ha), hid, hx⟩
    · rintro ⟨a, ha, hid, hx⟩
      rcases (Table.mem_insert? h).mp ha with ha | rfl
      · exact ⟨a, ha, hid, hx⟩
      · exact absurd hid.symm hne

theorem bankOf_setBalance {db : Store} (h : wallet ∈ db.wallets) (balance : ℤ) :
    bankOf (db.setBalance wallet.id balance).wallets =
      (bankOf db.wallets).set wallet.id { Wallet.account wallet with balance := balance } := by
  refine bankOf_eq fun id x => ?_
  rw [Bank.account_set]
  split
  · rename_i heq
    subst heq
    constructor
    · intro hx
      exact ⟨_, mem_setBalance.mpr ⟨wallet, h, if_pos (beq_self_eq_true _)⟩, rfl, Option.some.inj hx⟩
    · rintro ⟨a, ha, hid, rfl⟩
      obtain ⟨b, hb, rfl⟩ := mem_setBalance.mp ha
      by_cases heq : b.id = wallet.id
      · obtain rfl := Wallet.eq_of_id hb h heq
        rw [if_pos (beq_self_eq_true _)]
        rfl
      · rw [if_neg (by simpa using heq)] at hid
        exact absurd hid heq
  · rename_i hne
    rw [account_bankOf]
    constructor
    · rintro ⟨a, ha, rfl, hx⟩
      exact ⟨a, mem_setBalance.mpr ⟨a, ha, if_neg (by simpa using hne)⟩, rfl, hx⟩
    · rintro ⟨a, ha, hid, hx⟩
      obtain ⟨b, hb, rfl⟩ := mem_setBalance.mp ha
      by_cases heq : b.id = wallet.id
      · rw [if_pos (beq_iff_eq.mpr heq)] at hid
        exact absurd (hid.symm.trans heq) hne
      · rw [if_neg (by simpa using heq)] at hid hx
        exact ⟨b, hb, hid, hx⟩

/-- Where no user goes away, no wallet does. -/
theorem cascade_eq {before after : Table Users} (h : ∀ u ∈ before, ∃ u' ∈ after, u'.id = u.id) :
    bankOf (cascade before after wallets) = bankOf wallets := by
  refine bankOf_eq fun id x => account_bankOf.trans ?_
  refine exists_congr fun a => and_congr (Iff.symm (mem_cascade.trans (and_iff_left ?_))) Iff.rfl
  rintro ⟨u, hu, heq⟩
  obtain ⟨u', hu', hid⟩ := h u hu
  exact ⟨u', hu', hid.trans heq⟩

theorem bankOf_cascade_delete {before : Table Users} {userId : String}
    (howners : ∀ a ∈ wallets, ∃ u ∈ before, u.id = a.userId) :
    bankOf (cascade before (before.delete (·.id == userId)) wallets) = (bankOf wallets).without userId := by
  refine bankOf_eq fun id x => ?_
  rw [Bank.account_without, account_bankOf]
  constructor
  · rintro ⟨⟨a, ha, hid, rfl⟩, hne⟩
    refine ⟨a, mem_cascade.mpr ⟨ha, ?_⟩, hid, rfl⟩
    rintro ⟨u, hu, heq⟩
    exact ⟨u, Table.mem_delete.mpr ⟨hu, beq_eq_false_iff_ne.mpr (heq.trans_ne hne)⟩, heq⟩
  · rintro ⟨a, ha, hid, rfl⟩
    obtain ⟨hmem, howner⟩ := mem_cascade.mp ha
    refine ⟨⟨a, hmem, hid, rfl⟩, fun heq => ?_⟩
    obtain ⟨u, hu, hu'⟩ := howner (howners a hmem)
    exact beq_eq_false_iff_ne.mp (Table.mem_delete.mp hu).2 (hu'.trans heq)

/-! ## What the bank holds -/

theorem find?_of_not_mem {rows : List Wallet} (h : ∀ a ∈ rows, a.id ≠ id) :
    rows.find? (·.id == id) = none :=
  List.find?_eq_none.mpr fun a ha heq => h a ha (beq_iff_eq.mp heq)

theorem finsum_worth {rows : List Wallet} (currency : String) (h : rows.Pairwise fun a b => a.id ≠ b.id) :
    finsum (fun id => Bank.worth currency ((rows.find? (·.id == id)).map Wallet.account)) =
      (rows.map fun a => if a.currency = currency then a.balance else 0).sum := by
  induction rows with
  | nil => exact finsum_zero
  | cons a rows ih =>
    obtain ⟨hne, htail⟩ := List.pairwise_cons.mp h
    have hfinite : (Function.support fun id =>
        Bank.worth currency ((rows.find? (·.id == id)).map Wallet.account)).Finite := by
      refine (rows.map (·.id)).toFinset.finite_toSet.subset fun id hid => ?_
      by_contra hnone
      refine hid ?_
      show Bank.worth currency ((rows.find? (·.id == id)).map Wallet.account) = 0
      rw [find?_of_not_mem fun b hb heq =>
        hnone (List.mem_toFinset.mpr (List.mem_map.mpr ⟨b, hb, heq⟩))]
      rfl
    have hrest : rows.find? (·.id == a.id) = none :=
      find?_of_not_mem fun b hb heq => hne b hb heq.symm
    have hworth : Bank.worth currency (some (Wallet.account a)) =
        if a.currency = currency then a.balance else 0 := by
      by_cases hcurrency : a.currency = currency <;> simp [Bank.worth, Wallet.account, hcurrency]
    rw [Bank.finsum_change (a := a.id) hfinite fun id hid => by
      rw [List.find?_cons_of_neg (by simpa using Ne.symm hid)], ih htail, hrest,
      List.find?_cons_of_pos (by simp), Option.map_some, hworth, List.map_cons, List.sum_cons]
    show _ + (_ - 0) = _
    omega

/-- What the bank holds is what the balances add up to. -/
theorem total_bankOf (db : Store) (currency : String) :
    (bankOf db.wallets).total currency = db.total currency := by
  refine finsum_worth currency (db.wallets.unique.imp fun {a b} hclash heq => ?_)
  simp [Entity.clash, heq] at hclash

end Accounts

/-! ## One operation -/

/-- The action that the operation is, if it does anything to the bank. -/
inductive Books (P : Packages) : Op → Action String String String String → Prop where
  | opened {data : WalletData} (id : String) :
      Books P (.money (.saveWallet data)) (.opened id data.userId data.currency)
  | credited {walletId : String} {t : Transaction} {type : LedgerEntryType} {change : ℤ} {data : OutboxData} :
      Books P (.money (.settleTransaction walletId t type change data))
        (.credited walletId t.amount t.idempotencyKey)
  | moved {t : Transfer} {fromWalletId toWalletId : String} {data : OutboxData} :
      Books P (.money (.executeTransfer t fromWalletId toWalletId data))
        (.moved fromWalletId toWalletId t.amount t.idempotencyKey)
  | closed {id : String} : Books P (.accounts (.deleteUser id)) (.closed (P.collate id))

/-- The ledger has an entry with the key now, and had none before. -/
def NewKey (w w' : World) (key : String) : Prop :=
  (∀ l ∈ w.money.db.ledger, l.idempotencyKey ≠ key) ∧ ∃ l ∈ w'.money.db.ledger, l.idempotencyKey = key

/-- The action has taken its key. -/
structure TakesKey (w w' : World) (action : Action String String String String) : Prop where
  moved : ∀ key, action.moveKey? = some key → NewKey w w' (key ++ ":out")
  credited : ∀ key, action.creditKey? = some key → NewKey w w' key

section Operations

variable {P : Packages} {i : ℕ} {req : Request} {w w' : World}

theorem ne_of_insert {ledger ledger' : Table LedgerEntry} {e : LedgerEntry}
    (h : ledger.insert? e = some ledger') : ∀ l ∈ ledger, l.idempotencyKey ≠ e.idempotencyKey := by
  intro l hl heq
  have hclash := (Table.insert?_eq_some h).1 l hl
  simp [Entity.clash, heq] at hclash

theorem opened_step {wallets wallets' : Table Wallet} {data : WalletData} {id : String}
    (hbalance : data.balance = 0) (h : wallets.insert? (data.create id) = some wallets') :
    (bankOf wallets).Step (.opened id data.userId data.currency : Action String String String String)
      (bankOf wallets') := by
  have haccount : Wallet.account (data.create id) = ⟨data.userId, data.currency, 0⟩ := by
    rw [Wallet.account, ← hbalance]
    rfl
  have hclash := (Table.insert?_eq_some h).1
  rw [bankOf_insert h, haccount]
  refine .opened ?_ fun a x hx howner hcurrency => ?_
  · refine Option.eq_none_iff_forall_ne_some.mpr fun x hx => ?_
    obtain ⟨wallet, hmem, hid, -⟩ := account_bankOf.mp hx
    have hclash := hclash wallet hmem
    simp [Entity.clash, WalletData.create, hid] at hclash
  · obtain ⟨wallet, hmem, -, rfl⟩ := account_bankOf.mp hx
    have hclash := hclash wallet hmem
    simp only [Wallet.account] at howner hcurrency
    simp [Entity.clash, WalletData.create, howner, hcurrency] at hclash

theorem credited_step {m : LiorParisWallet.World} (hinv : m.Inv) {wallet : Wallet} {t : Transaction}
    {change : ℤ} {type : LedgerEntryType} {data : OutboxData} {ledger : Table LedgerEntry}
    {outbox : Table OutboxEvent} (hmem : wallet ∈ m.db.wallets)
    (hpre : m.MaySettle wallet.id t type change data) :
    (bankOf m.db.wallets).Step (.credited wallet.id t.amount t.idempotencyKey)
      (bankOf (m.db.settled wallet t change ledger outbox).wallets) := by
  obtain ⟨⟨t', ht', hcore, -⟩, -, -, rfl, -, -⟩ := hpre
  have hamount := hinv.deposits.amount_min t' ht'
  rw [Transaction.core_amount hcore] at hamount
  show (bankOf m.db.wallets).Step _
    (bankOf (m.db.setBalance wallet.id (wallet.balance + t.amount)).wallets)
  rw [bankOf_setBalance hmem]
  exact .credited (account_of_mem hmem) (by omega)

theorem moved_step {m : LiorParisWallet.World} (hinv : m.Inv) {sender receiver : Wallet} {t : Transfer}
    {data : OutboxData} {ledger : Table LedgerEntry} {outbox : Table OutboxEvent}
    (hsender : sender ∈ m.db.wallets) (hreceiver : receiver ∈ m.db.wallets)
    (henough : 0 ≤ sender.balance - t.amount)
    (hpre : m.MayTransfer i t sender.id receiver.id data) :
    (bankOf m.db.wallets).Step (.moved sender.id receiver.id t.amount t.idempotencyKey)
      (bankOf (m.db.transferred sender receiver t ledger outbox).wallets) := by
  have hne := hpre.wallet_ne hinv.transfers hsender
  have hamount := hinv.transfers.amount_min t hpre.stored
  obtain ⟨hfrom, hcurrency⟩ := hpre.sender.2 sender hsender rfl
  obtain ⟨hto, hcurrency'⟩ := hpre.receiver.2 receiver hreceiver rfl
  have hstays : receiver ∈ (m.db.setBalance sender.id (sender.balance - t.amount)).wallets :=
    mem_setBalance.mpr ⟨receiver, hreceiver, if_neg (by simpa using hne)⟩
  show (bankOf m.db.wallets).Step _ (bankOf ((m.db.setBalance sender.id _).setBalance receiver.id _).wallets)
  rw [bankOf_setBalance hstays, bankOf_setBalance hsender]
  refine .moved (account_of_mem hsender) (account_of_mem hreceiver) hne.symm ?_ ?_ (by omega) ?_
  · show sender.userId ≠ receiver.userId
    rw [hfrom, hto]
    exact hinv.transfers.users t hpre.stored
  · exact hcurrency.trans hcurrency'.symm
  · show t.amount ≤ sender.balance
    omega

/-- An operation leaves the bank as it is, or is one action of it. -/
theorem bank_of_effect {o : Op} {r : Except Exception (Ans o)} (hinv : w.Inv P)
    (hpre : Guarantees P req i o w) (he : Effect P i w o r w') :
    w'.bank = w.bank ∨ ∃ action, Books P o action ∧ w.bank.Step action w'.bank ∧ TakesKey w w' action := by
  cases he with
  | query => exact .inl rfl
  | @accounts o a x he =>
    cases he with
    | deleteUser id =>
      refine .inr ⟨.closed (P.collate id), .closed, ?_, ⟨fun _ => nofun, fun _ => nofun⟩⟩
      have hclosed : (w.putAccounts (w.accounts.deleteUser (P.collate id))).bank =
          w.bank.without (P.collate id) := bankOf_cascade_delete hinv.owners
      rw [hclosed]
      exact .closed (P.collate id)
    | createUser fresh _ inserted =>
      exact .inl (cascade_eq fun u hu => ⟨u, (Table.mem_insert? inserted).mpr (.inl hu), rfl⟩)
    | @applyUpdatesAndSave user updateData users inserted =>
      refine .inl (cascade_eq fun u hu => ?_)
      by_cases hid : u.id = (assign user updateData).id
      · exact ⟨_, (mem_save inserted).mpr (.inr rfl), hid.symm⟩
      · exact ⟨u, (mem_save inserted).mpr (.inl ⟨hu, hid⟩), rfl⟩
    | _ => exact .inl (cascade_eq fun u hu => ⟨u, hu, rfl⟩)
  | @money o a m he =>
    obtain ⟨hkeeps, request, -, hguarantee⟩ := hpre
    cases he with
    | saveWallet fresh user inserted =>
      exact .inr ⟨_, .opened _, opened_step hguarantee inserted, ⟨fun _ => nofun, fun _ => nofun⟩⟩
    | settleTransaction fresh wallet_mem enough entry event =>
      refine .inr ⟨_, .credited, credited_step hinv.money wallet_mem hguarantee,
        ⟨fun _ => nofun, fun key heq => ?_⟩⟩
      cases heq
      exact ⟨ne_of_insert entry, _, (Table.mem_insert? entry).mpr (.inr rfl), rfl⟩
    | executeTransfer fresh sender_mem receiver_mem enough debit credit event =>
      refine .inr ⟨_, .moved, moved_step hinv.money sender_mem receiver_mem enough hguarantee,
        ⟨fun key heq => ?_, fun _ => nofun⟩⟩
      cases heq
      exact ⟨ne_of_insert debit, _, (Table.mem_insert? credit).mpr
        (.inl ((Table.mem_insert? debit).mpr (.inr rfl))), rfl⟩
    | deleteUser => cases hkeeps
    | _ => exact .inl rfl

end Operations

end LiorParisWallet.Backend
