import LiorParisWallet.Money.Runs

/-!
# The ledger and the balances

Every wallet's balance is what its ledger entries add up to, and as long as no user is deleted, all
balances of a currency together are what was deposited in it.
-/

namespace LiorParisWallet

open Async Relational Accounting

variable {registry : PaymentGatewayRegistry} {s s' : State}

def Store.entriesOf (db : Store) (walletId : String) : List LedgerEntry :=
  db.ledger.rows.filter (·.walletId == walletId)

/-- The entries of a wallet, in the order of their commits, form a statement that opens at zero and
    closes at the wallet's balance. -/
theorem ledger_replay (h : Reachable registry s) {a : Wallet} (ha : a ∈ s.world.db.wallets) :
    Statement LedgerEntry.change LedgerEntry.balanceAfter 0 (s.world.db.entriesOf a.id) a.balance ∧
      a.balance = ((s.world.db.entriesOf a.id).getLast?.map (·.balanceAfter)).getD 0 :=
  ⟨h.inv.replays a ha, (h.inv.replays a ha).closing_eq_last⟩

theorem ledger_replay_everyday : ∃ (s : State) (a : Wallet), a ∈ s.world.db.wallets ∧
    a.balance = 30 ∧ Statement LedgerEntry.change LedgerEntry.balanceAfter 0
      (s.world.db.entriesOf a.id) a.balance := by
  have hrun : ((server cardPayments).run everyday ⟨World.fresh adaAndBob, []⟩).map
      (fun s => s.world.db.wallets.rows.head?) = some (some ⟨"w1", "u1", 30, "EUR", "ada-0000"⟩) := by
    decide
  obtain ⟨s, hs, ha⟩ := Option.map_eq_some_iff.mp hrun
  have ha := List.mem_of_head? ha
  exact ⟨s, _, ha, rfl, (ledger_replay (reachable_of_run hs) ha).1⟩

/-! ## Conservation -/

/-- The sum of the balances of all wallets of the currency. -/
def Store.total (db : Store) (currency : String) : ℤ :=
  (db.wallets.rows.map fun a => if a.currency = currency then a.balance else 0).sum

/-- The sum of the amounts of all deposit entries of the currency. -/
def Store.deposited (db : Store) (currency : String) : ℤ :=
  (db.ledger.rows.map fun e =>
    if e.type = .deposit ∧ e.currency = currency then e.amount else 0).sum

/-- Balances add up to deposits, and entries are in the currency of their wallet. -/
structure Store.Conserved (db : Store) : Prop where
  total : ∀ currency, db.total currency = db.deposited currency
  wallet : ∀ e ∈ db.ledger, ∃ a ∈ db.wallets, a.id = e.walletId ∧ a.currency = e.currency

theorem total_setBalance {db : Store} {a : Wallet} (ha : a ∈ db.wallets) (balance : ℤ)
    (currency : String) : (db.setBalance a.id balance).total currency =
      db.total currency + if a.currency = currency then balance - a.balance else 0 := by
  have hone : ∀ b ∈ db.wallets, (b.id == a.id) = true ↔ b = a := fun b hb =>
    ⟨fun h => Wallet.eq_of_id hb ha (beq_iff_eq.mp h), fun h => by rw [h]; exact beq_self_eq_true _⟩
  refine (Table.sum_update ha hone _).trans ?_
  rw [Store.total]
  split
  · rfl
  · rfl

/-- A transfer takes from one wallet what it gives to another of the same currency. -/
theorem total_transferred {db : Store} {sender receiver : Wallet} {t : Transfer}
    {ledger : Table LedgerEntry} {outbox : Table OutboxEvent} (hs : sender ∈ db.wallets)
    (hr : receiver ∈ db.wallets) (hne : receiver.id ≠ sender.id)
    (hcurrency : sender.currency = receiver.currency) (currency : String) :
    (db.transferred sender receiver t ledger outbox).total currency = db.total currency := by
  have hstays : receiver ∈ (db.setBalance sender.id (sender.balance - t.amount)).wallets :=
    mem_setBalance.mpr ⟨receiver, hr, if_neg (by simpa using hne)⟩
  have h₂ := total_setBalance hstays (receiver.balance + t.amount) currency
  rw [total_setBalance hs, hcurrency] at h₂
  refine h₂.trans ?_
  split <;> omega

theorem deposited_append {db db' : Store} {es : List LedgerEntry}
    (h : db'.ledger.rows = db.ledger.rows ++ es) (currency : String) :
    db'.deposited currency = db.deposited currency + (es.map fun e =>
      if e.type = .deposit ∧ e.currency = currency then e.amount else 0).sum := by
  rw [Store.deposited, h, List.map_append, List.sum_append]
  rfl

/-- Only the deletion of a user removes wallets. -/
theorem wallets_kept {w w' : World} {i : ℕ} {o : Op} (he : Effect i w o w')
    (ho : ∀ id, o ≠ .deleteUser id) {a : Wallet} (ha : a ∈ w.db.wallets) :
    ∃ b ∈ w'.db.wallets, b.id = a.id ∧ b.userId = a.userId ∧ b.currency = a.currency := by
  cases he with
  | saveWallet fresh user inserted =>
    exact ⟨a, (Table.mem_insert? inserted).mpr (.inl ha), rfl, rfl, rfl⟩
  | settleTransaction fresh wallet_mem enough entry event =>
    exact ⟨_, mem_setBalance.mpr ⟨a, ha, rfl⟩, by split <;> exact ⟨rfl, rfl, rfl⟩⟩
  | executeTransfer fresh sender_mem receiver_mem enough debit credit event =>
    exact ⟨_, mem_setBalance.mpr ⟨_, mem_setBalance.mpr ⟨a, ha, rfl⟩, rfl⟩,
      by split <;> split <;> exact ⟨rfl, rfl, rfl⟩⟩
  | deleteUser id => exact absurd rfl (ho id)
  | _ => exact ⟨a, ha, rfl, rfl, rfl⟩

theorem entries_have_wallets {w w' : World} {req : Request} {i : ℕ} {o : Op}
    (hpre : Guarantee req i o w) (he : Effect i w o w') (ho : ∀ id, o ≠ .deleteUser id)
    (h : ∀ e ∈ w.db.ledger, ∃ a ∈ w.db.wallets, a.id = e.walletId ∧ a.currency = e.currency) :
    ∀ e ∈ w'.db.ledger, ∃ a ∈ w'.db.wallets, a.id = e.walletId ∧ a.currency = e.currency := by
  have hkept := fun a ha => wallets_kept he ho (a := a) ha
  have hold : ∀ e ∈ w.db.ledger, ∃ a ∈ w'.db.wallets, a.id = e.walletId ∧ a.currency = e.currency := by
    intro e he
    obtain ⟨a, ha, hid, hc⟩ := h e he
    obtain ⟨b, hb, hbid, -, hbc⟩ := hkept a ha
    exact ⟨b, hb, hbid.trans hid, hbc.trans hc⟩
  cases he with
  | settleTransaction fresh wallet_mem enough entry event =>
    intro e he
    rcases (Table.mem_insert? entry).mp he with he | rfl
    · exact hold e he
    · obtain ⟨b, hb, hbid, -, hbc⟩ := hkept _ wallet_mem
      exact ⟨b, hb, hbid, hbc⟩
  | executeTransfer fresh sender_mem receiver_mem enough debit credit event =>
    intro e he
    rcases (Table.mem_insert? credit).mp he with he | rfl
    · rcases (Table.mem_insert? debit).mp he with he | rfl
      · exact hold e he
      · obtain ⟨b, hb, hbid, -, hbc⟩ := hkept _ sender_mem
        exact ⟨b, hb, hbid, hbc.trans (hpre.sender.2 _ sender_mem rfl).2⟩
    · obtain ⟨b, hb, hbid, -, hbc⟩ := hkept _ receiver_mem
      exact ⟨b, hb, hbid, hbc.trans (hpre.receiver.2 _ receiver_mem rfl).2⟩
  | _ => exact hold

/-- Only settlements and deletions change what the wallets of a currency hold together. -/
theorem total_eq_of_effect {w w' : World} {req : Request} {i : ℕ} {o : Op} (hinv : w.Inv)
    (hpre : Guarantee req i o w) (he : Effect i w o w') (ho : ∀ id, o ≠ .deleteUser id)
    (hs : ∀ walletId t type change data, o ≠ .settleTransaction walletId t type change data)
    (currency : String) : w'.db.total currency = w.db.total currency := by
  cases he with
  | @saveWallet data id _ fresh user inserted =>
    rw [Store.total, (Table.insert?_eq_some inserted).2, List.map_append, List.sum_append]
    have hzero : (data.create id).balance = 0 := hpre
    simp [hzero, Store.total]
  | settleTransaction => exact absurd rfl (hs _ _ _ _ _)
  | executeTransfer fresh sender_mem receiver_mem enough debit credit event =>
    refine total_transferred sender_mem receiver_mem (hpre.wallet_ne hinv.transfers sender_mem) ?_ _
    exact (hpre.sender.2 _ sender_mem rfl).2.trans (hpre.receiver.2 _ receiver_mem rfl).2.symm
  | deleteUser id => exact absurd rfl (ho id)
  | _ => rfl

theorem deposited_eq_of_effect {w w' : World} {i : ℕ} {o : Op} (he : Effect i w o w')
    (hs : ∀ walletId t type change data, o ≠ .settleTransaction walletId t type change data)
    (currency : String) : w'.db.deposited currency = w.db.deposited currency := by
  cases he with
  | settleTransaction => exact absurd rfl (hs _ _ _ _ _)
  | executeTransfer fresh sender_mem receiver_mem enough debit credit event =>
    refine (deposited_append (transfer_rows debit credit) currency).trans ?_
    simp [debitEntry, creditEntry]
  | _ => rfl

/-- A settlement adds the same amount to the wallets and to the deposits of its currency. -/
theorem total_of_settle {w w' : World} {req : Request} {i : ℕ} {walletId : String} {t : Transaction}
    {type : LedgerEntryType} {change : ℤ} {data : OutboxData}
    (hpre : Guarantee req i (.settleTransaction walletId t type change data) w)
    (he : Effect i w (.settleTransaction walletId t type change data) w') (currency : String) :
    w'.db.total currency - w.db.total currency =
      w'.db.deposited currency - w.db.deposited currency := by
  cases he with
  | nothing => exact (sub_self _).trans (sub_self _).symm
  | cache => exact (sub_self _).trans (sub_self _).symm
  | @settleTransaction _ _ _ _ _ _ wallet ledger outbox fresh wallet_mem enough entry event =>
    obtain ⟨-, -, rfl, rfl, -, -⟩ := hpre
    have htotal := total_setBalance wallet_mem (wallet.balance + t.amount) currency
    have hrows : (w.db.settled wallet t t.amount ledger outbox).ledger.rows = _ :=
      (Table.insert?_eq_some entry).2
    have hdeposited := deposited_append hrows currency
    rw [List.map_singleton, List.sum_singleton] at hdeposited
    refine (congrArg₂ (· - ·) htotal rfl).trans (Eq.trans ?_ (congrArg₂ (· - ·) hdeposited rfl).symm)
    simp only [settlementEntry, true_and]
    split <;> omega

theorem conserved_of_effect {w w' : World} {req : Request} {i : ℕ} {o : Op} (hinv : w.Inv)
    (hpre : Guarantee req i o w) (he : Effect i w o w') (ho : ∀ id, o ≠ .deleteUser id)
    (h : w.db.Conserved) : w'.db.Conserved := by
  refine ⟨fun currency => ?_, entries_have_wallets hpre he ho h.wallet⟩
  have hbefore := h.total currency
  by_cases hs : ∃ walletId t type change data, o = .settleTransaction walletId t type change data
  · obtain ⟨walletId, t, type, change, data, rfl⟩ := hs
    have hgain := total_of_settle hpre he currency
    omega
  · have hs' : ∀ walletId t type change data, o ≠ .settleTransaction walletId t type change data :=
      fun walletId t type change data heq => hs ⟨walletId, t, type, change, data, heq⟩
    rw [total_eq_of_effect hinv hpre he ho hs', deposited_eq_of_effect he hs', hbefore]

theorem ReachableBy.conserved (h : ReachableBy registry NoDeletion s) : s.world.db.Conserved := by
  refine h.induction (·.db.Conserved) (fun w hw => ⟨fun currency => ?_, fun e he => ?_⟩) ?_
  · rw [Store.total, Store.deposited, hw.wallets, hw.ledger]
    rfl
  · rw [hw.ledger] at he
    exact absurd he (Table.not_mem_empty e)
  · intro s i ω c o w' hinv hallowed _ hawaits hpre he hc
    refine conserved_of_effect hinv hpre he (fun id hid => ?_) hc
    cases hallowed _ (hid ▸ hawaits)

/-- Money is conserved per currency: what the wallets hold is what was deposited, entries are in the
    currency of their wallet, and no step of a transfer changes what the wallets of a currency hold. -/
theorem conservation (h : ReachableBy registry NoDeletion s) :
    (∀ currency, s.world.db.total currency = s.world.db.deposited currency) ∧
      (∀ e ∈ s.world.db.ledger, ∃ a ∈ s.world.db.wallets, a.id = e.walletId ∧ a.currency = e.currency) ∧
      ∀ i ω s', (server registry).step s i ω = some s' →
        (∃ t fromWalletId toWalletId data,
          s.awaits i = some (.executeTransfer t fromWalletId toWalletId data)) →
        ∀ currency, s'.world.db.total currency = s.world.db.total currency ∧
          s'.world.db.deposited currency = s.world.db.deposited currency := by
  refine ⟨h.conserved.total, h.conserved.wallet, ?_⟩
  rintro i ω s' hstep ⟨t, fromWalletId, toWalletId, data, hawaits⟩ currency
  obtain ⟨c, -, hpre, he⟩ := h.reachable.effect hstep hawaits
  have hs : ∀ walletId t' type change data', Op.executeTransfer t fromWalletId toWalletId data ≠
      .settleTransaction walletId t' type change data' := fun _ _ _ _ _ heq => nomatch heq
  exact ⟨total_eq_of_effect h.reachable.inv hpre he (fun _ heq => nomatch heq) hs currency,
    deposited_eq_of_effect he hs currency⟩

theorem conservation_everyday : ∃ s : State, s.world.db.total "EUR" = 50 ∧
    s.world.db.total "EUR" = s.world.db.deposited "EUR" := by
  have hrun : ((server cardPayments).runUnder NoDeletion everyday ⟨World.fresh adaAndBob, []⟩).map
      (fun s => s.world.db.total "EUR") = some 50 := by
    decide
  obtain ⟨s, hs, htotal⟩ := Option.map_eq_some_iff.mp hrun
  exact ⟨s, htotal, (conservation (reachableBy_of_run hs)).1 "EUR"⟩

end LiorParisWallet
