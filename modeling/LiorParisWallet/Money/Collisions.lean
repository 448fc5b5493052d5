import LiorParisWallet.Money.Agreement

/-!
# Colliding ledger keys

A deposit writes its own key into the ledger and a transfer its key with `:out` and `:in` appended, both
into one unique column.  Whether a settlement or a transfer can commit depends on nothing but whether the
other kind has used the key.
-/

namespace LiorParisWallet

open Async Relational

variable {registry : PaymentGatewayRegistry} {s : State} {w : World}

/-- The operation succeeds. -/
def Commits (i : ℕ) (o : Op) (ω : Choice) (w : World) : Prop :=
  ∃ a w', perform i o ω w = some (.ok a, w')

theorem out_ne_in (k k' : String) : k ++ ":out" ≠ k' ++ ":in" := by
  intro h
  have hlast := congrArg (fun s : String => s.toList.getLast?) h
  simp at hlast

section Insert

variable {α : Type} {i : ℕ} {ω : Choice} {result : Except Err (α × Store)}

/-- Nothing but the database can refuse an insert that gets through. -/
theorem insert_ok_iff (hfresh : ω.uuid ∉ w.issuedIds) (hfault : ω.fault = none) :
    (∃ a w', w.insert i ω result = some (.ok a, w')) ↔ ∃ a db, result = .ok (a, db) := by
  unfold World.insert
  rw [if_neg hfresh, hfault]
  cases result with
  | error e => exact ⟨nofun, nofun⟩
  | ok r => exact ⟨fun _ => ⟨r.1, r.2, rfl⟩, fun _ => ⟨r.1, _, rfl⟩⟩

theorem ok_of_insert_ok {a : α} {w' : World} (h : w.insert i ω result = some (.ok a, w')) :
    ∃ db, result = .ok (a, db) := by
  rcases insert_eq_some h with ⟨-, hr⟩ | ⟨a', db, hr, ha, -⟩
  · exact absurd rfl (hr a)
  · cases ha
    exact ⟨db, hr⟩

end Insert

/-- A key that an entry has cannot be inserted again, and any other can. -/
theorem ledger_insert_isSome {ledger : Table LedgerEntry} {e : LedgerEntry} :
    (∃ ledger', ledger.insert? e = some ledger') ↔
      ∀ e' ∈ ledger, e'.idempotencyKey ≠ e.idempotencyKey := by
  rw [← Option.isSome_iff_exists, Table.insert?_isSome]
  exact forall₂_congr fun e' _ => beq_eq_false_iff_ne

theorem not_commits_settle {i : ℕ} {ω : Choice} {walletId : String} {t : Transaction}
    {type : LedgerEntryType} {change : ℤ} {data : OutboxData} {e : LedgerEntry}
    (he : e ∈ w.db.ledger) (hkey : e.idempotencyKey = t.idempotencyKey) :
    ¬ Commits i (.settleTransaction walletId t type change data) ω w := by
  rintro ⟨entry, w', h⟩
  obtain ⟨db, hok⟩ := ok_of_insert_ok h
  obtain ⟨wallet, -, -, -, rfl, ledger, outbox, hinsert, -⟩ := settleTransaction_eq_ok.mp hok
  exact ledger_insert_isSome.mp ⟨ledger, hinsert⟩ e he hkey

theorem not_commits_transfer {i : ℕ} {ω : Choice} {fromWalletId toWalletId : String} {t : Transfer}
    {data : OutboxData} {e : LedgerEntry} (he : e ∈ w.db.ledger)
    (hkey : e.idempotencyKey = t.idempotencyKey ++ ":out" ∨
      e.idempotencyKey = t.idempotencyKey ++ ":in") :
    ¬ Commits i (.executeTransfer t fromWalletId toWalletId data) ω w := by
  rintro ⟨_, w', h⟩
  obtain ⟨db, hok⟩ := ok_of_insert_ok h
  obtain ⟨sender, receiver, -, -, -, ledger₁, ledger, outbox, hdebit, hcredit, -⟩ :=
    executeTransfer_eq_ok.mp hok
  rcases hkey with hkey | hkey
  · exact ledger_insert_isSome.mp ⟨ledger₁, hdebit⟩ e he hkey
  · exact ledger_insert_isSome.mp ⟨ledger, hcredit⟩ e ((Table.mem_insert? hdebit).mpr (.inl he)) hkey

/-- A key of the ledger is the key of a credited deposit, or one of the keys of a completed transfer. -/
theorem ledger_key_origin (hinv : w.Inv) {e : LedgerEntry} (he : e ∈ w.db.ledger) :
    (∃ t ∈ w.db.transactions, t.status ≠ .pending ∧ e.type = .deposit ∧
        e.idempotencyKey = t.idempotencyKey) ∨
      ∃ t ∈ w.db.transfers, t.status = .completed ∧
        (e.type = .transferOut ∧ e.idempotencyKey = t.idempotencyKey ++ ":out" ∨
          e.type = .transferIn ∧ e.idempotencyKey = t.idempotencyKey ++ ":in") := by
  cases htype : e.type with
  | deposit =>
    obtain ⟨t, ht, hcredits, hstatus, -⟩ := hinv.deposits.credited e he htype
    exact .inl ⟨t, ht, hstatus, rfl, hcredits.key⟩
  | transferOut =>
    obtain ⟨t, ht, hstatus, hside⟩ := hinv.transfers.sent e he htype
    exact .inr ⟨t, ht, hstatus, .inl ⟨rfl, hside.key⟩⟩
  | transferIn =>
    obtain ⟨t, ht, hstatus, hside⟩ := hinv.transfers.received e he htype
    exact .inr ⟨t, ht, hstatus, .inr ⟨rfl, hside.key⟩⟩

theorem commits_settle_iff (hinv : w.Inv) {t : Transaction} (ht : t ∈ w.db.transactions)
    (hpending : t.status = .pending) {a : Wallet} (ha : a ∈ w.db.wallets) {ω : Choice}
    (hfresh : ω.uuid ∉ w.issuedIds) (hfault : ω.fault = none) (i : ℕ) (data : OutboxData) :
    Commits i (.settleTransaction a.id t .deposit t.amount data) ω w ↔
      ¬ ∃ k ∈ w.db.transfers, k.status = .completed ∧
        (t.idempotencyKey = k.idempotencyKey ++ ":out" ∨
          t.idempotencyKey = k.idempotencyKey ++ ":in") := by
  constructor
  · rintro hcommits ⟨k, hk, hstatus, hkey⟩
    obtain ⟨⟨e₁, he₁, hsent⟩, ⟨e₂, he₂, hreceived⟩, -⟩ := hinv.transfers.completed k hk hstatus
    rcases hkey with hkey | hkey
    · exact not_commits_settle he₁ (hsent.key.trans hkey.symm) hcommits
    · exact not_commits_settle he₂ (hreceived.key.trans hkey.symm) hcommits
  · intro hnone
    have hnokey : ∀ e ∈ w.db.ledger, e.idempotencyKey ≠ t.idempotencyKey := by
      intro e he hkey
      rcases ledger_key_origin hinv he with ⟨t', ht', hs', -, hkey'⟩ | ⟨k, hk, hs', hkey'⟩
      · rw [Transaction.eq_of_key ht' ht (hkey'.symm.trans hkey)] at hs'
        exact hs' hpending
      · refine hnone ⟨k, hk, hs', ?_⟩
        rw [← hkey]
        exact hkey'.imp And.right And.right
    have hnonneg : 0 ≤ a.balance + t.amount := by
      have := (hinv.replays a ha).closing_nonneg le_rfl
      have := hinv.deposits.amount_min t ht
      omega
    obtain ⟨ledger, hledger⟩ := ledger_insert_isSome
      (e := settlementEntry a t .deposit t.amount) |>.mpr hnokey
    obtain ⟨outbox, houtbox⟩ : ∃ outbox, w.db.outbox.insert? (data.create ω.uuid ω.now) = some outbox :=
      hinv.ids.insert_outbox hfresh
    exact (insert_ok_iff hfresh hfault).mpr ⟨_, _, settleTransaction_eq_ok.mpr
      ⟨a, ha, rfl, hnonneg, rfl, ledger, outbox, hledger, houtbox, rfl⟩⟩

theorem commits_transfer_iff (hinv : w.Inv) {k : Transfer} (hk : k ∈ w.db.transfers)
    (hstatus : k.status ≠ .completed) {sender receiver : Wallet} (hs : sender ∈ w.db.wallets)
    (hr : receiver ∈ w.db.wallets) (henough : k.amount ≤ sender.balance) {ω : Choice}
    (hfresh : ω.uuid ∉ w.issuedIds) (hfault : ω.fault = none) (i : ℕ) (data : OutboxData) :
    Commits i (.executeTransfer k sender.id receiver.id data) ω w ↔
      ¬ ∃ e ∈ w.db.ledger, e.type = .deposit ∧
        (e.idempotencyKey = k.idempotencyKey ++ ":out" ∨
          e.idempotencyKey = k.idempotencyKey ++ ":in") := by
  constructor
  · rintro hcommits ⟨e, he, -, hkey⟩
    exact not_commits_transfer he hkey hcommits
  · intro hnone
    have hnokey : ∀ e ∈ w.db.ledger, e.idempotencyKey ≠ k.idempotencyKey ++ ":out" ∧
        e.idempotencyKey ≠ k.idempotencyKey ++ ":in" := by
      intro e he
      by_contra hkey
      have hkey : e.idempotencyKey = k.idempotencyKey ++ ":out" ∨
          e.idempotencyKey = k.idempotencyKey ++ ":in" := by
        rw [not_and_or, not_ne_iff, not_ne_iff] at hkey
        exact hkey
      rcases ledger_key_origin hinv he with ⟨-, -, -, htype, -⟩ | ⟨k', hk', hs', hkey'⟩
      · exact hnone ⟨e, he, htype, hkey⟩
      · -- the suffix tells the side, and then the key tells the transfer
        have hkk : k'.idempotencyKey = k.idempotencyKey := by
          rcases hkey' with ⟨-, h'⟩ | ⟨-, h'⟩ <;> rcases hkey with h | h <;>
            rw [h] at h'
          · exact append_suffix_cancel h'.symm
          · exact absurd h'.symm (out_ne_in _ _)
          · exact absurd h' (out_ne_in _ _)
          · exact append_suffix_cancel h'.symm
        rw [Transfer.eq_of_key hk' hk hkk] at hs'
        exact hstatus hs'
    obtain ⟨ledger₁, hdebit⟩ := ledger_insert_isSome (e := debitEntry sender k) |>.mpr
      fun e he => (hnokey e he).1
    obtain ⟨ledger, hcredit⟩ := ledger_insert_isSome (e := creditEntry receiver k) |>.mpr
      fun e he => show e.idempotencyKey ≠ k.idempotencyKey ++ ":in" by
        rcases (Table.mem_insert? hdebit).mp he with he | rfl
        · exact (hnokey e he).2
        · exact out_ne_in _ _
    obtain ⟨outbox, houtbox⟩ : ∃ outbox, w.db.outbox.insert? (data.create ω.uuid ω.now) = some outbox :=
      hinv.ids.insert_outbox hfresh
    exact (insert_ok_iff hfresh hfault).mpr ⟨(), _, executeTransfer_eq_ok.mpr
      ⟨sender, receiver, findWallet_eq_some.mpr ⟨hs, rfl⟩, findWallet_eq_some.mpr ⟨hr, rfl⟩,
        by omega, ledger₁, ledger, outbox, hdebit, hcredit, houtbox, rfl⟩⟩

/-- In every reachable state, and where the store gets through, a `PENDING` deposit whose wallet exists
    can be settled if and only if its key is not the key of a completed transfer with `:out` or `:in`
    appended; and a transfer that has not happened, whose wallets exist and whose sender has enough,
    commits if and only if no deposit entry has its key with `:out` or `:in` appended. -/
theorem ledger_keys_collide_iff (h : Reachable registry s) {ω : Choice}
    (hfresh : ω.uuid ∉ s.world.issuedIds) (hfault : ω.fault = none) (i : ℕ) (data : OutboxData) :
    (∀ t ∈ s.world.db.transactions, t.status = .pending →
      ∀ a ∈ s.world.db.wallets, a.userId = t.userId → a.currency = t.currency →
        (Commits i (.settleTransaction a.id t .deposit t.amount data) ω s.world ↔
          ¬ ∃ k ∈ s.world.db.transfers, k.status = .completed ∧
            (t.idempotencyKey = k.idempotencyKey ++ ":out" ∨
              t.idempotencyKey = k.idempotencyKey ++ ":in"))) ∧
    ∀ k ∈ s.world.db.transfers, k.status ≠ .completed →
      ∀ sender ∈ s.world.db.wallets, sender.userId = k.fromUserId → sender.currency = k.currency →
      ∀ receiver ∈ s.world.db.wallets, receiver.userId = k.toUserId →
        receiver.currency = k.currency → k.amount ≤ sender.balance →
        (Commits i (.executeTransfer k sender.id receiver.id data) ω s.world ↔
          ¬ ∃ e ∈ s.world.db.ledger, e.type = .deposit ∧
            (e.idempotencyKey = k.idempotencyKey ++ ":out" ∨
              e.idempotencyKey = k.idempotencyKey ++ ":in")) :=
  ⟨fun _ ht hpending _ ha _ _ => commits_settle_iff h.inv ht hpending ha hfresh hfault i data,
    fun _ hk hstatus _ hs _ _ _ hr _ _ henough =>
      commits_transfer_iff h.inv hk hstatus hs hr henough hfresh hfault i data⟩

theorem ledger_keys_collide_iff_topup : ∃ (s : State) (t : Transaction) (a : Wallet),
    t ∈ s.world.db.transactions ∧ a ∈ s.world.db.wallets ∧ ∀ i data,
      Commits i (.settleTransaction a.id t .deposit t.amount data) { uuid := "e1" } s.world := by
  have hrun : ((server cardPayments).run (openWallet 0 "u1" "Ada" "w1" ++
      payIn 1 "u1" topup "t1" "cs1")
      ⟨World.fresh adaAndBob, []⟩).map
      (fun s => (s.world.db.transactions.rows.head?, s.world.db.wallets.rows.head?,
        s.world.db.transfers.rows, s.world.issuedIds)) =
      some (some ⟨"t1", "u1", .deposit, 50, "EUR", "stripe", .pending, "topup", some "cs1", none⟩,
        some ⟨"w1", "u1", 0, "EUR", "ada-0000"⟩, [], ["t1", "w1"]) := by
    decide
  obtain ⟨s, hs, hrun⟩ := Option.map_eq_some_iff.mp hrun
  obtain ⟨ht, ha, htransfers, hissued⟩ :=
    Prod.mk.inj hrun |>.imp_right fun h => Prod.mk.inj h |>.imp_right Prod.mk.inj
  have ht := List.mem_of_head? ht
  have ha := List.mem_of_head? ha
  refine ⟨s, _, _, ht, ha, fun i data => ?_⟩
  refine ((ledger_keys_collide_iff (reachable_of_run hs) (by rw [hissued]; decide) rfl i data).1 _ ht
    rfl _ ha rfl rfl).mpr ?_
  rintro ⟨k, hk, -⟩
  rw [Table.mem_def, htransfers] at hk
  cases hk

/-- After the transfer with the key `rent`, Bob pays in 30 with the key `rent:out`. -/
def rentOut : List (Label Request Choice) :=
  everyday ++ payIn 5 "u2" (euros 30 (by decide) "rent:out" (by decide)) "t2" "cs2"

/-- Bob's deposit is `PENDING`, his wallet exists and nothing was credited, but whatever happens the
    settlement cannot commit. -/
theorem paid_deposit_cannot_settle : ∃ s t a, Reachable cardPayments s ∧
    t ∈ s.world.db.transactions ∧ t.status = .pending ∧ t.providerRef = some "cs2" ∧
    a ∈ s.world.db.wallets ∧ a.userId = t.userId ∧ a.currency = t.currency ∧
    (∀ e ∈ s.world.db.ledger, e.type = .deposit → e.idempotencyKey ≠ t.idempotencyKey) ∧
    ∀ i data ω, ¬ Commits i (.settleTransaction a.id t .deposit t.amount data) ω s.world := by
  have hrun : ((server cardPayments).run rentOut ⟨World.fresh adaAndBob, []⟩).map
      (fun s => (s.world.db.transactions.rows.getLast?, s.world.db.wallets.rows.getLast?,
        s.world.db.ledger.rows)) =
      some (some ⟨"t2", "u2", .deposit, 30, "EUR", "stripe", .pending, "rent:out", some "cs2", none⟩,
        some ⟨"w2", "u2", 20, "EUR", "bob-0000"⟩,
        [⟨"w1", .deposit, 50, "EUR", 50, "topup"⟩, ⟨"w1", .transferOut, 20, "EUR", 30, "rent:out"⟩,
          ⟨"w2", .transferIn, 20, "EUR", 20, "rent:in"⟩]) := by
    decide
  obtain ⟨s, hs, hrun⟩ := Option.map_eq_some_iff.mp hrun
  obtain ⟨ht, ha, hledger⟩ := Prod.mk.inj hrun |>.imp_right Prod.mk.inj
  refine ⟨s, _, _, reachable_of_run hs, List.mem_of_getLast? ht, rfl, rfl, List.mem_of_getLast? ha,
    rfl, rfl, fun e he htype => ?_, fun i data ω => ?_⟩
  · rw [Table.mem_def, hledger] at he
    simp only [List.mem_cons, List.not_mem_nil, or_false] at he
    rcases he with rfl | rfl | rfl
    · decide
    · cases htype
    · cases htype
  · have he : ⟨"w1", .transferOut, 20, "EUR", 30, "rent:out"⟩ ∈ s.world.db.ledger := by
      rw [Table.mem_def, hledger]
      decide
    exact not_commits_settle he rfl

end LiorParisWallet
