import LiorParisWallet.Async.Contract
import LiorParisWallet.Money.Guarantee

/-!
# The invariant is kept

Every operation that a call performs under its guarantee keeps the invariant.  Each part of it is framed
by growth for the operations that write none of its rows, which leaves one or two operations to each.
-/

namespace LiorParisWallet

open Relational Accounting

section

variable {w w' : World} {req : Request} {i : ℕ} {o : Op}

/-! ## Ids -/

theorem World.Ids.issue (h : w.Ids) {id : String} (fresh : id ∉ w.issuedIds) :
    World.Ids { w with issued := (id, i) :: w.issued } where
  nodup := List.nodup_cons.mpr ⟨fresh, h.nodup⟩
  wallets a ha := List.mem_cons_of_mem _ (h.wallets a ha)
  transactions t ht := List.mem_cons_of_mem _ (h.transactions t ht)
  transfers t ht := List.mem_cons_of_mem _ (h.transfers t ht)
  outbox ev hev := List.mem_cons_of_mem _ (h.outbox ev hev)
  ledger e he := List.mem_cons_of_mem _ (h.ledger e he)

theorem ids_of_effect (h : w.Ids) (he : Effect i w o w') : w'.Ids := by
  cases he with
  | saveWallet fresh user inserted =>
    refine { h.issue fresh with wallets := fun a ha => ?_ }
    rcases (Table.mem_insert? inserted).mp ha with ha | rfl
    · exact List.mem_cons_of_mem _ (h.wallets a ha)
    · exact List.mem_cons_self
  | createTransaction fresh inserted =>
    refine { h.issue fresh with transactions := fun t ht => ?_ }
    rcases (Table.mem_insert? inserted).mp ht with ht | rfl
    · exact List.mem_cons_of_mem _ (h.transactions t ht)
    · exact List.mem_cons_self
  | createTransfer fresh inserted =>
    refine { h.issue fresh with transfers := fun t ht => ?_ }
    rcases (Table.mem_insert? inserted).mp ht with ht | rfl
    · exact List.mem_cons_of_mem _ (h.transfers t ht)
    · exact List.mem_cons_self
  | createUser fresh inserted => exact { h.issue fresh with }
  | updateTransactionProviderRef id ref =>
    refine { h with transactions := fun t ht => ?_ }
    obtain ⟨t', ht', rfl⟩ := mem_updateTransactionProviderRef.mp ht
    split <;> exact h.transactions t' ht'
  | failTransaction t reason =>
    refine { h with transactions := fun t ht => ?_ }
    obtain ⟨t', ht', rfl⟩ := mem_failTransaction.mp ht
    split <;> exact h.transactions t' ht'
  | settleTransaction fresh wallet_mem enough entry event =>
    refine { h.issue fresh with
      wallets := ?_, transactions := fun t ht => ?_
      outbox := fun ev hev => ?_, ledger := fun e he => ?_ }
    · exact forall_setBalance (fun a ha => List.mem_cons_of_mem _ (h.wallets a ha)) fun _ hid => hid
    · obtain ⟨t', ht', rfl⟩ := mem_completeTransaction.mp ht
      split <;> exact List.mem_cons_of_mem _ (h.transactions t' ht')
    · rcases (Table.mem_insert? event).mp hev with hev | rfl
      · exact List.mem_cons_of_mem _ (h.outbox ev hev)
      · exact List.mem_cons_self
    · rcases (Table.mem_insert? entry).mp he with he | rfl
      · exact List.mem_cons_of_mem _ (h.ledger e he)
      · exact List.mem_cons_of_mem _ (h.wallets _ wallet_mem)
  | executeTransfer fresh sender_mem receiver_mem enough debit credit event =>
    refine { h.issue fresh with
      wallets := ?_, transfers := fun t ht => ?_
      outbox := fun ev hev => ?_, ledger := fun e he => ?_ }
    · refine forall_setBalance (forall_setBalance (fun a ha => ?_) fun _ hid => hid) fun _ hid => hid
      exact List.mem_cons_of_mem _ (h.wallets a ha)
    · obtain ⟨t', ht', rfl⟩ := mem_completeTransfer.mp ht
      split <;> exact List.mem_cons_of_mem _ (h.transfers t' ht')
    · rcases (Table.mem_insert? event).mp hev with hev | rfl
      · exact List.mem_cons_of_mem _ (h.outbox ev hev)
      · exact List.mem_cons_self
    · rcases (Table.mem_insert? credit).mp he with he | rfl
      · rcases (Table.mem_insert? debit).mp he with he | rfl
        · exact List.mem_cons_of_mem _ (h.ledger e he)
        · exact List.mem_cons_of_mem _ (h.wallets _ sender_mem)
      · exact List.mem_cons_of_mem _ (h.wallets _ receiver_mem)
  | deleteUser id =>
    exact { h with wallets := fun a ha => h.wallets a (Table.mem_delete.mp ha).1 }
  | _ => exact { h with }

/-! ## Balances -/

/-- Posting an entry on a wallet: its balance becomes the one that the entry states. -/
theorem Replays.post {db : Store} {entries : List LedgerEntry} {wallet : Wallet} {e : LedgerEntry}
    (h : Replays db.wallets entries) (hmem : wallet ∈ db.wallets) (hid : e.walletId = wallet.id)
    (hafter : e.balanceAfter = wallet.balance + e.change) (hnn : 0 ≤ e.balanceAfter) :
    Replays (db.setBalance wallet.id e.balanceAfter).wallets (entries ++ [e]) := by
  intro a ha
  obtain ⟨b, hb, rfl⟩ := mem_setBalance.mp ha
  by_cases hbid : b.id = wallet.id
  · obtain rfl := Wallet.eq_of_id hb hmem hbid
    rw [if_pos (beq_self_eq_true _), List.filter_append, List.filter_cons_of_pos (by simp [hid]),
      List.filter_nil]
    exact (h b hb).concat hafter hnn
  · rw [if_neg (by simpa using hbid), List.filter_append,
      List.filter_cons_of_neg (by simp [hid, Ne.symm hbid]), List.filter_nil, List.append_nil]
    exact h b hb

/-- The two wallets of a transfer have different owners. -/
theorem World.MayTransfer.wallet_ne {t : Transfer} {sender receiver : Wallet} {data : OutboxData}
    (h : w.MayTransfer i t sender.id receiver.id data) (htransfers : w.Transfers)
    (hs : sender ∈ w.db.wallets) : receiver.id ≠ sender.id := by
  intro heq
  refine htransfers.users t h.stored ?_
  rw [← (h.sender.2 sender hs rfl).1, ← (h.receiver.2 sender hs heq.symm).1]

theorem replays_of_effect (h : w.Inv) (hpre : Guarantee req i o w) (he : Effect i w o w') :
    Replays w'.db.wallets w'.db.ledger.rows := by
  cases he with
  | @saveWallet data id _ fresh user inserted =>
    intro a ha
    rcases (Table.mem_insert? inserted).mp ha with ha | rfl
    · exact h.replays a ha
    · -- no entry can be on a wallet whose id was not there
      have hnone : w.db.ledger.rows.filter (·.walletId == id) = [] := by
        refine List.filter_eq_nil_iff.mpr fun e he heq => fresh ?_
        rw [← beq_iff_eq.mp heq]
        exact h.ids.ledger e he
      exact hnone ▸ hpre
  | @settleTransaction t _ _ _ _ _ wallet _ _ fresh wallet_mem enough entry event =>
    obtain ⟨-, -, rfl, rfl, -, -⟩ := hpre
    have hposted := h.replays.post wallet_mem
      (show (settlementEntry wallet t .deposit t.amount).walletId = wallet.id from rfl) rfl enough
    rw [← (Table.insert?_eq_some entry).2] at hposted
    exact hposted
  | @executeTransfer t _ _ _ sender receiver _ _ _ fresh sender_mem receiver_mem enough debit credit =>
    -- the debit is posted first; the receiver is another wallet, so its balance is still the one read
    have hne := hpre.wallet_ne h.transfers sender_mem
    have hamount := h.transfers.amount_min t hpre.stored
    have hreceiver := (h.replays receiver receiver_mem).closing_nonneg le_rfl
    have hsent := h.replays.post sender_mem
      (show (debitEntry sender t).walletId = sender.id from rfl) (sub_eq_add_neg _ _) enough
    have hstays : receiver ∈ (w.db.setBalance sender.id (sender.balance - t.amount)).wallets :=
      mem_setBalance.mpr ⟨receiver, receiver_mem, if_neg (by simpa using hne)⟩
    have hboth := hsent.post hstays
      (show (creditEntry receiver t).walletId = receiver.id from rfl) rfl
      (show 0 ≤ receiver.balance + t.amount by omega)
    rw [List.append_assoc, List.singleton_append, ← transfer_rows debit credit] at hboth
    exact hboth
  | deleteUser id => exact fun a ha => h.replays a (Table.mem_delete.mp ha).1
  | _ => exact h.replays

/-! ## Deposits -/

theorem World.mem_depositEntries {e : LedgerEntry} :
    e ∈ w.depositEntries ↔ e ∈ w.db.ledger ∧ e.type = .deposit := by
  rw [World.depositEntries, List.mem_filter, beq_iff_eq]
  exact Iff.rfl

theorem World.mem_eventsNamed {name : DomainEventName} {ev : OutboxEvent} :
    ev ∈ w.eventsNamed name ↔ ev ∈ w.db.outbox ∧ ev.eventName = name := by
  rw [World.eventsNamed, List.mem_filter, beq_iff_eq]
  exact Iff.rfl

/-- The deposits are framed when no deposit is completed. -/
theorem World.Deposits.frame (h : w.Deposits) (hg : Grows w w')
    (htransactions : ∀ t' ∈ w'.db.transactions,
      (∃ t ∈ w.db.transactions, t'.core = t.core ∧ (t'.status = .completed → t.status = .completed)) ∨
        1 ≤ t'.amount ∧ t'.status = .pending)
    (hentries : w'.depositEntries = w.depositEntries)
    (hevents : w'.eventsNamed .depositSucceeded = w.eventsNamed .depositSucceeded) :
    w'.Deposits where
  amount_min t' ht' := by
    rcases htransactions t' ht' with ⟨t, ht, hc, -⟩ | ⟨hmin, -⟩
    · rw [Transaction.core_amount hc]
      exact h.amount_min t ht
    · exact hmin
  credited e he htype := by
    have he' := World.mem_depositEntries.mpr ⟨he, htype⟩
    rw [hentries] at he'
    obtain ⟨t, ht, hcredits, hstatus, ref, href⟩ :=
      h.credited e (World.mem_depositEntries.mp he').1 htype
    obtain ⟨t', ht', hl⟩ := hg.transactions t ht
    exact ⟨t', ht', hcredits.mono hg hl.core, hl.settled hstatus, ref, hl.providerRef ref href⟩
  completed t' ht' hstatus := by
    rcases htransactions t' ht' with ⟨t, ht, hc, hcompleted⟩ | ⟨-, hpending⟩
    · obtain ⟨e, he, htype, hk⟩ := hg.credited (h.completed t ht (hcompleted hstatus))
      exact ⟨e, he, htype, hk.trans (Transaction.core_key hc).symm⟩
    · rw [hpending] at hstatus
      cases hstatus
  notified := by
    rw [hentries, hevents]
    exact h.notified.imp fun _ _ hn => hn.mono hg

theorem deposits_of_settle (h : w.Deposits) (hg : Grows w w') {t : Transaction} {wallet : Wallet}
    {data : OutboxData} {id : String} {now : ℕ} {ledger : Table LedgerEntry}
    {outbox : Table OutboxEvent} (hwallet : wallet ∈ w.db.wallets)
    (hpre : w.MaySettle wallet.id t .deposit t.amount data)
    (hentry : w.db.ledger.insert? (settlementEntry wallet t .deposit t.amount) = some ledger)
    (hevent : w.db.outbox.insert? (data.create id now) = some outbox)
    (hdb : w'.db = w.db.settled wallet t t.amount ledger outbox) : w'.Deposits := by
  obtain ⟨⟨t₀, ht₀, hcore, hknown⟩, ⟨ref, href⟩, -, -, hwalletOf, userEmail, now', rfl⟩ := hpre
  have hcurrency : wallet.currency = t.currency := (hwalletOf.2 wallet hwallet rfl).2
  have htransactions : w'.db.transactions = (w.db.completeTransaction t.id).transactions := by
    rw [hdb]; rfl
  have hledger : w'.db.ledger = ledger := by rw [hdb]; rfl
  have houtbox : w'.db.outbox = outbox := by rw [hdb]; rfl
  have hnew : settlementEntry wallet t .deposit t.amount ∈ w'.db.ledger := by
    rw [hledger]
    exact (Table.mem_insert? hentry).mpr (.inr rfl)
  -- the row that was read is still there, and is the one that is completed
  have hrow : { t₀ with status := .completed } ∈ w'.db.transactions := by
    rw [htransactions]
    exact mem_completeTransaction.mpr
      ⟨t₀, ht₀, if_pos (beq_iff_eq.mpr (Transaction.core_id hcore))⟩
  have hcredits : w'.Credits { t₀ with status := .completed }
      (settlementEntry wallet t .deposit t.amount) := by
    refine World.Credits.mono (t := t) ⟨rfl, rfl, hcurrency, hwalletOf⟩ hg ?_
    exact hcore
  refine ⟨fun t' ht' => ?_, fun e he htype => ?_, fun t' ht' hstatus => ?_, ?_⟩
  · rw [htransactions] at ht'
    obtain ⟨t₁, ht₁, rfl⟩ := mem_completeTransaction.mp ht'
    split <;> exact h.amount_min t₁ ht₁
  · rw [hledger] at he
    rcases (Table.mem_insert? hentry).mp he with he | rfl
    · obtain ⟨t₁, ht₁, hc₁, hs₁, ref₁, hr₁⟩ := h.credited e he htype
      obtain ⟨t', ht', hl⟩ := hg.transactions t₁ ht₁
      exact ⟨t', ht', hc₁.mono hg hl.core, hl.settled hs₁, ref₁, hl.providerRef ref₁ hr₁⟩
    · exact ⟨_, hrow, hcredits, nofun, ref, hknown ref href⟩
  · rw [htransactions] at ht'
    obtain ⟨t₁, ht₁, rfl⟩ := mem_completeTransaction.mp ht'
    by_cases hid : t₁.id = t.id
    · obtain rfl := Transaction.eq_of_id ht₁ ht₀ (hid.trans (Transaction.core_id hcore).symm)
      rw [if_pos (beq_iff_eq.mpr hid)]
      exact ⟨_, hnew, rfl, (Transaction.core_key hcore).symm⟩
    · rw [if_neg (by simpa using hid)] at hstatus ⊢
      exact hg.credited (h.completed t₁ ht₁ hstatus)
  · have hentries : w'.depositEntries =
        w.depositEntries ++ [settlementEntry wallet t .deposit t.amount] := by
      rw [World.depositEntries, hledger, (Table.insert?_eq_some hentry).2, List.filter_append]
      rfl
    have hevents : w'.eventsNamed .depositSucceeded = w.eventsNamed .depositSucceeded ++
        [(buildOutboxPayload .depositSucceeded wallet.id t.userId t.amount t.currency userEmail
          now').create id now] := by
      rw [World.eventsNamed, houtbox, (Table.insert?_eq_some hevent).2, List.filter_append]
      rfl
    rw [hentries, hevents]
    refine List.rel_append (h.notified.imp fun _ _ hn => hn.mono hg) (.cons ?_ .nil)
    exact
      { aggregateId := rfl
        walletId := rfl
        amount := rfl
        currency := by rw [settlementEntry, hcurrency]; rfl
        user := ⟨_, hrow, Transaction.core_key hcore, by rw [← Transaction.core_userId hcore]; rfl⟩ }

theorem deposits_of_effect (h : w.Deposits) (hg : Grows w w') (hpre : Guarantee req i o w)
    (he : Effect i w o w') : w'.Deposits := by
  cases he with
  | createTransaction fresh inserted =>
    obtain ⟨userId, input, -, rfl⟩ := hpre
    refine h.frame hg (fun t' ht' => ?_) rfl rfl
    rcases (Table.mem_insert? inserted).mp ht' with ht' | rfl
    · exact .inl ⟨t', ht', rfl, fun hs => hs⟩
    · exact .inr ⟨input.amount_min, rfl⟩
  | updateTransactionProviderRef id ref =>
    refine h.frame hg (fun t' ht' => ?_) rfl rfl
    obtain ⟨t, ht, rfl⟩ := mem_updateTransactionProviderRef.mp ht'
    exact .inl ⟨t, ht, by split <;> exact ⟨rfl, fun hs => hs⟩⟩
  | failTransaction t₀ reason =>
    refine h.frame hg (fun t' ht' => ?_) rfl rfl
    obtain ⟨t, ht, rfl⟩ := mem_failTransaction.mp ht'
    refine .inl ⟨t, ht, ?_⟩
    split
    · exact ⟨rfl, nofun⟩
    · exact ⟨rfl, fun hs => hs⟩
  | settleTransaction fresh wallet_mem enough entry event =>
    obtain ⟨-, -, rfl, rfl, -, -⟩ := id hpre
    exact deposits_of_settle h hg wallet_mem hpre entry event rfl
  | executeTransfer fresh sender_mem receiver_mem enough debit credit event =>
    obtain ⟨-, -, -, -, -, _, _, _, _, rfl⟩ := hpre
    refine h.frame hg (fun t ht => .inl ⟨t, ht, rfl, fun hs => hs⟩) ?_ ?_
    · show List.filter _ _ = _
      rw [show (Store.ledger _).rows = _ from transfer_rows debit credit, List.filter_append]
      exact List.append_nil _
    · show List.filter _ _ = _
      rw [show (Store.outbox _).rows = _ from (Table.insert?_eq_some event).2, List.filter_append]
      exact List.append_nil _
  | _ => exact h.frame hg (fun t ht => .inl ⟨t, ht, rfl, fun hs => hs⟩) rfl rfl

/-! ## Payments -/

/-- The payments are framed when none is made and no reference is stored. -/
theorem World.Payments.frame (h : w.Payments) (hg : Grows w w') (hpayments : w'.payments = w.payments)
    (hrefs : ∀ t' ∈ w'.db.transactions, ∀ ref, t'.providerRef = some ref →
      ∃ t ∈ w.db.transactions, t.id = t'.id ∧ t.providerRef = some ref) : w'.Payments where
  made p hp := by
    rw [hpayments] at hp
    obtain ⟨t, ht, hid, hu, ha, hc, hown⟩ := h.made p hp
    obtain ⟨t', ht', hl⟩ := hg.transactions t ht
    rw [← Transaction.core_id hl.core] at hid hown
    exact ⟨t', ht', hid, (Transaction.core_userId hl.core).trans hu,
      (Transaction.core_amount hl.core).trans ha, (Transaction.core_currency hl.core).trans hc,
      hg.issued _ hown⟩
  recorded t' ht' ref href := by
    obtain ⟨t, ht, hid, hr⟩ := hrefs t' ht' ref href
    rw [hpayments, ← hid]
    exact h.recorded t ht ref hr
  transactionIds := by rw [hpayments]; exact h.transactionIds
  providerRefs := by rw [World.providerRefs, hpayments]; exact h.providerRefs

theorem payments_of_effect (h : w.Payments) (hg : Grows w w') (hpre : Guarantee req i o w)
    (he : Effect i w o w') : w'.Payments := by
  cases he with
  | createTransaction fresh inserted =>
    refine h.frame hg rfl fun t' ht' ref href => ?_
    rcases (Table.mem_insert? inserted).mp ht' with ht' | rfl
    · exact ⟨t', ht', rfl, href⟩
    · cases href
  | updateTransactionProviderRef id ref =>
    -- the reference that is stored is the one of the payment that was made for the row
    obtain ⟨t₀, hown, -, rfl, p, hp, hid, href⟩ := hpre
    have hmade : ∀ q ∈ w.payments, ∃ t' ∈ (w.db.updateTransactionProviderRef t₀.id ref).transactions,
        t'.id = q.transactionId ∧ t'.userId = q.userId ∧ t'.amount = q.amount ∧
          t'.currency = q.currency ∧ (t'.id, q.call) ∈ w.issued := by
      intro q hq
      obtain ⟨t, ht, hrest⟩ := h.made q hq
      exact ⟨_, mem_updateTransactionProviderRef.mpr ⟨t, ht, rfl⟩, by split <;> exact hrest⟩
    refine { h with made := hmade, recorded := fun t' ht' ref' href' => ?_ }
    obtain ⟨t, ht, rfl⟩ := mem_updateTransactionProviderRef.mp ht'
    by_cases hid' : t.id = t₀.id
    · rw [if_pos (beq_iff_eq.mpr hid')] at href' ⊢
      cases href'
      exact ⟨p, hp, hid.trans hid'.symm, href⟩
    · rw [if_neg (by simpa using hid')] at href' ⊢
      exact h.recorded t ht ref' href'
  | failTransaction t₀ reason =>
    refine h.frame hg rfl fun t' ht' ref href => ?_
    obtain ⟨t, ht, rfl⟩ := mem_failTransaction.mp ht'
    exact ⟨t, ht, by split <;> rfl, by split at href <;> exact href⟩
  | settleTransaction fresh wallet_mem enough entry event =>
    refine h.frame hg rfl fun t' ht' ref href => ?_
    obtain ⟨t, ht, rfl⟩ := mem_completeTransaction.mp ht'
    exact ⟨t, ht, by split <;> rfl, by split at href <;> exact href⟩
  | processDeposit p caller fresh =>
    obtain ⟨t, hown, hid, hu, ha, hc, hnone⟩ := hpre
    refine
      { made := fun q hq => ?_
        recorded := fun t ht ref href => ?_
        transactionIds := ?_
        providerRefs := ?_ }
    · rcases List.mem_append.mp hq with hq | hq
      · exact h.made q hq
      · obtain rfl := List.mem_singleton.mp hq
        exact ⟨t, hown.stored, hid, hu, ha, hc, caller ▸ hown.own⟩
    · obtain ⟨q, hq, hrest⟩ := h.recorded t ht ref href
      exact ⟨q, List.mem_append_left _ hq, hrest⟩
    · rw [List.map_append]
      refine List.nodup_append.mpr ⟨h.transactionIds, List.nodup_singleton _, ?_⟩
      intro id hid' id' hid'' heq
      obtain ⟨q, hq, rfl⟩ := List.mem_map.mp hid'
      exact hnone q hq (heq.trans (List.mem_singleton.mp hid''))
    · -- the provider has not given the reference before
      rw [World.providerRefs, List.filterMap_append]
      cases href : p.providerRef with
      | none =>
        rw [List.filterMap_cons_none href, List.filterMap_nil, List.append_nil]
        exact h.providerRefs
      | some ref =>
        rw [List.filterMap_cons_some href, List.filterMap_nil]
        refine List.nodup_append.mpr ⟨h.providerRefs, List.nodup_singleton _, ?_⟩
        intro ref' href' ref'' href'' heq
        exact fresh ref href (List.mem_singleton.mp href'' ▸ heq ▸ href')
  | _ => exact h.frame hg rfl fun t ht ref href => ⟨t, ht, rfl, href⟩

/-! ## Transfers -/

/-- The transfers are framed when none is completed. -/
theorem World.Transfers.frame (h : w.Transfers) (hg : Grows w w')
    (htransfers : ∀ t' ∈ w'.db.transfers,
      (∃ t ∈ w.db.transfers, t'.core = t.core ∧ (t'.status = .completed → t.status = .completed)) ∨
        (1 ≤ t'.amount ∧ t'.fromUserId ≠ t'.toUserId) ∧ t'.status = .pending)
    (hledger : ∀ e ∈ w'.db.ledger, e.type ≠ .deposit → e ∈ w.db.ledger)
    (hevents : w'.eventsNamed .transferCompleted = w.eventsNamed .transferCompleted) :
    w'.Transfers where
  amount_min t' ht' := by
    rcases htransfers t' ht' with ⟨t, ht, hc, -⟩ | ⟨hnew, -⟩
    · rw [Transfer.core_amount hc]
      exact h.amount_min t ht
    · exact hnew.1
  users t' ht' := by
    rcases htransfers t' ht' with ⟨t, ht, hc, -⟩ | ⟨hnew, -⟩
    · rw [Transfer.core_fromUserId hc, Transfer.core_toUserId hc]
      exact h.users t ht
    · exact hnew.2
  sent e he htype := by
    obtain ⟨t, ht, hstatus, hside⟩ := h.sent e (hledger e he (by rw [htype]; nofun)) htype
    obtain ⟨t', ht', hc, hcompleted⟩ := hg.transfers t ht
    exact ⟨t', ht', hcompleted hstatus, hside.mono hg hc⟩
  received e he htype := by
    obtain ⟨t, ht, hstatus, hside⟩ := h.received e (hledger e he (by rw [htype]; nofun)) htype
    obtain ⟨t', ht', hc, hcompleted⟩ := hg.transfers t ht
    exact ⟨t', ht', hcompleted hstatus, hside.mono hg hc⟩
  completed t' ht' hstatus := by
    rcases htransfers t' ht' with ⟨t, ht, hc, hcompleted⟩ | ⟨-, hpending⟩
    · obtain ⟨⟨e₁, he₁, hsent⟩, ⟨e₂, he₂, hreceived⟩, ev, hev, hann⟩ :=
        h.completed t ht (hcompleted hstatus)
      exact ⟨⟨e₁, hg.mem_ledger he₁, hsent.mono hg hc⟩,
        ⟨e₂, hg.mem_ledger he₂, hreceived.mono hg hc⟩, ev, hg.mem_outbox hev, hann.mono hc⟩
    · rw [hpending] at hstatus
      cases hstatus
  announced ev hev hname := by
    have hev' := World.mem_eventsNamed.mpr ⟨hev, hname⟩
    rw [hevents] at hev'
    obtain ⟨t, ht, hstatus, hann⟩ := h.announced ev (World.mem_eventsNamed.mp hev').1 hname
    obtain ⟨t', ht', hc, hcompleted⟩ := hg.transfers t ht
    exact ⟨t', ht', hcompleted hstatus, hann.mono hc⟩
  announcedOnce := by
    rw [hevents]
    exact h.announcedOnce

theorem transfers_of_execute (h : w.Transfers) (hg : Grows w w') {t : Transfer}
    {sender receiver : Wallet} {data : OutboxData} {id : String} {now : ℕ}
    {ledger₁ ledger : Table LedgerEntry} {outbox : Table OutboxEvent}
    (hpre : w.MayTransfer i t sender.id receiver.id data)
    (hdebit : w.db.ledger.insert? (debitEntry sender t) = some ledger₁)
    (hcredit : ledger₁.insert? (creditEntry receiver t) = some ledger)
    (hevent : w.db.outbox.insert? (data.create id now) = some outbox)
    (hdb : w'.db = w.db.transferred sender receiver t ledger outbox) : w'.Transfers := by
  obtain ⟨hstored, -, hpending, hsender, hreceiver, email, name, toUser, now', rfl⟩ := hpre
  have htransfers : w'.db.transfers = (w.db.completeTransfer t.id).transfers := by rw [hdb]; rfl
  have hledger : w'.db.ledger.rows = w.db.ledger.rows ++ [debitEntry sender t, creditEntry receiver t] := by
    rw [hdb]
    exact transfer_rows hdebit hcredit
  have houtbox : w'.db.outbox = outbox := by rw [hdb]; rfl
  have hmem : ∀ e, e ∈ w'.db.ledger ↔
      e ∈ w.db.ledger ∨ e = debitEntry sender t ∨ e = creditEntry receiver t := by
    intro e
    rw [Table.mem_def, hledger, List.mem_append, List.mem_cons, List.mem_singleton]
    exact Iff.rfl
  have hrow : { t with status := .completed } ∈ w'.db.transfers := by
    rw [htransfers]
    exact mem_completeTransfer.mpr ⟨t, hstored, if_pos (beq_self_eq_true _)⟩
  have hsent : w'.SentBy { t with status := .completed } (debitEntry sender t) :=
    ⟨rfl, rfl, rfl, rfl, hg.walletOf hsender⟩
  have hreceived : w'.ReceivedBy { t with status := .completed } (creditEntry receiver t) :=
    ⟨rfl, rfl, rfl, rfl, hg.walletOf hreceiver⟩
  have hann : Transfer.Announced { t with status := .completed }
      ((transferOutboxPayload t.id t.fromUserId t.toUserId t.amount t.currency email name toUser
        now').create id now) := ⟨rfl, rfl, rfl, rfl, rfl, rfl, rfl⟩
  refine
    { amount_min := fun t' ht' => ?_
      users := fun t' ht' => ?_
      sent := fun e he htype => ?_
      received := fun e he htype => ?_
      completed := fun t' ht' hstatus => ?_
      announced := fun ev hev hname => ?_
      announcedOnce := ?_ }
  · rw [htransfers] at ht'
    obtain ⟨t₁, ht₁, rfl⟩ := mem_completeTransfer.mp ht'
    split <;> exact h.amount_min t₁ ht₁
  · rw [htransfers] at ht'
    obtain ⟨t₁, ht₁, rfl⟩ := mem_completeTransfer.mp ht'
    split <;> exact h.users t₁ ht₁
  · rcases (hmem e).mp he with he | rfl | rfl
    · obtain ⟨t₁, ht₁, hs₁, hside⟩ := h.sent e he htype
      obtain ⟨t', ht', hc, hcompleted⟩ := hg.transfers t₁ ht₁
      exact ⟨t', ht', hcompleted hs₁, hside.mono hg hc⟩
    · exact ⟨_, hrow, rfl, hsent⟩
    · cases htype
  · rcases (hmem e).mp he with he | rfl | rfl
    · obtain ⟨t₁, ht₁, hs₁, hside⟩ := h.received e he htype
      obtain ⟨t', ht', hc, hcompleted⟩ := hg.transfers t₁ ht₁
      exact ⟨t', ht', hcompleted hs₁, hside.mono hg hc⟩
    · cases htype
    · exact ⟨_, hrow, rfl, hreceived⟩
  · rw [htransfers] at ht'
    obtain ⟨t₁, ht₁, rfl⟩ := mem_completeTransfer.mp ht'
    by_cases hid : t₁.id = t.id
    · obtain rfl := Transfer.eq_of_id ht₁ hstored hid
      rw [if_pos (beq_self_eq_true _)]
      exact ⟨⟨_, (hmem _).mpr (.inr (.inl rfl)), hsent⟩,
        ⟨_, (hmem _).mpr (.inr (.inr rfl)), hreceived⟩,
        _, by rw [houtbox]; exact (Table.mem_insert? hevent).mpr (.inr rfl), hann⟩
    · rw [if_neg (by simpa using hid)] at hstatus ⊢
      obtain ⟨⟨e₁, he₁, hs₁⟩, ⟨e₂, he₂, hr₂⟩, ev, hev, ha⟩ := h.completed t₁ ht₁ hstatus
      exact ⟨⟨e₁, hg.mem_ledger he₁, hs₁.mono hg rfl⟩, ⟨e₂, hg.mem_ledger he₂, hr₂.mono hg rfl⟩,
        ev, hg.mem_outbox hev, ha⟩
  · rw [houtbox] at hev
    rcases (Table.mem_insert? hevent).mp hev with hev | rfl
    · obtain ⟨t₁, ht₁, hs₁, ha⟩ := h.announced ev hev hname
      obtain ⟨t', ht', hc, hcompleted⟩ := hg.transfers t₁ ht₁
      exact ⟨t', ht', hcompleted hs₁, ha.mono hc⟩
    · exact ⟨_, hrow, rfl, hann⟩
  · rw [World.eventsNamed, houtbox, (Table.insert?_eq_some hevent).2, List.filter_append,
      List.map_append]
    refine List.nodup_append.mpr ⟨h.announcedOnce, List.nodup_singleton _, ?_⟩
    intro id₁ hid₁ id₂ hid₂ heq
    obtain ⟨ev, hev, rfl⟩ := List.mem_map.mp hid₁
    obtain ⟨hmemev, hname⟩ := World.mem_eventsNamed.mp hev
    -- an event with this transfer's id would mean that it was completed before
    obtain ⟨t₁, ht₁, hs₁, ha⟩ := h.announced ev hmemev hname
    have hid : t₁.id = t.id :=
      ha.aggregateId.symm.trans (heq.trans (List.mem_singleton.mp hid₂))
    rw [Transfer.eq_of_id ht₁ hstored hid, hpending] at hs₁
    cases hs₁

theorem transfers_of_effect (h : w.Transfers) (hg : Grows w w') (hpre : Guarantee req i o w)
    (he : Effect i w o w') : w'.Transfers := by
  cases he with
  | createTransfer fresh inserted =>
    obtain ⟨fromUserId, email, input, toUserId, -, hne, rfl⟩ := hpre
    refine h.frame hg (fun t' ht' => ?_) (fun e he _ => he) rfl
    rcases (Table.mem_insert? inserted).mp ht' with ht' | rfl
    · exact .inl ⟨t', ht', rfl, fun hs => hs⟩
    · exact .inr ⟨⟨input.amount_min, hne⟩, rfl⟩
  | settleTransaction fresh wallet_mem enough entry event =>
    obtain ⟨-, -, rfl, rfl, -, _, _, rfl⟩ := hpre
    refine h.frame hg (fun t ht => .inl ⟨t, ht, rfl, fun hs => hs⟩) (fun e he htype => ?_) ?_
    · rcases (Table.mem_insert? entry).mp he with he | rfl
      · exact he
      · exact absurd rfl htype
    · show List.filter _ _ = _
      rw [show (Store.outbox _).rows = _ from (Table.insert?_eq_some event).2, List.filter_append]
      exact List.append_nil _
  | executeTransfer fresh sender_mem receiver_mem enough debit credit event =>
    exact transfers_of_execute h hg hpre debit credit event rfl
  | _ => exact h.frame hg (fun t ht => .inl ⟨t, ht, rfl, fun hs => hs⟩) (fun e he _ => he) rfl

theorem inv_of_effect (h : w.Inv) (hpre : Guarantee req i o w) (he : Effect i w o w') : w'.Inv :=
  have hg := grows_of_effect hpre he
  { ids := ids_of_effect h.ids he
    replays := replays_of_effect h hpre he
    deposits := deposits_of_effect h.deposits hg hpre he
    payments := payments_of_effect h.payments hg hpre he
    transfers := transfers_of_effect h.transfers hg hpre he }

theorem inv_initial (h : w.Initial) : w.Inv := by
  obtain ⟨hwallets, htransactions, htransfers, hledger, houtbox, hpayments, hissued⟩ := h
  have hentries : w.depositEntries = [] := by rw [World.depositEntries, hledger]; rfl
  have hdeposited : w.eventsNamed .depositSucceeded = [] :=
    List.filter_eq_nil_iff.mpr fun ev hev => by simpa using (houtbox ev hev).1
  have htransferred : w.eventsNamed .transferCompleted = [] :=
    List.filter_eq_nil_iff.mpr fun ev hev => by simpa using (houtbox ev hev).2.1
  -- every other part speaks of rows, and there are none
  refine ⟨⟨hissued, ?_, ?_, ?_, fun ev hev => (houtbox ev hev).2.2, ?_⟩, ?_, ⟨?_, ?_, ?_, ?_⟩,
    ⟨?_, ?_, ?_, ?_⟩, ⟨?_, ?_, ?_, ?_, ?_, fun ev hev hname => absurd hname (houtbox ev hev).2.1, ?_⟩⟩
  all_goals simp only [Replays, hwallets, htransactions, htransfers, hledger, hpayments, hentries,
    hdeposited, htransferred, World.providerRefs, Table.not_mem_empty, List.not_mem_nil,
    false_imp_iff, implies_true, List.map_nil, List.filterMap_nil, List.nodup_nil,
    List.forall₂_nil_left_iff]

/-- Rely/guarantee for the money server: other calls only let the world grow, and leave alone what this
    call has not finished. -/
def moneyContract (registry : PaymentGatewayRegistry) : Async.Contract (server registry) where
  Inv := World.Inv
  Pre := Guarantee
  Rely i w w' := Grows w w' ∧ Own i w w'
  rely_refl i w := ⟨.refl w, .refl i w⟩
  rely_trans h h' := ⟨h.1.trans h'.1, h.2.trans h.1 h'.2⟩
  inv_perform hinv hpre hp := inv_of_effect hinv hpre (effect_of_perform hp)
  rely_perform hij hinv hpre hp :=
    ⟨grows_of_effect hpre (effect_of_perform hp),
      own_of_effect hij hinv.ids hpre (effect_of_perform hp)⟩

end

end LiorParisWallet
