import LiorParisWallet.Money.Ledger

/-!
# Transfers, ledger and outbox

A transfer is completed exactly when its two ledger entries and its event exist.  What an accepted call
says about the transfer depends on what the lookup of its key found.
-/

namespace LiorParisWallet

open Async Relational

variable {registry : PaymentGatewayRegistry} {s s' : State} {w : World}

theorem append_suffix_cancel {k k' suffix : String} (h : k ++ suffix = k' ++ suffix) : k = k' :=
  (String.append_left_inj suffix).mp h

/-- The row that an entry of type `TRANSFER_OUT` names by its key is the one that it belongs to. -/
theorem World.Transfers.of_sent (h : w.Transfers) {t : Transfer} (ht : t ∈ w.db.transfers)
    {e : LedgerEntry} (he : e ∈ w.db.ledger) (htype : e.type = .transferOut)
    (hkey : e.idempotencyKey = t.idempotencyKey ++ ":out") : t.status = .completed ∧ w.SentBy t e := by
  obtain ⟨t', ht', hstatus, hside⟩ := h.sent e he htype
  obtain rfl := Transfer.eq_of_key ht' ht (append_suffix_cancel (hside.key.symm.trans hkey))
  exact ⟨hstatus, hside⟩

theorem World.Transfers.of_received (h : w.Transfers) {t : Transfer} (ht : t ∈ w.db.transfers)
    {e : LedgerEntry} (he : e ∈ w.db.ledger) (htype : e.type = .transferIn)
    (hkey : e.idempotencyKey = t.idempotencyKey ++ ":in") :
    t.status = .completed ∧ w.ReceivedBy t e := by
  obtain ⟨t', ht', hstatus, hside⟩ := h.received e he htype
  obtain rfl := Transfer.eq_of_key ht' ht (append_suffix_cancel (hside.key.symm.trans hkey))
  exact ⟨hstatus, hside⟩

theorem World.Transfers.of_announced (h : w.Transfers) {t : Transfer} (ht : t ∈ w.db.transfers)
    {ev : OutboxEvent} (hev : ev ∈ w.db.outbox) (hname : ev.eventName = .transferCompleted)
    (hid : ev.aggregateId = t.id) : t.status = .completed ∧ t.Announced ev := by
  obtain ⟨t', ht', hstatus, hann⟩ := h.announced ev hev hname
  obtain rfl := Transfer.eq_of_id ht' ht (hann.aggregateId.symm.trans hid)
  exact ⟨hstatus, hann⟩

/-- The transfers' events carry different ids. -/
theorem World.Transfers.event_unique (h : w.Transfers) {ev ev' : OutboxEvent}
    (hev : ev ∈ w.db.outbox) (hev' : ev' ∈ w.db.outbox) (hname : ev.eventName = .transferCompleted)
    (hname' : ev'.eventName = .transferCompleted) (hid : ev.aggregateId = ev'.aggregateId) :
    ev = ev' :=
  List.inj_on_of_nodup_map h.announcedOnce (World.mem_eventsNamed.mpr ⟨hev, hname⟩)
    (World.mem_eventsNamed.mpr ⟨hev', hname'⟩) hid

/-! ## Agreement of the four tables -/

/-- An entry of this type with the key `t.idempotencyKey ++ suffix`, with the amount and the currency of
    the transfer, on the user's wallet of that currency. -/
structure Store.Side (db : Store) (t : Transfer) (type : LedgerEntryType) (suffix userId : String)
    (e : LedgerEntry) : Prop where
  stored : e ∈ db.ledger
  type : e.type = type
  key : e.idempotencyKey = t.idempotencyKey ++ suffix
  amount : e.amount = t.amount
  currency : e.currency = t.currency
  wallet : ∃ a ∈ db.wallets, a.id = e.walletId ∧ a.userId = userId ∧ a.currency = t.currency

theorem World.SideOf.side {t : Transfer} {type : LedgerEntryType} {suffix userId : String}
    {e : LedgerEntry} (h : w.SideOf t type suffix userId e) (he : e ∈ w.db.ledger)
    (hc : w.db.Conserved) : w.db.Side t type suffix userId e where
  stored := he
  type := h.type
  key := h.key
  amount := h.amount
  currency := h.currency
  wallet := by
    obtain ⟨a, ha, hid, -⟩ := hc.wallet e he
    exact ⟨a, ha, hid, h.wallet.2 a ha hid⟩

/-- In every state that is reached without deleting a user, a transfer is completed if and only if the
    ledger has exactly one entry on each side of it, if and only if the outbox has exactly one event
    for it; if it is not completed there is no such row; and every transfer entry belongs to a
    completed transfer, so that a key moves money at most once. -/
theorem transfer_agreement (h : ReachableBy registry NoDeletion s) :
    (∀ t ∈ s.world.db.transfers,
      (t.status = .completed ↔
        (∃! e, s.world.db.Side t .transferOut ":out" t.fromUserId e) ∧
          ∃! e, s.world.db.Side t .transferIn ":in" t.toUserId e) ∧
      (t.status = .completed ↔ ∃ ev ∈ s.world.db.outbox, t.Announced ev ∧
        ∀ ev' ∈ s.world.db.outbox, ev'.eventName = .transferCompleted → ev'.aggregateId = t.id →
          ev' = ev) ∧
      (t.status ≠ .completed →
        (∀ e ∈ s.world.db.ledger, e.type = .transferOut → e.idempotencyKey ≠ t.idempotencyKey ++ ":out") ∧
        (∀ e ∈ s.world.db.ledger, e.type = .transferIn → e.idempotencyKey ≠ t.idempotencyKey ++ ":in") ∧
        ∀ ev ∈ s.world.db.outbox, ev.eventName = .transferCompleted → ev.aggregateId ≠ t.id)) ∧
    (∀ e ∈ s.world.db.ledger, e.type = .transferOut → ∃ t ∈ s.world.db.transfers,
      t.status = .completed ∧ s.world.db.Side t .transferOut ":out" t.fromUserId e) ∧
    (∀ e ∈ s.world.db.ledger, e.type = .transferIn → ∃ t ∈ s.world.db.transfers,
      t.status = .completed ∧ s.world.db.Side t .transferIn ":in" t.toUserId e) ∧
    (∀ t ∈ s.world.db.transfers, ∀ t' ∈ s.world.db.transfers,
      t.idempotencyKey = t'.idempotencyKey → t = t') ∧
    ∀ e ∈ s.world.db.ledger, ∀ e' ∈ s.world.db.ledger,
      e.idempotencyKey = e'.idempotencyKey → e = e' := by
  have htransfers := h.reachable.inv.transfers
  have hc := h.conserved
  refine ⟨fun t ht => ⟨⟨fun hstatus => ?_, ?_⟩, ⟨fun hstatus => ?_, ?_⟩, fun hstatus => ?_⟩, ?_, ?_,
    fun t ht t' ht' => Transfer.eq_of_key ht ht', fun e he e' he' => LedgerEntry.eq_of_key he he'⟩
  · obtain ⟨⟨e₁, he₁, hsent⟩, ⟨e₂, he₂, hreceived⟩, -⟩ := htransfers.completed t ht hstatus
    refine ⟨⟨e₁, hsent.side he₁ hc, fun e he => ?_⟩, ⟨e₂, hreceived.side he₂ hc, fun e he => ?_⟩⟩
    · exact LedgerEntry.eq_of_key he.stored he₁ (he.key.trans hsent.key.symm)
    · exact LedgerEntry.eq_of_key he.stored he₂ (he.key.trans hreceived.key.symm)
  · rintro ⟨⟨e, he, -⟩, -⟩
    exact (htransfers.of_sent ht he.stored he.type he.key).1
  · obtain ⟨-, -, ev, hev, hann⟩ := htransfers.completed t ht hstatus
    exact ⟨ev, hev, hann, fun ev' hev' hname hid => htransfers.event_unique hev' hev hname hann.name
      (hid.trans hann.aggregateId.symm)⟩
  · rintro ⟨ev, hev, hann, -⟩
    exact (htransfers.of_announced ht hev hann.name hann.aggregateId).1
  · exact ⟨fun e he htype hkey => hstatus (htransfers.of_sent ht he htype hkey).1,
      fun e he htype hkey => hstatus (htransfers.of_received ht he htype hkey).1,
      fun ev hev hname hid => hstatus (htransfers.of_announced ht hev hname hid).1⟩
  · intro e he htype
    obtain ⟨t, ht, hstatus, hsent⟩ := htransfers.sent e he htype
    exact ⟨t, ht, hstatus, hsent.side he hc⟩
  · intro e he htype
    obtain ⟨t, ht, hstatus, hreceived⟩ := htransfers.received e he htype
    exact ⟨t, ht, hstatus, hreceived.side he hc⟩

theorem transfer_agreement_everyday : ∃ (s : State) (t : Transfer), t.status = .completed ∧
    (∃! e, s.world.db.Side t .transferOut ":out" t.fromUserId e) ∧
    ∃! e, s.world.db.Side t .transferIn ":in" t.toUserId e := by
  have hrun : ((server cardPayments).runUnder NoDeletion everyday ⟨World.fresh adaAndBob, []⟩).map
      (fun s => s.world.db.transfers.rows.head?) =
        some (some ⟨"x1", "u1", "u2", 20, "EUR", .completed, "rent", none⟩) := by
    decide
  obtain ⟨s, hs, ht⟩ := Option.map_eq_some_iff.mp hrun
  have hagree := (transfer_agreement (reachableBy_of_run hs)).1 _ (List.mem_of_head? ht)
  exact ⟨s, _, rfl, hagree.1.mp rfl⟩

/-! ## What an accepted call has done -/

/-- The transfer that the call asks for has happened. -/
def World.Transferred (w : World) (fromUserId toUserId : String) (input : InitiateTransferDto) : Prop :=
  ∃ t ∈ w.db.transfers, t.Carries fromUserId toUserId input ∧
    (∃ e ∈ w.db.ledger, w.SentBy t e) ∧ ∃ e ∈ w.db.ledger, w.ReceivedBy t e

/-- What the lookup of a wallet tag has found is the wallet with that tag. -/
theorem recipient_of_performed {i : ℕ} {tag : String} {a : Wallet}
    (h : (server registry).Performed i (.findByWalletTag tag) (.ok (some a)) s s') :
    a ∈ s.world.db.wallets ∧ a.walletTag = tag := by
  obtain ⟨-, ω, s₁, -, hperform, -⟩ := h
  have hfound : s.world.db.findByWalletTag tag = some a := (read_ok hperform).2.symm
  obtain ⟨ha, htag⟩ := Table.mem_of_find? hfound
  exact ⟨ha, by simpa using htag⟩

/-- What the lookup of a key has found is all that there is with that key. -/
theorem existing_of_performed {i : ℕ} {key : String} {existing : Option Transfer}
    (h : (server registry).Performed i (.findTransferByIdempotencyKey key) (.ok existing) s s')
    {t : Transfer} : t ∈ s.world.db.transfers ∧ t.idempotencyKey = key ↔ existing = some t := by
  obtain ⟨-, ω, s₁, -, hperform, -⟩ := h
  have hfound : existing = s.world.db.findTransferByIdempotencyKey key := (read_ok hperform).2
  rw [hfound]
  refine ⟨?_, findTransferByIdempotencyKey_eq_some⟩
  rintro ⟨ht, rfl⟩
  refine Table.find?_eq_some ht (beq_self_eq_true _) fun t' hkey => ?_
  simp [Entity.clash, beq_iff_eq.mp hkey]

/-- At the step by which `initiateTransfer` returns, its transfer has happened if and only if every
    transfer with its key that was stored when it looked its key up (there is one at most) is completed
    and has the call's own users, amount and currency. -/
theorem accepted_transfer_iff (h : Reachable registry s) {i : ℕ} {ω : Choice}
    (hstep : (server registry).step s i ω = some s') {c : Call Op Ans Err Request Reply}
    (hc : s'.calls[i]? = some c) {fromUserId fromUserEmail : String} {input : InitiateTransferDto}
    (hreq : c.request = .initiateTransfer fromUserId fromUserEmail input) {reply : Reply}
    (hreturns : c.program.result? = some (.ok reply)) :
    ∃ (s₁ s₂ : State) (toWallet : Wallet) (existing : Option Transfer),
      Reachable registry s₁ ∧ Reachable registry s₂ ∧
      (server registry).Performed i (.findByWalletTag input.toWalletTag) (.ok (some toWallet)) s₁ s' ∧
      toWallet ∈ s₁.world.db.wallets ∧ toWallet.walletTag = input.toWalletTag ∧
      (server registry).Performed i (.findTransferByIdempotencyKey input.idempotencyKey)
        (.ok existing) s₂ s' ∧
      (s'.world.Transferred fromUserId toWallet.userId input ↔
        ∀ t ∈ s₂.world.db.transfers, t.idempotencyKey = input.idempotencyKey →
          t.Carries fromUserId toWallet.userId input) := by
  obtain ⟨c₀, o, next, r, w', hc₀, -⟩ := Server.step_cases hstep
  have htracks := h.sound.tracks i (List.getElem?_eq_some_iff.mp hc₀).1
  have hpost := htracks.returns h.sound.inv hstep hc hreturns reply rfl
  rw [hreq] at hpost
  obtain ⟨existing, toWallet, htag, hkey, hdone⟩ := hpost
  have hs' : Reachable registry s' := h.extend (Server.reaches_of_step hstep)
  obtain ⟨s₁, hs₁, hperformed₁⟩ := hs'.performed hc htag
  obtain ⟨s₂, hs₂, hperformed₂⟩ := hs'.performed hc hkey
  obtain ⟨hmem, heq⟩ := recipient_of_performed hperformed₁
  refine ⟨s₁, s₂, toWallet, existing, hs₁, hs₂, hperformed₁, hmem, heq, hperformed₂, ?_⟩
  have hentries : ∀ t ∈ s'.world.db.transfers, t.Carries fromUserId toWallet.userId input →
      s'.world.Transferred fromUserId toWallet.userId input := by
    intro t ht hcarries
    obtain ⟨hsent, hreceived, -⟩ := hs'.inv.transfers.completed t ht hcarries.status
    exact ⟨t, ht, hcarries, hsent, hreceived⟩
  have hfound := fun t => existing_of_performed hperformed₂ (t := t)
  cases existing with
  | none =>
    obtain ⟨t, ht, hcarries⟩ := hdone
    refine ⟨fun _ t₁ ht₁ hkey₁ => ?_, fun _ => hentries t ht hcarries⟩
    exact nomatch (hfound t₁).mp ⟨ht₁, hkey₁⟩
  | some t =>
    obtain ⟨ht₂, hkey₂⟩ := (hfound t).mpr rfl
    refine ⟨?_, fun hcarries => hentries t hdone.1 (hcarries t ht₂ hkey₂)⟩
    -- the call has returned without changing the row that it found
    rintro ⟨t', ht', hcarries, -⟩ t₁ ht₁ hkey₁
    obtain rfl : t' = t :=
      Transfer.eq_of_key ht' hdone.1 (hcarries.idempotencyKey.trans hdone.2.symm)
    obtain rfl := Option.some.inj ((hfound t₁).mp ⟨ht₁, hkey₁⟩)
    exact hcarries

theorem accepted_transfer_iff_everyday : ∃ (s₂ s' : State) (toWallet : Wallet)
    (existing : Option Transfer), Reachable cardPayments s₂ ∧ toWallet.walletTag = "bob-0000" ∧
    (server cardPayments).Performed 4 (.findTransferByIdempotencyKey "rent") (.ok existing) s₂ s' ∧
    (s'.world.Transferred "u1" toWallet.userId toBob ↔
      ∀ t ∈ s₂.world.db.transfers, t.idempotencyKey = "rent" →
        t.Carries "u1" toWallet.userId toBob) := by
  have hrun : ((server cardPayments).run everyday.dropLast ⟨World.fresh adaAndBob, []⟩).bind
      (fun s => ((server cardPayments).step s 4 {}).bind fun s' => s'.calls[4]?.map fun c =>
        (c.request, c.program.result?)) =
        some (.initiateTransfer "u1" "ada@example.com" toBob, some (.ok .done)) := rfl
  obtain ⟨s, hs, hrun⟩ := Option.bind_eq_some_iff.mp hrun
  obtain ⟨s', hstep, hrun⟩ := Option.bind_eq_some_iff.mp hrun
  obtain ⟨c, hc, hrun⟩ := Option.map_eq_some_iff.mp hrun
  obtain ⟨hreq, hreturns⟩ := Prod.mk.inj hrun
  obtain ⟨s₁, s₂, toWallet, existing, -, hs₂, -, -, htag, hperformed, hiff⟩ :=
    accepted_transfer_iff (reachable_of_run hs) hstep hc hreq hreturns
  exact ⟨s₂, s', toWallet, existing, hs₂, htag, hperformed, hiff⟩

/-- Ada sends Bob 20 euros that she does not have, and tries again with the same key. -/
def retryWithoutMoney : List (Label Request Choice) :=
  openWallet 0 "u1" "Ada" "w1" ++ openWallet 1 "u2" "Bob" "w2" ++
    (send 2 "u1" "ada@example.com" toBob "x1" "e1").take 9 ++
    [.start (.initiateTransfer "u1" "ada@example.com" toBob), .step 3 {}]

/-- The second call returns, although no money has moved. -/
theorem accepted_transfer_not_happened : ∃ s s' c, Reachable cardPayments s ∧
    (server cardPayments).step s 3 {} = some s' ∧ s'.calls[3]? = some c ∧
    c.request = .initiateTransfer "u1" "ada@example.com" toBob ∧
    c.program.result? = some (.ok .done) ∧
    ∀ toUserId, ¬ s'.world.Transferred "u1" toUserId toBob := by
  have hrun : ((server cardPayments).run retryWithoutMoney ⟨World.fresh adaAndBob, []⟩).bind
      (fun s => ((server cardPayments).step s 3 {}).bind fun s' => s'.calls[3]?.map fun c =>
        (c.request, c.program.result?, s'.world.db.transfers.rows)) =
        some (.initiateTransfer "u1" "ada@example.com" toBob, some (.ok .done),
          [⟨"x1", "u1", "u2", 20, "EUR", .pending, "rent", none⟩]) := rfl
  obtain ⟨s, hs, hrun⟩ := Option.bind_eq_some_iff.mp hrun
  obtain ⟨s', hstep, hrun⟩ := Option.bind_eq_some_iff.mp hrun
  obtain ⟨c, hc, hrun⟩ := Option.map_eq_some_iff.mp hrun
  obtain ⟨hreq, hreturns, hrows⟩ := Prod.mk.inj hrun |>.imp_right Prod.mk.inj
  refine ⟨s, s', c, reachable_of_run hs, hstep, hc, hreq, hreturns, ?_⟩
  rintro toUserId ⟨t, ht, hcarries, -⟩
  rw [Table.mem_def, hrows] at ht
  obtain rfl := List.mem_singleton.mp ht
  cases hcarries.status

end LiorParisWallet
