import LiorParisWallet.Money.Prepared

/-!
# Where the events of the outbox come from

An event that announces money was committed together with the entries of the ledger that it is about, and its
payload names the users that were read for them.
-/

namespace LiorParisWallet

open Async Relational

variable {registry : PaymentGatewayRegistry} {s s' : State}

/-- On the way to `s`, the call `c` has performed `o`, by which just these rows came to the ledger and the
    outbox. -/
def CommittedBy (registry : PaymentGatewayRegistry) (s : State) (c : Call Op Ans Err Request Reply) (o : Op)
    (entries : List LedgerEntry) (ev : OutboxEvent) : Prop :=
  ∃ s₀ s₁ i ω, Reachable registry s₀ ∧ s₀.calls[i]? = some c ∧ c.program.next? = some o ∧
    (server registry).step s₀ i ω = some s₁ ∧
    s₁.world.db.ledger.rows = s₀.world.db.ledger.rows ++ entries ∧
    s₁.world.db.outbox.rows = s₀.world.db.outbox.rows ++ [ev] ∧ (server registry).Reaches Server.Any s₁ s

/-- `settleTransaction` has committed the event and the entry of the deposit `t`, for whose user `user` was
    read. -/
structure DepositCommitted (registry : PaymentGatewayRegistry) (s : State) (ev : OutboxEvent) (t : Transaction)
    (user : Users) (entry : LedgerEntry) : Prop where
  committed : ∃ c data,
    CommittedBy registry s c (.settleTransaction entry.walletId t .deposit t.amount data) [entry] ev ∧
      ⟨.findUserById t.userId, .ok (some user)⟩ ∈ c.answers
  name : ev.eventName = .depositSucceeded
  userId : user.id = t.userId
  credited : entry.type = .deposit ∧ entry.idempotencyKey = t.idempotencyKey
  payload : ∃ now, ev.payloadJson = (buildOutboxPayload .depositSucceeded entry.walletId t.userId entry.amount
    entry.currency (some user.email) now).payloadJson

/-- `executeTransfer` has committed the event and the two entries of the transfer `t`, for which the two users
    were read and which was asked for with this email. -/
structure TransferCommitted (registry : PaymentGatewayRegistry) (s : State) (ev : OutboxEvent) (t : Transfer)
    (fromUserEmail : String) (fromUser toUser : Users) (debit credit : LedgerEntry) : Prop where
  committed : ∃ c input data, c.request = .initiateTransfer t.fromUserId fromUserEmail input ∧
    CommittedBy registry s c (.executeTransfer t debit.walletId credit.walletId data) [debit, credit] ev ∧
    ⟨.findUserById t.fromUserId, .ok (some fromUser)⟩ ∈ c.answers ∧
    ⟨.findUserById t.toUserId, .ok (some toUser)⟩ ∈ c.answers
  name : ev.eventName = .transferCompleted
  fromUserId : fromUser.id = t.fromUserId
  toUserId : toUser.id = t.toUserId
  debited : debit.type = .transferOut ∧ debit.idempotencyKey = t.idempotencyKey ++ ":out"
  credited : credit.type = .transferIn ∧ credit.idempotencyKey = t.idempotencyKey ++ ":in"
  amount : debit.amount = credit.amount
  currency : debit.currency = credit.currency
  payload : ∃ now, ev.payloadJson = (transferOutboxPayload t.id t.fromUserId t.toUserId debit.amount debit.currency
    fromUserEmail (some fromUser.name) (some toUser) now).payloadJson

theorem CommittedBy.reaches {c : Call Op Ans Err Request Reply} {o : Op} {entries : List LedgerEntry}
    {ev : OutboxEvent} (h : CommittedBy registry s c o entries ev) (hr : (server registry).Reaches Server.Any s s') :
    CommittedBy registry s' c o entries ev := by
  obtain ⟨s₀, s₁, i, ω, hs₀, hc, ho, hstep, hledger, houtbox, hr₁⟩ := h
  exact ⟨s₀, s₁, i, ω, hs₀, hc, ho, hstep, hledger, houtbox, hr₁.trans hr⟩

theorem DepositCommitted.reaches {ev : OutboxEvent} {t : Transaction} {user : Users} {entry : LedgerEntry}
    (h : DepositCommitted registry s ev t user entry) (hr : (server registry).Reaches Server.Any s s') :
    DepositCommitted registry s' ev t user entry :=
  let ⟨c, data, hcommits, hread⟩ := h.committed
  { h with committed := ⟨c, data, hcommits.reaches hr, hread⟩ }

theorem TransferCommitted.reaches {ev : OutboxEvent} {t : Transfer} {fromUserEmail : String}
    {fromUser toUser : Users} {debit credit : LedgerEntry}
    (h : TransferCommitted registry s ev t fromUserEmail fromUser toUser debit credit)
    (hr : (server registry).Reaches Server.Any s s') :
    TransferCommitted registry s' ev t fromUserEmail fromUser toUser debit credit :=
  let ⟨c, input, data, hreq, hcommits, hread⟩ := h.committed
  { h with committed := ⟨c, input, data, hreq, hcommits.reaches hr, hread⟩ }

/-- What the event is about, if it announces money. -/
def Sourced (registry : PaymentGatewayRegistry) (s : State) (ev : OutboxEvent) : Prop :=
  (∃ t user entry, DepositCommitted registry s ev t user entry) ∨
  (∃ t fromUserEmail fromUser toUser debit credit,
    TransferCommitted registry s ev t fromUserEmail fromUser toUser debit credit) ∨
  (ev.eventName ≠ .depositSucceeded ∧ ev.eventName ≠ .transferCompleted)

theorem Sourced.reaches {ev : OutboxEvent} (h : Sourced registry s ev)
    (hr : (server registry).Reaches Server.Any s s') : Sourced registry s' ev := by
  rcases h with ⟨t, user, entry, h⟩ | ⟨t, fromUserEmail, fromUser, toUser, debit, credit, h⟩ | h
  · exact .inl ⟨t, user, entry, h.reaches hr⟩
  · exact .inr (.inl ⟨t, fromUserEmail, fromUser, toUser, debit, credit, h.reaches hr⟩)
  · exact .inr (.inr h)

section Steps

variable {i : ℕ} {ω : Choice} {c : Call Op Ans Err Request Reply} {w' : World}

/-- The payload of a transfer says who it is between and how much it is. -/
theorem transferOutboxPayload_inj {transferId fromUserId toUserId currency fromUserEmail : String} {amount : ℤ}
    {fromUserName : Option String} {toUser : Option Users} {now : ℕ}
    {transferId' fromUserId' toUserId' currency' fromUserEmail' : String} {amount' : ℤ}
    {fromUserName' : Option String} {toUser' : Option Users} {now' : ℕ}
    (h : transferOutboxPayload transferId fromUserId toUserId amount currency fromUserEmail fromUserName toUser now =
      transferOutboxPayload transferId' fromUserId' toUserId' amount' currency' fromUserEmail' fromUserName' toUser'
        now') :
    fromUserId = fromUserId' ∧ toUserId = toUserId' ∧ amount = amount' ∧ currency = currency' := by
  have hlookup : ∀ key, (transferOutboxPayload transferId fromUserId toUserId amount currency fromUserEmail
      fromUserName toUser now).payloadJson.lookup key = (transferOutboxPayload transferId' fromUserId' toUserId'
        amount' currency' fromUserEmail' fromUserName' toUser' now').payloadJson.lookup key := by
    intro key
    rw [h]
  have hfrom : some (Value.string fromUserId) = some (.string fromUserId') := hlookup "fromUserId"
  have hto : some (Value.string toUserId) = some (.string toUserId') := hlookup "toUserId"
  have hamount : some (Value.number amount) = some (.number amount') := hlookup "amount"
  have hcurrency : some (Value.string currency) = some (.string currency') := hlookup "currency"
  simp only [Option.some.injEq, Value.string.injEq, Value.number.injEq] at hfrom hto hamount hcurrency
  exact ⟨hfrom, hto, hamount, hcurrency⟩

theorem deposit_committed (hs : Reachable registry s) (hstep : (server registry).step s i ω = some s')
    (hc : s.calls[i]? = some c) {wallet : Wallet} {t : Transaction} {type : LedgerEntryType} {change : ℤ}
    {data : OutboxData} {id : String} {now : ℕ}
    (ho : c.program.next? = some (.settleTransaction wallet.id t type change data))
    (hpre : s.world.MaySettle wallet.id t type change data) (hwallet : wallet ∈ s.world.db.wallets)
    (hledger : s'.world.db.ledger.rows = s.world.db.ledger.rows ++ [settlementEntry wallet t type change])
    (houtbox : s'.world.db.outbox.rows = s.world.db.outbox.rows ++ [data.create id now]) :
    ∃ user entry, DepositCommitted registry s' (data.create id now) t user entry := by
  obtain rfl := hpre.type
  obtain rfl := hpre.change
  obtain ⟨huser, hcurrency⟩ := hpre.wallet.2 wallet hwallet rfl
  obtain ⟨read, user?, now', hid, hread, rfl⟩ := hs.prepared (List.mem_of_getElem? hc) ho
  obtain ⟨user, rfl, huserId⟩ := hs.user_found hc hread
    (fun hp => (Table.mem_of_find? ((read_eq_some hp).2 _ rfl).symm).1) hwallet hid huser
  -- the entry has the currency of the wallet, which is that of the transaction
  refine ⟨user, settlementEntry wallet t .deposit t.amount, ?_, rfl, huserId, ⟨rfl, rfl⟩, now', ?_⟩
  · exact ⟨c, _, ⟨s, s', i, ω, hs, hc, ho, hstep, hledger, houtbox, .refl⟩, hread.subset (.head _)⟩
  · rw [settlementEntry, hcurrency]
    rfl

theorem transfer_committed (hs : Reachable registry s) (hstep : (server registry).step s i ω = some s')
    (hc : s.calls[i]? = some c) {sender receiver : Wallet} {t : Transfer} {data : OutboxData} {id : String} {now : ℕ}
    (ho : c.program.next? = some (.executeTransfer t sender.id receiver.id data))
    (hpre : s.world.MayTransfer i t sender.id receiver.id data) (hsender : sender ∈ s.world.db.wallets)
    (hreceiver : receiver ∈ s.world.db.wallets)
    (hledger : s'.world.db.ledger.rows = s.world.db.ledger.rows ++ [debitEntry sender t, creditEntry receiver t])
    (houtbox : s'.world.db.outbox.rows = s.world.db.outbox.rows ++ [data.create id now]) :
    ∃ fromUserEmail fromUser toUser debit credit,
      TransferCommitted registry s' (data.create id now) t fromUserEmail fromUser toUser debit credit := by
  obtain ⟨hsenderUser, -⟩ := hpre.sender.2 sender hsender rfl
  obtain ⟨hreceiverUser, -⟩ := hpre.receiver.2 receiver hreceiver rfl
  obtain ⟨fromUserId, fromUserEmail, input, fromWallet, toWallet, fromUser?, toUser?, now', hreq, hfromId, htoId,
    hfromRead, htoRead, hdata⟩ := hs.prepared (List.mem_of_getElem? hc) ho
  -- the row of the transfer is the one that the call has asked for
  obtain ⟨_, _, _, _, hpayload⟩ := hpre.payload
  obtain ⟨hfrom, hto, hamount, hcurrency⟩ := transferOutboxPayload_inj (hpayload.symm.trans hdata)
  rw [← hfrom] at hfromRead hreq hdata
  rw [← hto] at htoRead hdata
  rw [← hamount, ← hcurrency] at hdata
  obtain ⟨fromUser, rfl, hfromUser⟩ := hs.user_found hc hfromRead
    (fun hp => (Table.mem_of_find? ((read_eq_some hp).2 _ rfl).symm).1) hsender hfromId hsenderUser
  obtain ⟨toUser, rfl, htoUser⟩ := hs.user_found hc htoRead
    (fun hp => (Table.mem_of_find? ((read_eq_some hp).2 _ rfl).symm).1) hreceiver htoId hreceiverUser
  obtain rfl := hdata
  refine ⟨fromUserEmail, fromUser, toUser, debitEntry sender t, creditEntry receiver t, ?_, rfl, hfromUser, htoUser,
    ⟨rfl, rfl⟩, ⟨rfl, rfl⟩, rfl, rfl, now', rfl⟩
  exact ⟨c, input, _, hreq, ⟨s, s', i, ω, hs, hc, ho, hstep, hledger, houtbox, .refl⟩, hfromRead.subset (.head _),
    htoRead.subset (.head _)⟩

/-- An event that a step adds to the outbox. -/
theorem step_sourced (hs : Reachable registry s) (hstep : (server registry).step s i ω = some s') :
    ∀ ev ∈ s'.world.db.outbox, ev ∈ s.world.db.outbox ∨ Sourced registry s' ev := by
  obtain ⟨c, o, next, r, w', hc, hp, hperform, rfl⟩ := Server.step_cases hstep
  obtain ⟨c', hc', hpre, he⟩ := hs.effect hstep (System.awaits_eq hc hp)
  cases hc.symm.trans hc'
  have ho : c.program.next? = some o := by rw [hp]; rfl
  intro ev hev
  cases he with
  | settleTransaction fresh wallet_mem enough entry event =>
    rcases (Table.mem_insert? event).mp hev with hev | rfl
    · exact .inl hev
    · obtain ⟨user, entry', h⟩ := deposit_committed hs hstep hc ho hpre wallet_mem (Table.insert?_eq_some entry).2
        (Table.insert?_eq_some event).2
      exact .inr (.inl ⟨_, user, entry', h⟩)
  | executeTransfer fresh sender_mem receiver_mem enough debit credit event =>
    rcases (Table.mem_insert? event).mp hev with hev | rfl
    · exact .inl hev
    · obtain ⟨fromUserEmail, fromUser, toUser, debit', credit', h⟩ := transfer_committed hs hstep hc ho hpre sender_mem
        receiver_mem (transfer_rows debit credit) (Table.insert?_eq_some event).2
      exact .inr (.inr (.inl ⟨_, fromUserEmail, fromUser, toUser, debit', credit', h⟩))
  -- no other operation writes to the outbox
  | _ => exact .inl hev

end Steps

/-- Every event that announces money was committed with the entries that it is about. -/
theorem Reachable.sourced (h : Reachable registry s) : ∀ ev ∈ s.world.db.outbox, Sourced registry s ev := by
  obtain ⟨w, hw, hr⟩ := h
  induction hr with
  | refl =>
    -- the initial outbox announces no money
    intro ev hev
    obtain ⟨hdeposit, htransfer, -⟩ := hw.outbox ev hev
    exact .inr (.inr ⟨hdeposit, htransfer⟩)
  | @tail s₁ s₂ l hr _ hn ih =>
    have hnext : (server registry).Reaches Server.Any s₁ s₂ := Server.Reaches.refl.tail trivial hn
    intro ev hev
    cases l with
    | start req =>
      cases hn
      exact (ih ev hev).reaches hnext
    | step i ω =>
      rcases step_sourced ⟨w, hw, hr⟩ hn ev hev with hold | hnew
      · exact (ih ev hold).reaches hnext
      · exact hnew

end LiorParisWallet
