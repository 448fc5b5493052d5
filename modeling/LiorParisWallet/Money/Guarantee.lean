import LiorParisWallet.Money.Invariant
import LiorParisWallet.Server.Requests

/-!
# What a call guarantees

`Guarantee req i o w` is what call `i`, made with the request `req`, has made sure of when it performs
`o` in the world `w`.  Under it every operation only lets the world grow, and leaves the unfinished rows
of the other calls alone.
-/

namespace LiorParisWallet

open Relational

/-- The provider reference of the transaction that the request asks to fail. -/
def Request.failsRef? : Request → Option String
  | .failByProviderRef providerRef _ => some providerRef
  | .handleWebhook _ (.ok event) =>
      if event.type = "checkout.session.expired" then some event.objectId else none
  | _ => none

/-- The row was inserted by call `i`, and the provider has not been told of it in the database. -/
structure World.OwnDeposit (w : World) (i : ℕ) (t : Transaction) : Prop where
  stored : t ∈ w.db.transactions
  own : (t.id, i) ∈ w.issued
  unreferenced : t.providerRef = none

structure World.MaySettle (w : World) (walletId : String) (t : Transaction)
    (type : LedgerEntryType) (change : ℤ) (data : OutboxData) : Prop where
  known : w.Knows t
  referenced : ∃ ref, t.providerRef = some ref
  type : type = .deposit
  change : change = t.amount
  wallet : w.WalletOf walletId t.userId t.currency
  payload : ∃ userEmail now, data =
    buildOutboxPayload .depositSucceeded walletId t.userId t.amount t.currency userEmail now

structure World.MayTransfer (w : World) (i : ℕ) (t : Transfer) (fromWalletId toWalletId : String)
    (data : OutboxData) : Prop where
  stored : t ∈ w.db.transfers
  own : (t.id, i) ∈ w.issued
  pending : t.status = .pending
  sender : w.WalletOf fromWalletId t.fromUserId t.currency
  receiver : w.WalletOf toWalletId t.toUserId t.currency
  payload : ∃ fromUserEmail fromUserName toUser now, data =
    transferOutboxPayload t.id t.fromUserId t.toUserId t.amount t.currency fromUserEmail
      fromUserName toUser now

def Guarantee (req : Request) (i : ℕ) : Op → World → Prop
  | .saveWallet data, _ => data.balance = 0
  | .createTransaction data, _ => ∃ userId input, req = .deposit userId input ∧
      data =
        { userId := userId
          type := .deposit
          amount := input.amount
          currency := input.currency.value
          paymentMethod := input.paymentMethod
          idempotencyKey := input.idempotencyKey }
  | .processDeposit amount currency _ transactionId userId, w => ∃ t, w.OwnDeposit i t ∧
      t.id = transactionId ∧ t.userId = userId ∧ t.amount = amount ∧ t.currency = currency ∧
      ∀ p ∈ w.payments, p.transactionId ≠ transactionId
  | .updateTransactionProviderRef transactionId providerRef, w => ∃ t, w.OwnDeposit i t ∧
      t.status = .pending ∧ t.id = transactionId ∧
      ∃ p ∈ w.payments, p.transactionId = t.id ∧ p.providerRef = some providerRef
  | .failTransaction t _, w => (w.OwnDeposit i t ∧ t.status = .pending) ∨
      (w.Knows t ∧ ∃ ref, t.providerRef = some ref ∧ req.failsRef? = some ref)
  | .settleTransaction walletId t type change data, w => w.MaySettle walletId t type change data
  | .createTransfer data, _ => ∃ fromUserId fromUserEmail input toUserId,
      req = .initiateTransfer fromUserId fromUserEmail input ∧ fromUserId ≠ toUserId ∧
      data =
        { fromUserId := fromUserId
          toUserId := toUserId
          amount := input.amount
          currency := input.currency.value
          idempotencyKey := input.idempotencyKey }
  | .executeTransfer t fromWalletId toWalletId data, w =>
      w.MayTransfer i t fromWalletId toWalletId data
  | _, _ => True

section

variable {w w' : World} {req : Request} {i j : ℕ} {o : Op} {t : Transaction}

/-- The row of another call, or a row whose reference is stored, is not call `i`'s unreferenced one. -/
theorem World.OwnDeposit.ne (h : w.OwnDeposit i t) (hids : w.Ids) (hij : i ≠ j) {t' : Transaction}
    (h' : w.OwnDeposit j t') : t.id ≠ t'.id :=
  fun heq => hij (issued_unique hids.nodup h.own (heq ▸ h'.own))

theorem World.OwnDeposit.ne_of_knows (h : w.OwnDeposit i t) {t' : Transaction} (hk : w.Knows t')
    (hr : ∃ ref, t'.providerRef = some ref) : t.id ≠ t'.id := by
  obtain ⟨t'', ht'', hcore, href⟩ := hk
  obtain ⟨ref, hr⟩ := hr
  intro heq
  obtain rfl : t = t'' :=
    Transaction.eq_of_id h.stored ht'' (heq.trans (Transaction.core_id hcore).symm)
  have hnone := h.unreferenced
  rw [href ref hr] at hnone
  cases hnone

theorem Transaction.Later.ite {p : Prop} [Decidable p] {t t' : Transaction} (h : p → t.Later t') :
    t.Later (if p then t' else t) := by
  split
  · exact h ‹p›
  · exact .refl t

theorem grows_of_effect (hpre : Guarantee req i o w) (he : Effect i w o w') :
    Grows w w' := by
  cases he with
  | nothing => exact .refl w
  | cache => exact { Grows.refl w with }
  | saveWallet fresh user inserted =>
    refine { Grows.refl w with issued := fun x hx => List.mem_cons_of_mem _ hx, wallets := ?_ }
    intro a ha hid
    rcases (Table.mem_insert? inserted).mp ha with ha | rfl
    · exact ⟨a, ha, rfl, rfl, rfl⟩
    · exact absurd hid fresh
  | createTransaction fresh inserted =>
    exact { Grows.refl w with
      issued := fun x hx => List.mem_cons_of_mem _ hx
      transactions := fun t ht => ⟨t, (Table.mem_insert? inserted).mpr (.inl ht), .refl t⟩ }
  | updateTransactionProviderRef id ref =>
    -- the row had no reference before, so none is lost
    obtain ⟨t₀, hown, -, rfl, -⟩ := hpre
    refine { Grows.refl w with transactions := fun t ht => ?_ }
    refine ⟨_, mem_updateTransactionProviderRef.mpr ⟨t, ht, rfl⟩, .ite fun hid => ?_⟩
    obtain rfl := Transaction.eq_of_id ht hown.stored (by simpa using hid)
    refine ⟨rfl, fun h => h, fun ref' hr => ?_⟩
    rw [hown.unreferenced] at hr
    cases hr
  | failTransaction t₀ reason =>
    exact { Grows.refl w with
      transactions := fun t ht => ⟨_, mem_failTransaction.mpr ⟨t, ht, rfl⟩,
        .ite fun _ => ⟨rfl, fun _ => nofun, fun _ h => h⟩⟩ }
  | settleTransaction fresh wallet_mem enough entry event =>
    refine { Grows.refl w with
      issued := fun x hx => List.mem_cons_of_mem _ hx
      wallets := ?_
      transactions := fun t ht => ⟨_, mem_completeTransaction.mpr ⟨t, ht, rfl⟩,
        .ite fun _ => ⟨rfl, fun _ => nofun, fun _ h => h⟩⟩
      ledger := ⟨_, (Table.insert?_eq_some entry).2.symm⟩
      outbox := ⟨_, (Table.insert?_eq_some event).2.symm⟩ }
    intro a ha _
    obtain ⟨b, hb, rfl⟩ := mem_setBalance.mp ha
    exact ⟨b, hb, by split <;> exact ⟨rfl, rfl, rfl⟩⟩
  | createTransfer fresh inserted =>
    exact { Grows.refl w with
      issued := fun x hx => List.mem_cons_of_mem _ hx
      transfers := fun t ht => ⟨t, (Table.mem_insert? inserted).mpr (.inl ht), rfl, fun h => h⟩ }
  | executeTransfer fresh sender_mem receiver_mem enough debit credit event =>
    refine { Grows.refl w with
      issued := fun x hx => List.mem_cons_of_mem _ hx
      wallets := ?_
      transfers := fun t ht => ⟨_, mem_completeTransfer.mpr ⟨t, ht, rfl⟩, ?_⟩
      ledger := ⟨_, (transfer_rows debit credit).symm⟩
      outbox := ⟨_, (Table.insert?_eq_some event).2.symm⟩ }
    · intro a ha _
      obtain ⟨b, hb, rfl⟩ := mem_setBalance.mp ha
      obtain ⟨c, hc, rfl⟩ := mem_setBalance.mp hb
      exact ⟨c, hc, by split <;> split <;> exact ⟨rfl, rfl, rfl⟩⟩
    · split
      · exact ⟨rfl, fun _ => rfl⟩
      · exact ⟨rfl, fun h => h⟩
  | createUser fresh inserted =>
    exact { Grows.refl w with issued := fun x hx => List.mem_cons_of_mem _ hx }
  | deleteUser id =>
    exact { Grows.refl w with
      wallets := fun a ha _ => ⟨a, (Table.mem_delete.mp ha).1, rfl, rfl, rfl⟩ }
  | processDeposit p caller fresh =>
    exact { Grows.refl w with payments := List.prefix_append _ _ }

theorem own_of_effect (hij : i ≠ j) (hids : w.Ids) (hpre : Guarantee req j o w)
    (he : Effect j w o w') : Own i w w' := by
  cases he with
  | processDeposit p caller fresh =>
    obtain ⟨t, hown, hid, -⟩ := hpre
    -- call `j` pays for a row of its own
    refine { Own.refl i w with payments := fun id hmem hne p' hp' => ?_ }
    rcases List.mem_append.mp hp' with hp' | hp'
    · exact hne p' hp'
    · obtain rfl := List.mem_singleton.mp hp'
      exact fun heq => hij (issued_unique hids.nodup hmem (heq ▸ hid ▸ hown.own))
  | updateTransactionProviderRef id ref =>
    obtain ⟨t₀, hown₀, -, rfl, -⟩ := hpre
    refine { Own.refl i w with transactions := fun t ht hmem href => ?_ }
    have hown : w.OwnDeposit i t := ⟨ht, hmem, href⟩
    refine mem_updateTransactionProviderRef.mpr ⟨t, ht, if_neg fun heq => ?_⟩
    exact hown.ne hids hij hown₀ (by simpa using heq)
  | failTransaction t₀ reason =>
    refine { Own.refl i w with transactions := fun t ht hmem href => ?_ }
    have hown : w.OwnDeposit i t := ⟨ht, hmem, href⟩
    refine mem_failTransaction.mpr ⟨t, ht, if_neg fun heq => ?_⟩
    -- a call fails its own row, or one that the provider has reported on
    rcases hpre with ⟨hown₀, -⟩ | ⟨hknows, ref, hr, -⟩
    · exact hown.ne hids hij hown₀ (by simpa using heq)
    · exact hown.ne_of_knows hknows ⟨ref, hr⟩ (by simpa using heq)
  | settleTransaction fresh wallet_mem enough entry event =>
    refine { Own.refl i w with transactions := fun t ht hmem href => ?_ }
    have hown : w.OwnDeposit i t := ⟨ht, hmem, href⟩
    refine mem_completeTransaction.mpr ⟨t, ht, if_neg fun heq => ?_⟩
    exact hown.ne_of_knows hpre.known hpre.referenced (by simpa using heq)
  | @executeTransfer t₀ _ _ _ _ _ _ _ _ fresh sender_mem receiver_mem enough debit credit event =>
    refine { Own.refl i w with transfers := fun t ht hmem => ?_ }
    refine mem_completeTransfer.mpr ⟨t, ht, if_neg fun heq => ?_⟩
    have hid : t.id = t₀.id := by simpa using heq
    exact hij (issued_unique hids.nodup hmem (hid ▸ hpre.own))
  | createTransaction fresh inserted =>
    exact { Own.refl i w with
      transactions := fun t ht _ _ => (Table.mem_insert? inserted).mpr (.inl ht) }
  | createTransfer fresh inserted =>
    exact { Own.refl i w with
      transfers := fun t ht _ => (Table.mem_insert? inserted).mpr (.inl ht) }
  | _ => exact { Own.refl i w with }

end

end LiorParisWallet
