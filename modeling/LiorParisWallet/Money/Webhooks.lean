import Mathlib.Algebra.Order.BigOperators.Group.List
import Mathlib.Algebra.Order.Ring.Int
import LiorParisWallet.Money.Alone
import LiorParisWallet.Money.Collisions
import LiorParisWallet.Money.Numbers

/-!
# Webhooks in any order

Stripe delivers an event more than once and in any order.  Where events are handled one after another, the
store that they lead to depends only on which events there were: every transaction that they pay and that
can be settled is settled once, and every one that they say has expired has failed.  That holds as long as
the wallets stay in the range, for beyond it the sum of doubles depends on their order.
-/

namespace LiorParisWallet

open Async Relational Numeric

namespace StripeWebhookEvent

def Paid (e : StripeWebhookEvent) : Prop :=
  e.type = "checkout.session.completed" ∧ e.paymentStatus = some "paid"

def Expired (e : StripeWebhookEvent) : Prop :=
  e.type = "checkout.session.expired"

/-- The event reports that the transaction was paid for. -/
def Pays (e : StripeWebhookEvent) (t : Transaction) : Prop :=
  e.Paid ∧ t.providerRef = some e.objectId

instance (e : StripeWebhookEvent) (t : Transaction) : Decidable (e.Pays t) :=
  inferInstanceAs (Decidable ((_ ∧ _) ∧ _))

/-- The event reports that the transaction cannot be paid for any more. -/
def Expires (e : StripeWebhookEvent) (t : Transaction) : Prop :=
  e.Expired ∧ t.providerRef = some e.objectId

/-- No session is reported both as paid and as expired. -/
def Consistent (events : List StripeWebhookEvent) : Prop :=
  ∀ e ∈ events, ∀ e' ∈ events, e.Paid → e'.Expired → e.objectId ≠ e'.objectId

end StripeWebhookEvent

open StripeWebhookEvent

/-- The events are handled one after another, each by a call of its own, which runs alone. -/
inductive Handled : World → List StripeWebhookEvent → World → Prop where
  | nil (w : World) : Handled w [] w
  | cons {w w₁ w' : World} {event : StripeWebhookEvent} {events : List StripeWebhookEvent} {i : ℕ}
      {signature : String} {r : Except Err Unit} : signature ≠ "" →
      (handleWebhook (some signature) (.ok event)).Runs (GetsThrough Numbers.perform i) w r w₁ →
      Handled w₁ events w' → Handled w (event :: events) w'

/-- An entry, but for the balance that it states. -/
def LedgerEntry.upToBalance (e : LedgerEntry) : LedgerEntry := { e with balanceAfter := 0 }

/-- The same balances, statuses and failure reasons, the same deposits and the same payloads. -/
structure SameOutcome (db db' : Store) : Prop where
  wallets : db.wallets = db'.wallets
  transactions : db.transactions = db'.transactions
  deposits : ((db.ledger.rows.filter (·.type == .deposit)).map (·.upToBalance)).Perm
    ((db'.ledger.rows.filter (·.type == .deposit)).map (·.upToBalance))
  payloads : (db.outbox.rows.map (·.payloadJson)).Perm (db'.outbox.rows.map (·.payloadJson))

/-! ## What the events lead to -/

/-- The transaction has a wallet to credit, and its ledger key is free. -/
def Store.Settleable (db : Store) (t : Transaction) : Prop :=
  (∃ a, db.findByUserIdAndCurrency t.userId t.currency = some a) ∧
    ∀ e ∈ db.ledger, e.idempotencyKey ≠ t.idempotencyKey

/-- The wallet after the settlement of the transactions `T`. -/
def Wallet.credited (a : Wallet) (T : List Transaction) : Wallet :=
  { a with
    balance := a.balance +
      ((T.filter fun t => t.userId = a.userId ∧ t.currency = a.currency).map (·.amount)).sum }

instance (db : Store) (t : Transaction) : Decidable (db.Settleable t) :=
  decidable_of_iff ((db.findByUserIdAndCurrency t.userId t.currency).isSome ∧
    ∀ e ∈ db.ledger.rows, e.idempotencyKey ≠ t.idempotencyKey)
    (and_congr Option.isSome_iff_exists Iff.rfl)

/-- The transactions that the events will have settled. -/
def Store.due (db : Store) (events : List StripeWebhookEvent) : List Transaction :=
  db.transactions.rows.filter fun t => t.status = .pending ∧ db.Settleable t ∧ ∃ e ∈ events, e.Pays t

/-- What the events bring to a wallet does not lead it out of the range. -/
def Store.HasRoomFor (db : Store) (events : List StripeWebhookEvent) : Prop :=
  ∀ a ∈ db.wallets, (a.credited (db.due events)).balance ≤ maxSafeInteger

/-- The row after the settlement of the transactions `T` and the failure of the transactions `F`. -/
def Transaction.handled (t : Transaction) (T F : List Transaction) : Transaction :=
  if t ∈ T then { t with status := .completed }
  else if t ∈ F then { t with status := .failed, failureReason := some "Checkout session expired" }
  else t

def Store.walletIdOf (db : Store) (t : Transaction) : String :=
  ((db.findByUserIdAndCurrency t.userId t.currency).map (·.id)).getD ""

/-- The entry that settles the transaction, but for the balance that it states. -/
def Store.creditFor (db : Store) (t : Transaction) : LedgerEntry :=
  { walletId := db.walletIdOf t
    type := .deposit
    amount := t.amount
    currency := t.currency
    balanceAfter := 0
    idempotencyKey := t.idempotencyKey }

/-- The payload of the event that announces the settlement, which does not say when it happened. -/
def Store.payloadFor (db : Store) (t : Transaction) : Record :=
  (buildOutboxPayload .depositSucceeded (db.walletIdOf t) t.userId t.amount t.currency
    ((db.findUserById t.userId).map (·.email)) 0).payloadJson

/-- From the store `db₀` the events have led to the store `db`: they have settled `T`, in this order, and
    failed `F`. -/
structure Progress (db₀ : Store) (events : List StripeWebhookEvent) (T F : List Transaction) (db : Store) :
    Prop where
  nodup : T.Nodup
  settled : ∀ t, t ∈ T ↔ t ∈ db₀.transactions ∧ t.status = .pending ∧ db₀.Settleable t ∧
    ∃ e ∈ events, e.Pays t
  failed : ∀ t, t ∈ F ↔ t ∈ db₀.transactions ∧ t.status = .pending ∧ ∃ e ∈ events, e.Expires t
  users : db.users = db₀.users
  wallets : db.wallets.rows = db₀.wallets.rows.map (·.credited T)
  transactions : db.transactions.rows = db₀.transactions.rows.map (·.handled T F)
  ledger : ∃ es, db.ledger.rows = db₀.ledger.rows ++ es ∧
    es.map (·.upToBalance) = T.map db₀.creditFor
  outbox : ∃ evs, db.outbox.rows = db₀.outbox.rows ++ evs ∧
    evs.map (·.payloadJson) = T.map db₀.payloadFor

section

variable {db₀ db db' : Store} {events events' : List StripeWebhookEvent} {event : StripeWebhookEvent}
variable {T F T' F' : List Transaction} {t : Transaction}

theorem handled_providerRef (t : Transaction) (T F : List Transaction) :
    (t.handled T F).providerRef = t.providerRef := by
  unfold Transaction.handled
  split
  · rfl
  · split <;> rfl

theorem handled_id (t : Transaction) (T F : List Transaction) : (t.handled T F).id = t.id := by
  unfold Transaction.handled
  split
  · rfl
  · split <;> rfl

/-- No event, no progress. -/
theorem progress_nil (db : Store) : Progress db [] [] [] db where
  nodup := List.nodup_nil
  settled t := by simp
  failed t := by simp
  users := rfl
  wallets := by simp [Wallet.credited]
  transactions := by simp [Transaction.handled]
  ledger := ⟨[], by simp, rfl⟩
  outbox := ⟨[], by simp, rfl⟩

/-- Two stores that the same events have led to. -/
theorem Progress.sameOutcome (h : Progress db₀ events T F db) (h' : Progress db₀ events' T' F' db')
    (hsame : ∀ e, e ∈ events ↔ e ∈ events') : SameOutcome db db' := by
  have hT : T.Perm T' := by
    refine (List.perm_ext_iff_of_nodup h.nodup h'.nodup).mpr fun t => ?_
    simp only [h.settled, h'.settled, hsame]
  have hF : ∀ t, t ∈ F ↔ t ∈ F' := by
    intro t
    simp only [h.failed, h'.failed, hsame]
  obtain ⟨es, hledger, hes⟩ := h.ledger
  obtain ⟨es', hledger', hes'⟩ := h'.ledger
  obtain ⟨evs, houtbox, hevs⟩ := h.outbox
  obtain ⟨evs', houtbox', hevs'⟩ := h'.outbox
  have hdeposits : ∀ {es : List LedgerEntry} {T : List Transaction},
      es.map (·.upToBalance) = T.map db₀.creditFor → es.filter (·.type == .deposit) = es := by
    intro es T hes
    refine List.filter_eq_self.mpr fun e he => ?_
    have hmem : e.upToBalance ∈ T.map db₀.creditFor := hes ▸ List.mem_map_of_mem he
    obtain ⟨t, -, heq⟩ := List.mem_map.mp hmem
    have htype : e.type = .deposit := (congrArg LedgerEntry.type heq).symm
    simp [htype]
  constructor
  · -- a sum does not depend on the order of the settlements
    refine Table.ext ?_
    rw [h.wallets, h'.wallets]
    refine List.map_congr_left fun a _ => ?_
    simp only [Wallet.credited, ((hT.filter _).map _).sum_eq]
  · refine Table.ext ?_
    rw [h.transactions, h'.transactions]
    refine List.map_congr_left fun t _ => ?_
    simp only [Transaction.handled, hT.mem_iff, hF]
  · -- the entries are those from before, and one for each settlement
    rw [hledger, hledger', List.filter_append, List.filter_append, hdeposits hes, hdeposits hes',
      List.map_append, List.map_append, hes, hes']
    exact (hT.map _).append_left _
  · rw [houtbox, houtbox', List.map_append, List.map_append, hevs, hevs']
    exact (hT.map _).append_left _

/-! ## Look-ups on the way -/

theorem Progress.findTransaction (h : Progress db₀ events T F db) (ref : String) :
    db.findTransactionByProviderRef ref =
      (db₀.findTransactionByProviderRef ref).map (·.handled T F) := by
  have hcomp : ((fun t : Transaction => t.providerRef == some ref) ∘
      fun t : Transaction => t.handled T F) = fun t => t.providerRef == some ref := by
    funext t
    simp [handled_providerRef]
  show db.transactions.rows.find? _ = _
  rw [h.transactions, List.find?_map, hcomp]
  rfl

theorem Progress.findWallet (h : Progress db₀ events T F db) (userId currency : String) :
    db.findByUserIdAndCurrency userId currency =
      (db₀.findByUserIdAndCurrency userId currency).map (·.credited T) := by
  show db.wallets.rows.find? _ = _
  rw [h.wallets, List.find?_map]
  rfl

theorem Progress.findUser (h : Progress db₀ events T F db) (userId : String) :
    db.findUserById userId = db₀.findUserById userId := by
  rw [Store.findUserById, h.users]
  rfl

/-- The settlements so far have not taken the key of another transaction. -/
theorem Progress.key_free (h : Progress db₀ events T F db) (ht : t ∈ db₀.transactions) (hT : t ∉ T) :
    (∀ e ∈ db.ledger, e.idempotencyKey ≠ t.idempotencyKey) ↔
      ∀ e ∈ db₀.ledger, e.idempotencyKey ≠ t.idempotencyKey := by
  obtain ⟨es, hledger, hes⟩ := h.ledger
  have hnew : ∀ e ∈ es, e.idempotencyKey ≠ t.idempotencyKey := by
    intro e he hkey
    have hmem : e.upToBalance ∈ T.map db₀.creditFor := hes ▸ List.mem_map_of_mem he
    obtain ⟨t', ht', heq⟩ := List.mem_map.mp hmem
    have hkey' : t'.idempotencyKey = e.idempotencyKey := congrArg LedgerEntry.idempotencyKey heq
    obtain rfl := Transaction.eq_of_key ((h.settled t').mp ht').1 ht (hkey'.trans hkey)
    exact hT ht'
  simp only [Table.mem_def, hledger, List.mem_append]
  constructor
  · exact fun hfree e he => hfree e (.inl he)
  · rintro hfree e (he | he)
    · exact hfree e he
    · exact hnew e he

/-- The status that a row has now. -/
theorem handled_pending (hpending : (t.handled T F).status = .pending) : t ∉ T ∧ t ∉ F ∧ t.status = .pending := by
  unfold Transaction.handled at hpending
  split at hpending
  · cases hpending
  · split at hpending
    · cases hpending
    · exact ⟨‹_›, ‹_›, hpending⟩

theorem handled_of_not (hT : t ∉ T) (hF : t ∉ F) : t.handled T F = t := by
  rw [Transaction.handled, if_neg hT, if_neg hF]

/-! ## One event -/

theorem exists_concat (P : StripeWebhookEvent → Prop) :
    (∃ e ∈ events ++ [event], P e) ↔ (∃ e ∈ events, P e) ∨ P event := by
  simp [or_and_right, exists_or]

/-- An event that brings nothing new. -/
theorem Progress.ignore (h : Progress db₀ events T F db)
    (hT : ∀ t ∈ db₀.transactions, t.status = .pending → db₀.Settleable t → event.Pays t → t ∈ T)
    (hF : ∀ t ∈ db₀.transactions, t.status = .pending → event.Expires t → t ∈ F) :
    Progress db₀ (events ++ [event]) T F db := by
  refine { h with settled := fun t => ?_, failed := fun t => ?_ }
  · rw [exists_concat]
    constructor
    · intro ht
      obtain ⟨hmem, hpending, hsettleable, hpays⟩ := (h.settled t).mp ht
      exact ⟨hmem, hpending, hsettleable, .inl hpays⟩
    · rintro ⟨hmem, hpending, hsettleable, hpays | hpays⟩
      · exact (h.settled t).mpr ⟨hmem, hpending, hsettleable, hpays⟩
      · exact hT t hmem hpending hsettleable hpays
  · rw [exists_concat]
    constructor
    · intro ht
      obtain ⟨hmem, hpending, hexpires⟩ := (h.failed t).mp ht
      exact ⟨hmem, hpending, .inl hexpires⟩
    · rintro ⟨hmem, hpending, hexpires | hexpires⟩
      · exact (h.failed t).mpr ⟨hmem, hpending, hexpires⟩
      · exact hF t hmem hpending hexpires

theorem Paid.not_expired (h : event.Paid) : ¬ event.Expired := by
  intro hexpired
  exact absurd (h.1.symm.trans hexpired) (by decide)

/-- What is known of the store that the events started from. -/
structure Store.Sound (db : Store) : Prop where
  refs : ∀ t ∈ db.transactions, ∀ t' ∈ db.transactions, ∀ ref, t.providerRef = some ref →
    t'.providerRef = some ref → t = t'
  amounts : ∀ t ∈ db.transactions, 1 ≤ t.amount ∧ t.amount ≤ maxSafeInteger
  balances : ∀ a ∈ db.wallets, 0 ≤ a.balance

/-- The settlement of `t` is written to the one row and the one wallet. -/
theorem Progress.rows_settled (h : Progress db₀ events T F db) (ht : t ∈ db₀.transactions) (hT : t ∉ T)
    (hF : t ∉ F) : (db.completeTransaction t.id).transactions.rows =
      db₀.transactions.rows.map (·.handled (T ++ [t]) F) := by
  simp only [Store.completeTransaction, Table.update, h.transactions, List.map_map]
  refine List.map_congr_left fun t' ht' => ?_
  by_cases heq : t' = t
  · subst heq
    simp [Transaction.handled, hT, hF]
  · have hne : t'.id ≠ t.id := fun hid => heq (Transaction.eq_of_id ht' ht hid)
    simp only [Function.comp_apply, handled_id, beq_iff_eq, hne, if_false]
    simp [Transaction.handled, heq]

theorem Progress.rows_credited (h : Progress db₀ events T F db) {a : Wallet} (ha : a ∈ db₀.wallets)
    (huser : a.userId = t.userId) (hcurrency : a.currency = t.currency) :
    (db.setBalance (a.credited T).id ((a.credited T).balance + t.amount)).wallets.rows =
      db₀.wallets.rows.map (·.credited (T ++ [t])) := by
  simp only [Store.setBalance, Table.update, h.wallets, List.map_map]
  refine List.map_congr_left fun b hb => ?_
  by_cases hba : b = a
  · subst hba
    simp [Wallet.credited, List.filter_append, huser, hcurrency, add_assoc]
  · have hne : b.id ≠ a.id := fun hid => hba (Wallet.eq_of_id hb ha hid)
    have hother : ¬ (t.userId = b.userId ∧ t.currency = b.currency) := fun heq =>
      hba (Wallet.eq_of_user hb ha (heq.1.symm.trans huser.symm) (heq.2.symm.trans hcurrency.symm))
    simp [Wallet.credited, List.filter_append, hne, hother]

/-- One more settlement. -/
theorem Progress.settle (h : Progress db₀ events T F db) (hsound : db₀.Sound) (ht : t ∈ db₀.transactions)
    (hpending : t.status = .pending) (hT : t ∉ T) (hF : t ∉ F) (hpays : event.Pays t)
    (hsettleable : db₀.Settleable t) {a : Wallet}
    (ha : db₀.findByUserIdAndCurrency t.userId t.currency = some a) {ledger : Table LedgerEntry}
    {outbox : Table OutboxEvent} {now : ℕ} {id : String} {createdAt : ℕ}
    (hledger : db.ledger.insert? (settlementEntry (a.credited T) t .deposit t.amount) = some ledger)
    (houtbox : db.outbox.insert? ((buildOutboxPayload .depositSucceeded (a.credited T).id t.userId t.amount
      t.currency ((db.findUserById t.userId).map (·.email)) now).create id createdAt) = some outbox) :
    Progress db₀ (events ++ [event]) (T ++ [t]) F (db.settled (a.credited T) t t.amount ledger outbox) := by
  obtain ⟨hmem, hwallet⟩ := Table.mem_of_find? ha
  obtain ⟨huser, hcurrency⟩ : a.userId = t.userId ∧ a.currency = t.currency := by simpa using hwallet
  have hid : db₀.walletIdOf t = a.id := by simp [Store.walletIdOf, ha]
  obtain ⟨es, hes, hcredits⟩ := h.ledger
  obtain ⟨evs, hevs, hpayloads⟩ := h.outbox
  constructor
  -- `t` is settled for the first time
  · rw [List.nodup_append]
    refine ⟨h.nodup, List.nodup_singleton t, ?_⟩
    rintro t₁ h₁ t₂ h₂ rfl
    exact hT (List.mem_singleton.mp h₂ ▸ h₁)
  -- the event pays for `t` and, as references are distinct, for no other transaction
  · intro t'
    rw [List.mem_append, List.mem_singleton, h.settled, exists_concat]
    constructor
    · rintro (⟨hmem', hpending', hsettleable', hpays'⟩ | rfl)
      · exact ⟨hmem', hpending', hsettleable', .inl hpays'⟩
      · exact ⟨ht, hpending, hsettleable, .inr hpays⟩
    · rintro ⟨hmem', hpending', hsettleable', hpays' | hpays'⟩
      · exact .inl ⟨hmem', hpending', hsettleable', hpays'⟩
      · exact .inr (hsound.refs t' hmem' t ht _ hpays'.2 hpays.2)
  -- nor does it report a failure
  · intro t'
    have hnot : ¬ event.Expires t' := fun hexpires => Paid.not_expired hpays.1 hexpires.1
    rw [h.failed, exists_concat, or_iff_left hnot]
  · exact h.users
  · exact h.rows_credited hmem huser hcurrency
  · exact h.rows_settled ht hT hF
  -- the entry and the event are those of the settlement, whatever balance and date they state
  · refine ⟨es ++ [settlementEntry (a.credited T) t .deposit t.amount], ?_, ?_⟩
    · rw [← List.append_assoc, ← hes]
      exact (Table.insert?_eq_some hledger).2
    · rw [List.map_append, List.map_append, hcredits]
      simp [LedgerEntry.upToBalance, settlementEntry, Store.creditFor, hid, Wallet.credited, hcurrency]
  · refine ⟨evs ++ [_], (Table.insert?_eq_some houtbox).2.trans (by rw [hevs, List.append_assoc]), ?_⟩
    rw [List.map_append, List.map_append, hpayloads]
    simp [Store.payloadFor, hid, Wallet.credited, h.findUser, OutboxData.create, buildOutboxPayload]

/-- One more failure. -/
theorem Progress.fail (h : Progress db₀ events T F db) (hsound : db₀.Sound) (ht : t ∈ db₀.transactions)
    (hpending : t.status = .pending) (hT : t ∉ T) (hexpires : event.Expires t) :
    Progress db₀ (events ++ [event]) T (F ++ [t]) (db.failTransaction t "Checkout session expired") := by
  refine { h with settled := fun t' => ?_, failed := fun t' => ?_, transactions := ?_ }
  · have hnot : ¬ event.Pays t' := fun hpays => Paid.not_expired hpays.1 hexpires.1
    rw [h.settled, exists_concat, or_iff_left hnot]
  · rw [List.mem_append, List.mem_singleton, h.failed, exists_concat]
    constructor
    · rintro (⟨hmem', hpending', hexpires'⟩ | rfl)
      · exact ⟨hmem', hpending', .inl hexpires'⟩
      · exact ⟨ht, hpending, .inr hexpires⟩
    · rintro ⟨hmem', hpending', hexpires' | hexpires'⟩
      · exact .inl ⟨hmem', hpending', hexpires'⟩
      · exact .inr (hsound.refs t' hmem' t ht _ hexpires'.2 hexpires.2)
  · simp only [Store.failTransaction, Table.update, h.transactions, List.map_map]
    refine List.map_congr_left fun t' ht' => ?_
    by_cases heq : t' = t
    · subst heq
      by_cases hF : t' ∈ F <;> simp [Transaction.handled, hT, hF]
    · have hne : t'.id ≠ t.id := fun hid => heq (Transaction.eq_of_id ht' ht hid)
      simp only [Function.comp_apply, handled_id, beq_iff_eq, hne, if_false]
      simp [Transaction.handled, heq]

/-! ## The handlers -/

/-- The events have led from the store `db₀` to the world `w`. -/
def Led (db₀ : Store) (events : List StripeWebhookEvent) (w : World) : Prop :=
  (∃ T F, Progress db₀ events T F w.db) ∧ ∀ ev ∈ w.db.outbox, ev.id ∈ w.issuedIds

variable {w : World} {i : ℕ} {all : List StripeWebhookEvent}

/-- Fewer settlements, no higher balance. -/
theorem credited_le (hsound : db₀.Sound) (hnd : T.Nodup) (hdue : T ⊆ db₀.due events) (a : Wallet) :
    (a.credited T).balance ≤ (a.credited (db₀.due events)).balance := by
  obtain ⟨T', hperm, hsub⟩ := List.subperm_of_subset hnd hdue
  have hle := ((hsub.filter fun t => t.userId = a.userId ∧ t.currency = a.currency).map
    (·.amount)).sum_le_sum fun x hx => ?_
  · simp only [Wallet.credited, ← ((hperm.filter _).map _).sum_eq]
    exact Int.add_le_add_left hle _
  · obtain ⟨t, ht, rfl⟩ := List.mem_map.mp hx
    have hmin := (hsound.amounts t (List.mem_of_mem_filter (List.mem_of_mem_filter ht))).1
    omega

theorem Progress.balance_nonneg (h : Progress db₀ events T F db) (hsound : db₀.Sound) {a : Wallet}
    (ha : a ∈ db₀.wallets) : 0 ≤ (a.credited T).balance := by
  have hsum : 0 ≤ ((T.filter fun t => t.userId = a.userId ∧ t.currency = a.currency).map (·.amount)).sum := by
    refine List.sum_nonneg fun x hx => ?_
    obtain ⟨t, ht, rfl⟩ := List.mem_map.mp hx
    have hmin := (hsound.amounts t ((h.settled t).mp (List.mem_of_mem_filter ht)).1).1
    omega
  have hbalance := hsound.balances a ha
  simp only [Wallet.credited]
  omega

/-- The settlement of a pending transaction whose ledger key is free is not refused. -/
theorem Progress.settles (h : Progress db₀ events T F w.db) (hsound : db₀.Sound)
    (hids : ∀ ev ∈ w.db.outbox, ev.id ∈ w.issuedIds) (ht : t ∈ db₀.transactions) (hT : t ∉ T)
    (hsettleable : db₀.Settleable t) {a : Wallet} (ha : a ∈ db₀.wallets)
    (hmem : a.credited T ∈ w.db.wallets) (item : OutboxEvent) (hitem : item.id ∉ w.issuedIds) :
    ∃ entry db, w.db.settleTransaction (a.credited T).id t .deposit t.amount item = .ok (entry, db) := by
  have hamount := (hsound.amounts t ht).1
  have hbalance := h.balance_nonneg hsound ha
  obtain ⟨ledger, hledger⟩ := (ledger_insert_isSome
    (e := settlementEntry (a.credited T) t .deposit t.amount)).mpr ((h.key_free ht hT).mpr hsettleable.2)
  have hnew : ∀ ev ∈ w.db.outbox, Entity.clash ev item = false := by
    intro ev hev
    refine beq_false_of_ne fun heq => hitem ?_
    rw [← heq]
    exact hids ev hev
  obtain ⟨outbox, houtbox⟩ := Option.isSome_iff_exists.mp (Table.insert?_isSome.mpr hnew)
  exact ⟨_, _, settleTransaction_eq_ok.mpr ⟨_, hmem, rfl, by omega, rfl, ledger, outbox, hledger, houtbox, rfl⟩⟩

/-- Whatever the sum is, a settlement commits only if its ledger key is free. -/
theorem key_free_of_settle {walletId : String} {t : Transaction} {type : LedgerEntryType} {change : ℤ}
    {item : OutboxEvent} {entry : LedgerEntry} {db' : Store}
    (h : Numbers.settleTransaction db walletId t type change item = .ok (entry, db')) :
    ∀ e ∈ db.ledger, e.idempotencyKey ≠ t.idempotencyKey := by
  unfold Numbers.settleTransaction at h
  cases hwallet : db.findWallet walletId with
  | none => rw [hwallet] at h; cases h
  | some wallet =>
    simp only [hwallet] at h
    split at h
    · cases h
    · obtain ⟨balance, -, h⟩ := bind_eq_ok.mp h
      obtain ⟨db₁, hentry, -⟩ := bind_eq_ok.mp h
      obtain ⟨ledger, hinsert, -⟩ := saveLedgerEntry_eq_ok.mp hentry
      exact ledger_insert_isSome.mp ⟨ledger, hinsert⟩

/-- What the wallet holds after the next settlement is in the range. -/
theorem Progress.sum_in_range (h : Progress db₀ events T F db) (hsound : db₀.Sound) (hroom : db₀.HasRoomFor all)
    (hall : events ++ [event] ⊆ all) (ht : t ∈ db₀.transactions) (hpending : t.status = .pending) (hT : t ∉ T)
    (hpays : event.Pays t) (hsettleable : db₀.Settleable t) {a : Wallet} (ha : a ∈ db₀.wallets)
    (huser : a.userId = t.userId) (hcurrency : a.currency = t.currency) :
    (a.credited T).balance + t.amount ≤ maxSafeInteger := by
  have hnd : (T ++ [t]).Nodup := by
    rw [List.nodup_append]
    refine ⟨h.nodup, List.nodup_singleton t, ?_⟩
    rintro t₁ h₁ t₂ h₂ rfl
    exact hT (List.mem_singleton.mp h₂ ▸ h₁)
  have hdue : T ++ [t] ⊆ db₀.due all := by
    intro t' ht'
    simp only [Store.due, List.mem_filter, decide_eq_true_eq]
    rcases List.mem_append.mp ht' with ht' | ht'
    · obtain ⟨hmem, hpending', hset, e, he, hpays'⟩ := (h.settled t').mp ht'
      exact ⟨hmem, hpending', hset, e, hall (List.mem_append_left _ he), hpays'⟩
    · obtain rfl := List.mem_singleton.mp ht'
      exact ⟨ht, hpending, hsettleable, event, hall (by simp), hpays⟩
  have hsum : (a.credited (T ++ [t])).balance = (a.credited T).balance + t.amount := by
    simp [Wallet.credited, List.filter_append, huser, hcurrency, add_assoc]
  rw [← hsum]
  exact (credited_le hsound hnd hdue a).trans (hroom a ha)

/-- The transaction of the event is the one that the look-up finds. -/
theorem eq_of_found (hsound : db₀.Sound) {ref : String}
    (hfind : db₀.findTransactionByProviderRef ref = some t) : t ∈ db₀.transactions ∧
      t.providerRef = some ref ∧ ∀ t' ∈ db₀.transactions, t'.providerRef = some ref → t' = t := by
  obtain ⟨ht, href⟩ := Table.mem_of_find? hfind
  have href : t.providerRef = some ref := by simpa using href
  exact ⟨ht, href, fun t' ht' href' => hsound.refs t' ht' t ht ref href' href⟩

theorem not_found {ref : String} (hfind : db₀.findTransactionByProviderRef ref = none)
    (ht : t ∈ db₀.transactions) : t.providerRef ≠ some ref := by
  simpa using Table.find?_eq_none.mp hfind t ht

theorem wp_settlePending (hp : Progress db₀ events T F w.db) (hsound : db₀.Sound)
    (hids : ∀ ev ∈ w.db.outbox, ev.id ∈ w.issuedIds) (hroom : db₀.HasRoomFor all) (hall : events ++ [event] ⊆ all)
    (ht : t ∈ db₀.transactions) (hpending : t.status = .pending) (hT : t ∉ T) (hF : t ∉ F)
    (hpays : event.Pays t) {a : Wallet} (ha : db₀.findByUserIdAndCurrency t.userId t.currency = some a)
    (hignore : ¬ db₀.Settleable t → Led db₀ (events ++ [event]) w) :
    (settlePending t (a.credited T)).wp (GetsThrough Numbers.perform i) Eq
      (fun _ w' => Led db₀ (events ++ [event]) w') w := by
  have hmem : a.credited T ∈ w.db.wallets := by
    have hfound := hp.findWallet t.userId t.currency
    rw [ha] at hfound
    exact (Table.mem_of_find? hfound).1
  obtain ⟨ha₀, huser⟩ := Table.mem_of_find? ha
  obtain ⟨huser, hcurrency⟩ : a.userId = t.userId ∧ a.currency = t.currency := by simpa using huser
  unfold settlePending
  refine Program.wp_bind (fun _ => rfl) (wp_read (fun _ => rfl) fun _ => ?_)
  rintro _ rfl
  refine wp_read (fun _ => rfl) fun ω₁ => ?_
  by_cases hsettleable : db₀.Settleable t
  · -- the sum is exact, and the store does not refuse it
    have hamount := hsound.amounts t ht
    have hbalance := hp.balance_nonneg hsound ha₀
    have hsum := hp.sum_in_range hsound hroom hall ht hpending hT hpays hsettleable ha₀ huser hcurrency
    have hwallet : ∀ wallet, w.db.findWallet (a.credited T).id = some wallet →
        wallet.balance.natAbs ≤ maxSafeInteger ∧ (wallet.balance + t.amount).natAbs ≤ maxSafeInteger := by
      intro wallet hfound
      obtain ⟨hwallet, hid⟩ := findWallet_eq_some.mp hfound
      obtain rfl := Wallet.eq_of_id hwallet hmem hid
      omega
    refine wp_insert (fun _ => Numbers.perform_settle (by omega) hwallet)
      (fun ω₂ entry db hfresh hok => ?_) fun ω₂ e hfresh herror => ?_
    · obtain ⟨wallet, hwallet, hid, -, rfl, ledger, outbox, hledger, houtbox, rfl⟩ :=
        settleTransaction_eq_ok.mp hok
      obtain rfl := Wallet.eq_of_id hwallet hmem hid
      refine Program.wp_call_alone fun r w₁ h => ?_
      obtain ⟨-, rfl⟩ := faultless_write (fun _ => rfl) h
      refine ⟨⟨T ++ [t], F, hp.settle hsound ht hpending hT hF hpays hsettleable ha hledger houtbox⟩, ?_⟩
      intro ev hev
      rcases (Table.mem_insert? houtbox).mp hev with hev | rfl
      · exact List.mem_cons_of_mem _ (hids ev hev)
      · exact List.mem_cons_self
    · obtain ⟨entry, db, hok⟩ := hp.settles hsound hids ht hT hsettleable ha₀ hmem
        (OutboxData.create _ ω₂.uuid ω₂.now) hfresh
      cases herror.symm.trans hok
  · -- the ledger key is taken, and the settlement is rolled back
    refine wp_insert (fun _ => rfl) (fun ω₂ entry db _ hok => ?_) fun _ _ _ _ => hignore hsettleable
    exact absurd ⟨⟨a, ha⟩, (hp.key_free ht hT).mp (key_free_of_settle hok)⟩ hsettleable

theorem wp_settleByProviderRef (hp : Progress db₀ events T F w.db) (hsound : db₀.Sound)
    (hids : ∀ ev ∈ w.db.outbox, ev.id ∈ w.issuedIds) (hroom : db₀.HasRoomFor all) (hall : events ++ [event] ⊆ all)
    (hconsistent : Consistent (events ++ [event])) (hpaid : event.Paid) :
    (settleByProviderRef event.objectId).wp (GetsThrough Numbers.perform i) Eq
      (fun _ w' => Led db₀ (events ++ [event]) w') w := by
  have hignore : (∀ t ∈ db₀.transactions, t.status = .pending → db₀.Settleable t →
      t.providerRef = some event.objectId → t ∈ T) → Led db₀ (events ++ [event]) w := fun hT =>
    ⟨⟨T, F, hp.ignore (fun t ht hpending hset hpays => hT t ht hpending hset hpays.2)
      fun _ _ _ hexpires => absurd hexpires.1 (Paid.not_expired hpaid)⟩, hids⟩
  unfold settleByProviderRef
  refine wp_read (fun _ => rfl) fun _ => ?_
  rw [hp.findTransaction]
  cases hfind : db₀.findTransactionByProviderRef event.objectId with
  | none =>
    rintro _ rfl
    exact hignore fun t ht _ _ href => absurd href (not_found hfind ht)
  | some t =>
    obtain ⟨ht, href, honly⟩ := eq_of_found hsound hfind
    simp only [Option.map_some]
    split
    · -- it was settled before: it cannot have failed, for no event says so
      rename_i hstatus
      rintro _ rfl
      refine hignore fun t' ht' hpending _ href' => ?_
      obtain rfl := honly t' ht' href'
      by_contra hT
      refine hstatus ?_
      rw [handled_of_not hT, hpending]
      intro hF
      obtain ⟨-, -, e, he, hexpired, href''⟩ := (hp.failed t').mp hF
      exact hconsistent event (by simp) e (by simp [he]) hpaid hexpired
        (Option.some.inj (href.symm.trans href''))
    · rename_i hstatus
      obtain ⟨hT, hF, hpending⟩ := handled_pending (not_ne_iff.mp hstatus)
      rw [handled_of_not hT hF]
      refine wp_read (fun _ => rfl) fun _ => ?_
      rw [hp.findWallet]
      have hnot : ¬ db₀.Settleable t → Led db₀ (events ++ [event]) w := fun hnot =>
        hignore fun t' ht' _ hset href' => absurd (honly t' ht' href' ▸ hset) hnot
      cases ha : db₀.findByUserIdAndCurrency t.userId t.currency with
      | none =>
        -- no wallet to credit: the handler logs this and returns
        rintro _ rfl
        refine hnot fun ⟨⟨a, ha'⟩, _⟩ => ?_
        cases ha.symm.trans ha'
      | some a => exact wp_settlePending hp hsound hids hroom hall ht hpending hT hF ⟨hpaid, href⟩ ha hnot

theorem wp_failByProviderRef (hp : Progress db₀ events T F w.db) (hsound : db₀.Sound)
    (hids : ∀ ev ∈ w.db.outbox, ev.id ∈ w.issuedIds) (hconsistent : Consistent (events ++ [event]))
    (hexpired : event.Expired) : (failByProviderRef event.objectId "Checkout session expired").wp
      (GetsThrough Numbers.perform i) Eq (fun _ w' => Led db₀ (events ++ [event]) w') w := by
  have hignore : (∀ t ∈ db₀.transactions, t.status = .pending →
      t.providerRef = some event.objectId → t ∈ F) → Led db₀ (events ++ [event]) w := fun hF =>
    ⟨⟨T, F, hp.ignore (fun _ _ _ _ hpays => absurd hexpired (Paid.not_expired hpays.1))
      fun t ht hpending hexpires => hF t ht hpending hexpires.2⟩, hids⟩
  unfold failByProviderRef
  refine wp_read (fun _ => rfl) fun _ => ?_
  rw [hp.findTransaction]
  cases hfind : db₀.findTransactionByProviderRef event.objectId with
  | none =>
    rintro _ rfl
    exact hignore fun t ht _ href => absurd href (not_found hfind ht)
  | some t =>
    obtain ⟨ht, href, honly⟩ := eq_of_found hsound hfind
    simp only [Option.map_some]
    split
    · -- it has failed before: it cannot be settled, for no event says so
      rename_i hstatus
      rintro _ rfl
      refine hignore fun t' ht' hpending href' => ?_
      obtain rfl := honly t' ht' href'
      by_contra hF
      refine hstatus ?_
      rw [handled_of_not _ hF, hpending]
      intro hT
      obtain ⟨-, -, -, e, he, hpaid, href''⟩ := (hp.settled t').mp hT
      exact hconsistent e (by simp [he]) event (by simp) hpaid hexpired
        (Option.some.inj (href''.symm.trans href))
    · rename_i hstatus
      obtain ⟨hT, hF, hpending⟩ := handled_pending (not_ne_iff.mp hstatus)
      rw [handled_of_not hT hF]
      refine Program.wp_call_alone fun r w₁ h => ?_
      obtain ⟨-, rfl⟩ := faultless_write (fun _ => rfl) h
      exact ⟨⟨T, F ++ [t], hp.fail hsound ht hpending hT ⟨hexpired, href⟩⟩, hids⟩

/-- One more event. -/
theorem wp_handleWebhook (h : Led db₀ events w) (hsound : db₀.Sound) (hroom : db₀.HasRoomFor all)
    (hall : events ++ [event] ⊆ all) (hconsistent : Consistent (events ++ [event])) {signature : String}
    (hsignature : signature ≠ "") : (handleWebhook (some signature) (.ok event)).wp
      (GetsThrough Numbers.perform i) Eq (fun _ w' => Led db₀ (events ++ [event]) w') w := by
  obtain ⟨⟨T, F, hp⟩, hids⟩ := h
  have hnothing : ¬ event.Paid → ¬ event.Expired → Led db₀ (events ++ [event]) w := fun hpaid hexpired =>
    ⟨⟨T, F, hp.ignore (fun _ _ _ _ hpays => absurd hpays.1 hpaid)
      fun _ _ _ hexpires => absurd hexpires.1 hexpired⟩, hids⟩
  have hempty : signature.isEmpty = false := by simpa using hsignature
  unfold handleWebhook
  simp only [Option.getD_some, hempty, Bool.false_eq_true, if_false]
  split
  · rename_i hcompleted
    split
    · rename_i hpaid
      exact wp_settleByProviderRef hp hsound hids hroom hall hconsistent ⟨hcompleted, hpaid⟩
    · -- a session that is completed and not paid is passed over
      rename_i hpaid
      rintro _ rfl
      exact hnothing (fun h => hpaid h.2) fun h => absurd (hcompleted.symm.trans h) (by decide)
  · rename_i hcompleted
    split
    · rename_i hexpired
      exact wp_failByProviderRef hp hsound hids hconsistent hexpired
    · rename_i hexpired
      rintro _ rfl
      exact hnothing (fun h => hcompleted h.1) hexpired

/-- All of them, one after another. -/
theorem Handled.led {w' : World} (h : Handled w events' w') (hled : Led db₀ events w) (hsound : db₀.Sound)
    (hroom : db₀.HasRoomFor all) (hall : events ++ events' ⊆ all) (hconsistent : Consistent (events ++ events')) :
    Led db₀ (events ++ events') w' := by
  induction h generalizing events with
  | nil w => simpa using hled
  | @cons w w₁ w' event events' i signature r hsignature hrun _ ih =>
    have hassoc : events ++ event :: events' = events ++ [event] ++ events' := by simp
    rw [hassoc] at hconsistent hall ⊢
    -- what the call of the first event leaves is where the others begin
    refine ih (Program.wp_eq_iff.mp (wp_handleWebhook hled hsound hroom ?_ ?_ hsignature) r w₁ hrun) hall
      hconsistent
    · exact fun e he => hall (List.mem_append_left _ he)
    · intro e he e' he'
      exact hconsistent e (List.mem_append_left _ he) e' (List.mem_append_left _ he')

end

/-- With doubles, too, whatever is awaited settles. -/
theorem numbers_total (i : ℕ) (o : Op) (w : World) : ∃ r w', GetsThrough Numbers.perform i o w r w' := by
  cases o with
  | createTransaction data => exact insert_total fun _ => rfl
  | settleTransaction walletId t type change data => exact insert_total fun _ => rfl
  | createTransfer data => exact insert_total fun _ => rfl
  | executeTransfer t fromWalletId toWalletId data => exact insert_total fun _ => rfl
  | processDeposit amount currency paymentMethod transactionId userId =>
    exact faultless_total i (.processDeposit (number amount) currency paymentMethod transactionId userId) w
  | _ => exact faultless_total i _ w

/-- Every list of events can be handled. -/
theorem handled_exists (w : World) (events : List StripeWebhookEvent) : ∃ w', Handled w events w' := by
  induction events generalizing w with
  | nil => exact ⟨w, .nil w⟩
  | cons event events ih =>
    obtain ⟨r, w₁, hrun⟩ :=
      Program.runs_exists (numbers_total 0) (handleWebhook (some "signature") (.ok event)) w
    obtain ⟨w', h⟩ := ih w₁
    exact ⟨w', .cons (by decide) hrun h⟩

/-- A store that was reached in the range satisfies what the handlers rely on. -/
theorem World.Inv.sound {w : World} (hinv : w.Inv) (hb : w.Bounded) : w.db.Sound where
  refs _ ht _ ht' _ href href' := hinv.payments.eq_of_ref ht ht' href href'
  amounts t ht := ⟨hinv.deposits.amount_min t ht, hb.transactions t ht⟩
  balances a ha := (hinv.replays a ha).closing_nonneg le_rfl

/-- For every store that was reached in the range, and two lists of the same events, each as often and in
    whatever order, in which no session is both paid and expired and which lead no wallet out of the range:
    handling the one list or the other, one event after another, leads to the same balances, statuses,
    failure reasons, deposits and payloads. -/
theorem webhooks_order_independent {registry : PaymentGatewayRegistry} {s : State}
    (hs : Numbers.ReachableBy registry InRange s) {events events' : List StripeWebhookEvent}
    (hsame : ∀ e, e ∈ events ↔ e ∈ events') (hconsistent : Consistent events)
    (hroom : s.world.db.HasRoomFor events) {w w' : World} (h : Handled s.world events w)
    (h' : Handled s.world events' w') : SameOutcome w.db w'.db := by
  have hreach : ReachableBy registry InRange s := hs.integers fun _ _ => id
  have hinv := hreach.reachable.inv
  have hsound := hinv.sound (bounded hreach)
  have hstart : Led s.world.db [] s.world := ⟨⟨[], [], progress_nil _⟩, hinv.ids.outbox⟩
  have hconsistent' : Consistent events' := fun e he e' he' =>
    hconsistent e ((hsame e).mpr he) e' ((hsame e').mpr he')
  obtain ⟨⟨T, F, hp⟩, -⟩ := h.led hstart hsound hroom (fun _ => id) hconsistent
  obtain ⟨⟨T', F', hp'⟩, -⟩ := h'.led hstart hsound hroom (fun e he => (hsame e).mpr he) hconsistent'
  exact hp.sameOutcome hp' hsame

/-! ## One payment, one expired session -/

/-- Events with the choices of the operations that handle them. -/
def handleAll : List (StripeWebhookEvent × List Choice) → World → Option World
  | [], w => some w
  | (event, ωs) :: rest, w =>
      ((Numbers.server cardPayments).execute 0 ωs (handleWebhook (some "signature") (.ok event)) w).bind
        fun result => handleAll rest result.2

theorem handled_of_handleAll {xs : List (StripeWebhookEvent × List Choice)} {w w' : World}
    (hωs : ∀ x ∈ xs, ∀ ω ∈ x.2, ω.fault = none) (h : handleAll xs w = some w') :
    Handled w (xs.map (·.1)) w' := by
  induction xs generalizing w with
  | nil =>
    cases h
    exact .nil _
  | cons x xs ih =>
    obtain ⟨⟨r, w₁⟩, hexecute, hrest⟩ := Option.bind_eq_some_iff.mp h
    exact .cons (by decide) (runs_of_execute_faultless (hωs x List.mem_cons_self) hexecute)
      (ih (fun y hy => hωs y (List.mem_cons_of_mem x hy)) hrest)

/-- A deposit for which Ada opens a session. -/
def opening (i : ℕ) (input : DepositDto) : List (Label Request Choice) :=
  payIn i "u1" input ("t-" ++ input.idempotencyKey) ("cs-" ++ input.idempotencyKey)

def paidEvent (key : String) : StripeWebhookEvent :=
  ⟨"event", "checkout.session.completed", "cs-" ++ key, some "paid"⟩

def expiredEvent (key : String) : StripeWebhookEvent :=
  ⟨"event", "checkout.session.expired", "cs-" ++ key, none⟩

/-- The choices for a settlement. -/
def settling (eventId : String) : List Choice := [{}, {}, {}, {}, { uuid := eventId }, {}]

/-- Ada has started two deposits. -/
def twoDeposits : List (Label Request Choice) :=
  openWallet 0 "u1" "Ada" "w1" ++ opening 1 topup ++
    opening 2 { topup with idempotencyKey := "again", idempotencyKey_notEmpty := by decide }

instance (db : Store) (events : List StripeWebhookEvent) : Decidable (db.HasRoomFor events) :=
  inferInstanceAs (Decidable (∀ a ∈ db.wallets.rows, (a.credited (db.due events)).balance ≤ maxSafeInteger))

theorem webhooks_order_independent_twice : ∃ (s : State) (w w' : World),
    Numbers.ReachableBy cardPayments InRange s ∧
    Handled s.world [paidEvent "topup", expiredEvent "again"] w ∧
    Handled s.world [expiredEvent "again", paidEvent "topup", paidEvent "topup"] w' ∧
    w.db.wallets.rows.map (·.balance) = [50] ∧ SameOutcome w.db w'.db := by
  have hrun : ((Numbers.server cardPayments).runUnder InRange twoDeposits ⟨World.fresh adaAndBob, []⟩).bind
      (fun s => (handleAll [(paidEvent "topup", settling "e1"), (expiredEvent "again", [{}, {}])] s.world).bind
        fun w => (handleAll [(expiredEvent "again", [{}, {}]), (paidEvent "topup", settling "e1"),
          (paidEvent "topup", [{}])] s.world).map fun _ =>
            (w.db.wallets.rows.map (·.balance),
              decide (s.world.db.HasRoomFor [paidEvent "topup", expiredEvent "again"]))) = some ([50], true) := by
    decide +kernel
  obtain ⟨s, hs, hrun⟩ := Option.bind_eq_some_iff.mp hrun
  obtain ⟨w, hw, hrun⟩ := Option.bind_eq_some_iff.mp hrun
  obtain ⟨w', hw', hend⟩ := Option.map_eq_some_iff.mp hrun
  obtain ⟨hbalance, hroom⟩ := Prod.mk.inj hend
  have h := handled_of_handleAll (by decide) hw
  have h' := handled_of_handleAll (by decide) hw'
  have hreach : Numbers.ReachableBy cardPayments InRange s :=
    ⟨_, World.fresh_initial adaAndBob, Server.reaches_of_runUnder hs⟩
  refine ⟨s, w, w', hreach, h, h', hbalance, ?_⟩
  refine webhooks_order_independent hreach (fun e => ?_) ?_ (of_decide_eq_true hroom) h h'
  · simp only [List.map_cons, List.map_nil, List.mem_cons, List.not_mem_nil, or_false, or_self]
    exact or_comm
  · intro e he e' he' hpaid hexpired
    simp only [List.mem_cons, List.not_mem_nil, or_false] at he he'
    rcases he with rfl | rfl
    · rcases he' with rfl | rfl
      · exact absurd hexpired (Paid.not_expired hpaid)
      · decide
    · exact absurd hpaid.1 (by decide)

/-- Ada has started to pay in her fortune, and two cents twice. -/
def fortuneAndTips : List (Label Request Choice) :=
  openWallet 0 "u1" "Ada" "w1" ++ opening 1 fortune ++ opening 2 tip ++
    opening 3 { tip with idempotencyKey := "second tip", idempotencyKey_notEmpty := by decide }

/-- In one order the two tips are rounded away one by one, in another they are settled first. -/
theorem tips_before_fortune : ∃ (s : State) (w w' : World), Numbers.ReachableBy cardPayments InRange s ∧
    Handled s.world [paidEvent "fortune", paidEvent "tip", paidEvent "second tip"] w ∧
    Handled s.world [paidEvent "tip", paidEvent "second tip", paidEvent "fortune"] w' ∧
    w.db.wallets.rows.map (·.balance) = [9007199254740994] ∧
    w'.db.wallets.rows.map (·.balance) = [9007199254740996] ∧ ¬ SameOutcome w.db w'.db := by
  have hrun : ((Numbers.server cardPayments).runUnder InRange fortuneAndTips
      ⟨World.fresh adaAndBob, []⟩).bind (fun s =>
        (handleAll [(paidEvent "fortune", settling "e1"), (paidEvent "tip", settling "e2"),
          (paidEvent "second tip", settling "e3")] s.world).bind fun w =>
            (handleAll [(paidEvent "tip", settling "e1"), (paidEvent "second tip", settling "e2"),
              (paidEvent "fortune", settling "e3")] s.world).map fun w' =>
                (w.db.wallets.rows.map (·.balance), w'.db.wallets.rows.map (·.balance))) =
      some ([9007199254740994], [9007199254740996]) := by
    decide +kernel
  obtain ⟨s, hs, hrun⟩ := Option.bind_eq_some_iff.mp hrun
  obtain ⟨w, hw, hrun⟩ := Option.bind_eq_some_iff.mp hrun
  obtain ⟨w', hw', hend⟩ := Option.map_eq_some_iff.mp hrun
  obtain ⟨hbalance, hbalance'⟩ := Prod.mk.inj hend
  refine ⟨s, w, w', ⟨_, World.fresh_initial adaAndBob, Server.reaches_of_runUnder hs⟩,
    handled_of_handleAll (by decide) hw, handled_of_handleAll (by decide) hw', hbalance, hbalance',
    fun h => ?_⟩
  rw [h.wallets, hbalance'] at hbalance
  exact absurd hbalance (by decide)

end LiorParisWallet
