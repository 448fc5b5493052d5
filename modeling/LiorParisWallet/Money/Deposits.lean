import LiorParisWallet.Money.Ledger
import LiorParisWallet.Money.Numbers

/-!
# Deposits

A row of a transaction stands for one call of `deposit`, is paid for at most once and credited at most
once, and with its amount where no sum leaves the range.  Its status is sound as long as no handler acts on
a row that another one has finished.
-/

namespace LiorParisWallet

open Async Relational

variable {registry : PaymentGatewayRegistry} {s s' : State}
variable {allowed : State → Label Request Choice → Prop}

/-- A row of a transaction is an old row, with its core, or has just been inserted. -/
theorem transaction_origin {w w' : World} {i : ℕ} {o : Op} (he : Effect i w o w')
    {t' : Transaction} (ht' : t' ∈ w'.db.transactions) :
    (∃ t ∈ w.db.transactions, t'.core = t.core) ∨
      ∃ data id, o = .createTransaction data ∧ t' = data.create id ∧ (id, i) ∈ w'.issued := by
  cases he with
  | @createTransaction data id _ fresh inserted =>
    rcases (Table.mem_insert? inserted).mp ht' with ht' | rfl
    · exact .inl ⟨t', ht', rfl⟩
    · exact .inr ⟨data, id, rfl, rfl, List.mem_cons_self⟩
  | updateTransactionProviderRef id ref =>
    obtain ⟨t, ht, rfl⟩ := mem_updateTransactionProviderRef.mp ht'
    exact .inl ⟨t, ht, by split <;> rfl⟩
  | failTransaction t₀ reason =>
    obtain ⟨t, ht, rfl⟩ := mem_failTransaction.mp ht'
    exact .inl ⟨t, ht, by split <;> rfl⟩
  | settleTransaction fresh wallet_mem enough entry event =>
    obtain ⟨t, ht, rfl⟩ := mem_completeTransaction.mp ht'
    exact .inl ⟨t, ht, by split <;> rfl⟩
  | _ => exact .inl ⟨t', ht', rfl⟩

/-- Call `i` asked for the deposit that the row stands for, and inserted the row. -/
structure RequestedBy (R : ℕ → Request → Prop) (w : World) (i : ℕ) (t : Transaction)
    (userId : String) (input : DepositDto) : Prop where
  request : R i (.deposit userId input)
  own : (t.id, i) ∈ w.issued
  userId : t.userId = userId
  amount : t.amount = input.amount
  currency : t.currency = input.currency.value
  idempotencyKey : t.idempotencyKey = input.idempotencyKey

theorem RequestedBy.mono {R R' : ℕ → Request → Prop} {w w' : World} {i : ℕ} {t t' : Transaction}
    {userId : String} {input : DepositDto} (h : RequestedBy R w i t userId input)
    (hR : ∀ i req, R i req → R' i req) (hc : t'.core = t.core)
    (hg : ∀ x ∈ w.issued, x ∈ w'.issued) : RequestedBy R' w' i t' userId input where
  request := hR _ _ h.request
  own := by
    rw [Transaction.core_id hc]
    exact hg _ h.own
  userId := (Transaction.core_userId hc).trans h.userId
  amount := (Transaction.core_amount hc).trans h.amount
  currency := (Transaction.core_currency hc).trans h.currency
  idempotencyKey := (Transaction.core_key hc).trans h.idempotencyKey

/-- Every row of a transaction was inserted by a call that asked for it. -/
theorem Reachable.requested (h : Reachable registry s) : ∀ t ∈ s.world.db.transactions,
    ∃ i userId input, RequestedBy (Asked s) s.world i t userId input := by
  refine h.induction_asked (fun w R => ∀ t ∈ w.db.transactions,
    ∃ i userId input, RequestedBy R w i t userId input) ?_ ?_ ?_
  · intro w R hw t ht
    rw [hw.transactions] at ht
    exact absurd ht (Table.not_mem_empty t)
  · intro w R R' hR h t ht
    obtain ⟨i, userId, input, hby⟩ := h t ht
    exact ⟨i, userId, input, hby.mono hR rfl fun _ => id⟩
  · intro w w' i req o R _ hasked hpre he h t ht
    rcases transaction_origin he ht with ⟨t₁, ht₁, hcore⟩ | ⟨data, id, rfl, rfl, hown⟩
    · obtain ⟨j, userId, input, hby⟩ := h t₁ ht₁
      exact ⟨j, userId, input, hby.mono (fun _ _ => id) hcore (grows_of_effect hpre he).issued⟩
    · obtain ⟨userId, input, rfl, rfl⟩ := hpre
      exact ⟨i, userId, input, hasked, hown, rfl, rfl, rfl, rfl⟩

/-! ## Credited once -/

/-- The key that a deposit request carries. -/
def Request.depositKey? : Request → Option String
  | .deposit _ input => some input.idempotencyKey
  | _ => none

/-- The calls of `processDeposit` that were made for deposits with this key. -/
def paymentsWithKey (s : State) (key : String) : List Payment :=
  s.world.payments.filter fun p => (s.calls[p.call]?.bind (·.request.depositKey?)) == some key

/-- The deposit entries with this key. -/
def Store.creditsWithKey (db : Store) (key : String) : List LedgerEntry :=
  db.ledger.rows.filter fun e => e.type == .deposit && e.idempotencyKey == key

theorem length_le_one {α β : Type} {f : α → β} {l : List α} (hnd : (l.map f).Nodup)
    (h : ∀ a ∈ l, ∀ b ∈ l, f a = f b) : l.length ≤ 1 := by
  match l with
  | [] => exact Nat.zero_le 1
  | [_] => exact le_rfl
  | a :: b :: l =>
    have hab := h a List.mem_cons_self b (List.mem_cons_of_mem _ List.mem_cons_self)
    rw [List.map_cons, List.map_cons, hab] at hnd
    exact absurd List.mem_cons_self (List.nodup_cons.mp hnd).1

/-- A payment was made by the call that inserted the row it pays for. -/
theorem RequestedBy.payment_call (hinv : s.world.Inv) {i : ℕ} {t : Transaction} {userId : String}
    {input : DepositDto} (h : RequestedBy (Asked s) s.world i t userId input) (ht : t ∈ s.world.db.transactions)
    {p : Payment} (hp : p ∈ s.world.payments) (hid : p.transactionId = t.id) :
    p.call = i ∧ p.amount = t.amount := by
  obtain ⟨t', ht', hid', -, hamount, -, hown⟩ := hinv.payments.made p hp
  obtain rfl := Transaction.eq_of_id ht' ht (hid'.trans hid)
  exact ⟨issued_unique hinv.ids.nodup hown h.own, hamount.symm⟩

theorem Reachable.payment_key (h : Reachable registry s) {p : Payment} (hp : p ∈ s.world.payments)
    {key : String} (hkey : (s.calls[p.call]?.bind (·.request.depositKey?)) = some key) :
    ∃ t ∈ s.world.db.transactions, t.id = p.transactionId ∧ t.idempotencyKey = key := by
  obtain ⟨t, ht, hid, -⟩ := h.inv.payments.made p hp
  obtain ⟨i, userId, input, hby⟩ := h.requested t ht
  obtain ⟨rfl, -⟩ := hby.payment_call h.inv ht hp hid.symm
  obtain ⟨c, hc, hreq⟩ := hby.request
  rw [hc, Option.bind_some, hreq] at hkey
  exact ⟨t, ht, hid, hby.idempotencyKey.trans (Option.some.inj hkey)⟩

theorem Reachable.paid_once (h : Reachable registry s) (key : String) :
    (paymentsWithKey s key).length ≤ 1 := by
  refine length_le_one (f := (·.transactionId))
    (h.inv.payments.transactionIds.sublist (List.filter_sublist.map _)) fun p hp q hq => ?_
  obtain ⟨hp, hpkey⟩ := List.mem_filter.mp hp
  obtain ⟨hq, hqkey⟩ := List.mem_filter.mp hq
  obtain ⟨t, ht, hid, hk⟩ := h.payment_key hp (beq_iff_eq.mp hpkey)
  obtain ⟨t', ht', hid', hk'⟩ := h.payment_key hq (beq_iff_eq.mp hqkey)
  rw [← hid, ← hid', Transaction.eq_of_key ht ht' (hk.trans hk'.symm)]

theorem credited_once (db : Store) (key : String) : (db.creditsWithKey key).length ≤ 1 := by
  refine length_le_one (f := id) (by rw [List.map_id]; exact db.ledger.nodup.filter _) ?_
  intro e he e' he'
  obtain ⟨he, hkey⟩ := List.mem_filter.mp he
  obtain ⟨he', hkey'⟩ := List.mem_filter.mp he'
  simp only [Bool.and_eq_true, beq_iff_eq] at hkey hkey'
  exact LedgerEntry.eq_of_key he he' (hkey.2.trans hkey'.2.symm)

/-- The entry credits what some call of `deposit` asked for: the wallet of its user, in its currency,
    with the amount that the call passed to the provider under the stored reference. -/
def CreditedFor (s : State) (e : LedgerEntry) : Prop :=
  ∃ t ∈ s.world.db.transactions, ∃ p ∈ s.world.payments, ∃ c userId input,
    s.calls[p.call]? = some c ∧ c.request = .deposit userId input ∧
    t.idempotencyKey = e.idempotencyKey ∧ t.idempotencyKey = input.idempotencyKey ∧
    p.transactionId = t.id ∧ t.providerRef = p.providerRef ∧ p.providerRef ≠ none ∧
    e.amount = p.amount ∧ e.amount = input.amount ∧ e.currency = input.currency.value ∧
    ∃ a ∈ s.world.db.wallets, a.id = e.walletId ∧ a.userId = userId ∧
      a.currency = input.currency.value

theorem creditedFor (h : ReachableBy registry NoDeletion s) {e : LedgerEntry}
    (he : e ∈ s.world.db.ledger) (htype : e.type = .deposit) : CreditedFor s e := by
  have hinv := h.reachable.inv
  obtain ⟨t, ht, hcredits, -, ref, href⟩ := hinv.deposits.credited e he htype
  obtain ⟨i, userId, input, hby⟩ := h.reachable.requested t ht
  obtain ⟨p, hp, hid, hpref⟩ := hinv.payments.recorded t ht ref href
  obtain ⟨rfl, hamount⟩ := hby.payment_call hinv ht hp hid
  obtain ⟨c, hc, hreq⟩ := hby.request
  obtain ⟨a, ha, haid, -⟩ := h.conserved.wallet e he
  obtain ⟨hu, hcur⟩ := hcredits.wallet.2 a ha haid
  refine ⟨t, ht, p, hp, c, userId, input, hc, hreq, hcredits.key.symm, hby.idempotencyKey, hid,
    href.trans hpref.symm, by rw [hpref]; exact Option.some_ne_none ref,
    hcredits.amount.trans hamount.symm, hcredits.amount.trans hby.amount,
    hcredits.currency.trans hby.currency, a, ha, haid, hu.trans hby.userId, hcur.trans hby.currency⟩

/-- The deposits of a run at two moments of it: there is one row for a key, and the provider was called at
    most once for it; entries are never removed, there is at most one deposit entry for a key, and wallets
    hold nothing but their entries; a deposit entry credits what the call asked for and paid; and deposit
    entries and their events correspond one to one, in order. -/
structure CreditedOnce (s s' : State) : Prop where
  row : ∀ t ∈ s.world.db.transactions, ∀ t' ∈ s'.world.db.transactions,
    t.idempotencyKey = t'.idempotencyKey → t.id = t'.id
  payment : ∀ key, (paymentsWithKey s' key).length ≤ 1
  ledger : s.world.db.ledger.rows <+: s'.world.db.ledger.rows
  entry : ∀ t ∈ s'.world.db.transactions, (s'.world.db.creditsWithKey t.idempotencyKey).length ≤ 1
  balance : ∀ a ∈ s'.world.db.wallets,
    a.balance = ((s'.world.db.entriesOf a.id).map LedgerEntry.change).sum
  credited : ∀ e ∈ s'.world.db.ledger, e.type = .deposit → CreditedFor s' e
  notified : List.Forall₂ s'.world.Notifies s'.world.depositEntries (s'.world.eventsNamed .depositSucceeded)

theorem creditedOnce (h : ReachableBy registry NoDeletion s)
    (hr : (server registry).Reaches NoDeletion s s') : CreditedOnce s s' := by
  obtain ⟨w, hw, hr₀⟩ := h
  have h' : ReachableBy registry NoDeletion s' := ⟨w, hw, hr₀.trans hr⟩
  have hinv := h'.reachable.inv
  have hgrows := Reachable.grows ⟨w, hw, hr₀.any⟩ hr
  exact {
    row := fun t ht t' ht' hkey => by
      obtain ⟨t₁, ht₁, hl⟩ := hgrows.transactions t ht
      have hk : t₁.idempotencyKey = t'.idempotencyKey := (Transaction.core_key hl.core).trans hkey
      rw [← Transaction.core_id hl.core, Transaction.eq_of_key ht₁ ht' hk]
    payment := h'.reachable.paid_once
    ledger := hgrows.ledger
    entry := fun t _ => credited_once _ _
    balance := fun a ha => ((hinv.replays a ha).closing_eq).trans (zero_add _)
    credited := fun e he htype => creditedFor h' he htype
    notified := hinv.deposits.notified }

/-- No account is deleted, and nothing leaves the range. -/
def InRangeNoDeletion (s : State) (l : Label Request Choice) : Prop := InRange s l ∧ NoDeletion s l

instance (s : State) (l : Label Request Choice) : Decidable (InRangeNoDeletion s l) :=
  inferInstanceAs (Decidable (_ ∧ _))

/-- A deposit is credited at most once, and correctly, as long as no amount that is stored, and no balance
    that a credit leads to, leaves the range. -/
theorem deposit_credited_once (h : Numbers.ReachableBy registry InRangeNoDeletion s)
    (hr : (Numbers.server registry).Reaches InRangeNoDeletion s s') : CreditedOnce s s' := by
  have hrange : ∀ s l, InRangeNoDeletion s l → InRange s l := fun _ _ h => h.1
  have hs := h.integers hrange
  have hnodeletion := (reaches_of_numbers hrange hs hr).mono fun _ _ h => h.2
  obtain ⟨w, hw, hr₀⟩ := hs
  exact creditedOnce ⟨w, hw, hr₀.mono fun _ _ h => h.2⟩ hnodeletion

theorem deposit_credited_once_everyday : ∃ (s : State) (e : LedgerEntry),
    e ∈ s.world.db.ledger ∧ e.amount = 50 ∧ CreditedFor s e := by
  have hrun : ((Numbers.server cardPayments).runUnder InRangeNoDeletion everyday
      ⟨World.fresh adaAndBob, []⟩).map (fun s => s.world.db.ledger.rows.head?) =
        some (some ⟨"w1", .deposit, 50, "EUR", 50, "topup"⟩) := by
    decide +kernel
  obtain ⟨s, hs, he⟩ := Option.map_eq_some_iff.mp hrun
  have he := List.mem_of_head? he
  have hreach : Numbers.ReachableBy cardPayments InRangeNoDeletion s :=
    ⟨_, World.fresh_initial adaAndBob, Server.reaches_of_runUnder hs⟩
  exact ⟨s, _, he, rfl, (deposit_credited_once hreach .refl).credited _ he rfl⟩

/-- Two cents are settled after a fortune, and the wallet is credited with one. -/
theorem tip_credited_short : ∃ s s' : State, Numbers.ReachableBy cardPayments NoDeletion s ∧
    (Numbers.server cardPayments).Reaches NoDeletion s s' ∧
    s.world.db.wallets.rows.map (·.balance) = [9007199254740991] ∧
    s'.world.db.ledger.rows = s.world.db.ledger.rows ++ [⟨"w1", .deposit, 2, "EUR", 9007199254740992, "tip"⟩] ∧
    s'.world.db.wallets.rows.map (·.balance) = [9007199254740992] ∧ ¬ CreditedOnce s s' := by
  have hrun : ((Numbers.server cardPayments).runUnder NoDeletion (twoCentsMore.take 23)
      ⟨World.fresh adaAndBob, []⟩).bind (fun s =>
        ((Numbers.server cardPayments).runUnder NoDeletion (twoCentsMore.drop 23) s).map fun s' =>
          (s.world.db.wallets.rows, s.world.db.ledger.rows, s'.world.db.wallets.rows,
            s'.world.db.ledger.rows)) =
      some ([⟨"w1", "u1", 9007199254740991, "EUR", "ada-0000"⟩],
        [⟨"w1", .deposit, 9007199254740991, "EUR", 9007199254740991, "fortune"⟩],
        [⟨"w1", "u1", 9007199254740992, "EUR", "ada-0000"⟩],
        [⟨"w1", .deposit, 9007199254740991, "EUR", 9007199254740991, "fortune"⟩,
          ⟨"w1", .deposit, 2, "EUR", 9007199254740992, "tip"⟩]) := by
    decide +kernel
  obtain ⟨s, hs, hrun⟩ := Option.bind_eq_some_iff.mp hrun
  obtain ⟨s', hs', hrows⟩ := Option.map_eq_some_iff.mp hrun
  simp only [Prod.mk.injEq] at hrows
  obtain ⟨hwallets, hledger, hwallets', hledger'⟩ := hrows
  refine ⟨s, s', ⟨_, World.fresh_initial adaAndBob, Server.reaches_of_runUnder hs⟩,
    Server.reaches_of_runUnder hs', by rw [hwallets]; rfl, by rw [hledger, hledger']; rfl,
    by rw [hwallets']; rfl, fun h => ?_⟩
  -- the entries add up to one cent more than the wallet holds
  have ha : (⟨"w1", "u1", 9007199254740992, "EUR", "ada-0000"⟩ : Wallet) ∈ s'.world.db.wallets := by
    simp [Table.mem_def, hwallets']
  have hsum := h.balance _ ha
  rw [Store.entriesOf, hledger'] at hsum
  exact absurd hsum (by decide)

/-! ## The status of a deposit -/

/-- The operation fails no completed transaction and settles no failed one. -/
def Op.respectsStatus (db : Store) : Op → Bool
  | .failTransaction t _ => db.transactions.rows.all fun t' => t'.id != t.id || t'.status != .completed
  | .settleTransaction _ t _ _ _ =>
      db.transactions.rows.all fun t' => t'.id != t.id || t'.status != .failed
  | _ => true

/-- The step acts on no transaction that another handler has finished the other way. -/
def RespectsStatus (s : State) : Label Request Choice → Prop
  | .start _ => True
  | .step i _ => ∀ o ∈ s.awaits i, o.respectsStatus s.world.db = true

instance (s : State) (l : Label Request Choice) : Decidable (RespectsStatus s l) :=
  match l with
  | .start _ => .isTrue trivial
  | .step i _ => inferInstanceAs (Decidable (∀ o ∈ s.awaits i, o.respectsStatus s.world.db = true))

theorem not_completed_of_respects {db : Store} {t t' : Transaction} {reason : String}
    (h : (Op.failTransaction t reason).respectsStatus db = true) (ht' : t' ∈ db.transactions)
    (hid : t'.id = t.id) : t'.status ≠ .completed := by
  simpa [hid] using List.all_eq_true.mp h t' ht'

theorem not_failed_of_respects {db : Store} {walletId : String} {t t' : Transaction}
    {type : LedgerEntryType} {change : ℤ} {data : OutboxData}
    (h : (Op.settleTransaction walletId t type change data).respectsStatus db = true)
    (ht' : t' ∈ db.transactions) (hid : t'.id = t.id) : t'.status ≠ .failed := by
  simpa [hid] using List.all_eq_true.mp h t' ht'

/-- One status may follow the other: it is the same, or the first was `PENDING`. -/
def TransactionStatus.Before (a b : TransactionStatus) : Prop := b = a ∨ a = .pending

theorem TransactionStatus.Before.trans {a b c : TransactionStatus} (h : a.Before b) (h' : b.Before c) :
    a.Before c := by
  rcases h with rfl | h
  · exact h'
  · exact .inr h

/-- An update of the rows with this id that writes no earlier status. -/
theorem before_of_update {t t' : Transaction} {id : String} (hsame : t'.id = t.id)
    (hbefore : t.id = id → t.status.Before t'.status) :
    (if t.id == id then t' else t).id = t.id ∧ t.status.Before (if t.id == id then t' else t).status := by
  by_cases hid : t.id = id
  · rw [if_pos (beq_iff_eq.mpr hid)]
    exact ⟨hsame, hbefore hid⟩
  · rw [if_neg (by simpa using hid)]
    exact ⟨rfl, .inl rfl⟩

theorem status_before_of_effect {w w' : World} {i : ℕ} {o : Op} (he : Effect i w o w')
    (ho : o.respectsStatus w.db = true) {t : Transaction} (ht : t ∈ w.db.transactions) :
    ∃ t' ∈ w'.db.transactions, t'.id = t.id ∧ t.status.Before t'.status := by
  cases he with
  | createTransaction fresh inserted =>
    exact ⟨t, (Table.mem_insert? inserted).mpr (.inl ht), rfl, .inl rfl⟩
  | updateTransactionProviderRef id ref =>
    exact ⟨_, mem_updateTransactionProviderRef.mpr ⟨t, ht, rfl⟩, before_of_update rfl fun _ => .inl rfl⟩
  | failTransaction t₀ reason =>
    refine ⟨_, mem_failTransaction.mpr ⟨t, ht, rfl⟩, before_of_update rfl fun hid => ?_⟩
    cases hs : t.status with
    | pending => exact .inr rfl
    | completed => exact absurd hs (not_completed_of_respects ho ht hid)
    | failed => exact .inl rfl
  | @settleTransaction t₀ _ _ _ _ _ _ _ _ fresh wallet_mem enough entry event =>
    refine ⟨_, mem_completeTransaction.mpr ⟨t, ht, rfl⟩, before_of_update rfl fun hid => ?_⟩
    cases hs : t.status with
    | pending => exact .inr rfl
    | completed => exact .inl rfl
    | failed => exact absurd hs (not_failed_of_respects ho ht hid)
  | _ => exact ⟨t, ht, rfl, .inl rfl⟩

/-- Credited transactions are completed, and stay so. -/
theorem completed_of_effect {w w' : World} {req : Request} {i : ℕ} {o : Op} (hinv : w.Inv)
    (hpre : Guarantee req i o w) (he : Effect i w o w') (ho : o.respectsStatus w.db = true)
    (h : ∀ t ∈ w.db.transactions, w.Credited t → t.status = .completed) :
    ∀ t ∈ w'.db.transactions, w'.Credited t → t.status = .completed := by
  cases he with
  | createTransaction fresh inserted =>
    intro t ht hcredited
    rcases (Table.mem_insert? inserted).mp ht with ht | rfl
    · exact h t ht hcredited
    · -- the row that the entry credits would have the key of the new row
      obtain ⟨e, he, htype, hkey⟩ := hcredited
      obtain ⟨t₀, ht₀, hcredits, -⟩ := hinv.deposits.credited e he htype
      have hclash := (Table.insert?_eq_some inserted).1 t₀ ht₀
      simp [Entity.clash, hcredits.key.symm.trans hkey] at hclash
  | updateTransactionProviderRef id ref =>
    intro t' ht' hcredited
    obtain ⟨t, ht, rfl⟩ := mem_updateTransactionProviderRef.mp ht'
    have hs := h t ht
    split at hcredited <;> split <;> first | contradiction | exact hs hcredited
  | failTransaction t₀ reason =>
    intro t' ht' hcredited
    obtain ⟨t, ht, rfl⟩ := mem_failTransaction.mp ht'
    by_cases hid : t.id = t₀.id
    · rw [if_pos (beq_iff_eq.mpr hid)] at hcredited
      exact absurd (h t ht hcredited) (not_completed_of_respects ho ht hid)
    · rw [if_neg (by simpa using hid)] at hcredited ⊢
      exact h t ht hcredited
  | @settleTransaction t₀ _ _ _ _ _ _ _ _ fresh wallet_mem enough entry event =>
    intro t' ht' hcredited
    obtain ⟨t, ht, rfl⟩ := mem_completeTransaction.mp ht'
    by_cases hid : t.id = t₀.id
    · rw [if_pos (beq_iff_eq.mpr hid)]
    · rw [if_neg (by simpa using hid)] at hcredited ⊢
      obtain ⟨e, he, htype, hkey⟩ := hcredited
      rcases (Table.mem_insert? entry).mp he with he | rfl
      · exact h t ht ⟨e, he, htype, hkey⟩
      · obtain ⟨t₁, ht₁, hcore, -⟩ := hpre.known
        refine absurd ?_ hid
        rw [← Transaction.core_id hcore,
          Transaction.eq_of_key ht ht₁ (hkey.symm.trans (Transaction.core_key hcore).symm)]
  | executeTransfer fresh sender_mem receiver_mem enough debit credit event =>
    rintro t ht ⟨e, he, htype, hkey⟩
    rcases (Table.mem_insert? credit).mp he with he | rfl
    · rcases (Table.mem_insert? debit).mp he with he | rfl
      · exact h t ht ⟨e, he, htype, hkey⟩
      · cases htype
    · cases htype
  | _ => exact h

/-- In every run in which no handler fails a completed transaction or settles a failed one, a status
    moves from `PENDING` only and never again, and a transaction is completed if and only if it has been
    credited. -/
theorem status_sound (h : ReachableBy registry RespectsStatus s)
    (hr : (server registry).Reaches RespectsStatus s s') :
    (∀ t ∈ s.world.db.transactions, ∃ t' ∈ s'.world.db.transactions,
      t'.id = t.id ∧ (t'.status = t.status ∨ t.status = .pending)) ∧
    ∀ t ∈ s'.world.db.transactions, t.status = .completed ↔
      ∃ e ∈ s'.world.db.ledger, e.type = .deposit ∧ e.idempotencyKey = t.idempotencyKey := by
  obtain ⟨w, hw, hr₀⟩ := h
  have h' : ReachableBy registry RespectsStatus s' := ⟨w, hw, hr₀.trans hr⟩
  constructor
  · refine run_induction ⟨w, hw, hr₀.any⟩ hr (fun w' => ∀ t ∈ s.world.db.transactions,
      ∃ t' ∈ w'.db.transactions, t'.id = t.id ∧ t.status.Before t'.status)
      (fun t ht => ⟨t, ht, rfl, .inl rfl⟩) ?_
    intro s₁ i ω c o w' _ hallowed _ hawaits _ he hbefore t ht
    obtain ⟨t₁, ht₁, hid₁, hb₁⟩ := hbefore t ht
    obtain ⟨t₂, ht₂, hid₂, hb₂⟩ := status_before_of_effect he (hallowed o hawaits) ht₁
    exact ⟨t₂, ht₂, hid₂.trans hid₁, hb₁.trans hb₂⟩
  · have hcompleted : ∀ t ∈ s'.world.db.transactions, s'.world.Credited t → t.status = .completed := by
      refine h'.induction (fun w => ∀ t ∈ w.db.transactions, w.Credited t → t.status = .completed)
        (fun w hw t ht => ?_) ?_
      · rw [hw.transactions] at ht
        exact absurd ht (Table.not_mem_empty t)
      · intro s₁ i ω c o w' hinv hallowed _ hawaits hpre he
        exact completed_of_effect hinv hpre he (hallowed o hawaits)
    exact fun t ht => ⟨h'.reachable.inv.deposits.completed t ht, hcompleted t ht⟩

theorem status_sound_everyday : ∃ (s : State) (t : Transaction), t ∈ s.world.db.transactions ∧
    t.status = .completed ∧
    ∃ e ∈ s.world.db.ledger, e.type = .deposit ∧ e.idempotencyKey = t.idempotencyKey := by
  have hrun : ((server cardPayments).runUnder RespectsStatus everyday
      ⟨World.fresh adaAndBob, []⟩).map (fun s => s.world.db.transactions.rows.head?) =
        some (some ⟨"t1", "u1", .deposit, 50, "EUR", "stripe", .completed, "topup", some "cs1", none⟩) := by
    decide
  obtain ⟨s, hs, ht⟩ := Option.map_eq_some_iff.mp hrun
  have ht := List.mem_of_head? ht
  exact ⟨s, _, ht, rfl, ((status_sound (reachableBy_of_run hs) .refl).2 _ ht).mp rfl⟩

/-- The checkout of Ada's deposit is reported as expired while it is being settled: both handlers have
    read a `PENDING` transaction. -/
def settledAndFailed : List (Label Request Choice) :=
  openWallet 0 "u1" "Ada" "w1" ++
    payIn 1 "u1" topup "t1" "cs1" ++
    [.start (expired "cs1"), .step 2 {}] ++ settle 3 "cs1" "e1"

/-- The handler that fails the transaction overwrites `COMPLETED`, and the credit stays. -/
theorem completed_overwritten : ∃ s s' t t', Reachable cardPayments s ∧
    (server cardPayments).step s 2 {} = some s' ∧
    t ∈ s.world.db.transactions ∧ t.status = .completed ∧
    t' ∈ s'.world.db.transactions ∧ t'.id = t.id ∧ t'.status = .failed ∧
    ∃ e ∈ s'.world.db.ledger, e.type = .deposit ∧ e.idempotencyKey = t'.idempotencyKey := by
  have hrun : ((server cardPayments).run settledAndFailed ⟨World.fresh adaAndBob, []⟩).bind
      (fun s => ((server cardPayments).step s 2 {}).map fun s' =>
        (s.world.db.transactions.rows.head?, s'.world.db.transactions.rows.head?,
          s'.world.db.ledger.rows.head?)) =
      some (some ⟨"t1", "u1", .deposit, 50, "EUR", "stripe", .completed, "topup", some "cs1", none⟩,
        some ⟨"t1", "u1", .deposit, 50, "EUR", "stripe", .failed, "topup", some "cs1",
          some "Checkout session expired"⟩,
        some ⟨"w1", .deposit, 50, "EUR", 50, "topup"⟩) := by
    decide
  obtain ⟨s, hs, hrun⟩ := Option.bind_eq_some_iff.mp hrun
  obtain ⟨s', hstep, hrun⟩ := Option.map_eq_some_iff.mp hrun
  obtain ⟨ht, ht', he⟩ := Prod.mk.inj hrun |>.imp_right Prod.mk.inj
  exact ⟨s, s', _, _, reachable_of_run hs, hstep, List.mem_of_head? ht, rfl, List.mem_of_head? ht',
    rfl, rfl, _, List.mem_of_head? he, rfl, rfl⟩

end LiorParisWallet
