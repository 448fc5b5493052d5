import LiorParisWallet.Money.ExactTransfer

/-!
# A transfer that fails

The row of a transfer is stored before the transaction that moves the money, and nothing marks it as
failed when that transaction is rolled back.  It is recorded correctly in the runs in which every such
transaction meets the wallets, the money and the free ledger keys that it needs.
-/

namespace LiorParisWallet

open Async Relational

variable {registry : PaymentGatewayRegistry} {s : State}

/-- The two wallets are stored, the sender's has enough money, and no entry has one of the keys. -/
def Store.CanTransfer (db : Store) (t : Transfer) (fromWalletId toWalletId : String) : Prop :=
  ∃ sender ∈ db.wallets.rows, sender.id = fromWalletId ∧
    ∃ receiver ∈ db.wallets.rows, receiver.id = toWalletId ∧ t.amount ≤ sender.balance ∧
      ∀ e ∈ db.ledger.rows, e.idempotencyKey ≠ t.idempotencyKey ++ ":out" ∧
        e.idempotencyKey ≠ t.idempotencyKey ++ ":in"

instance (db : Store) (t : Transfer) (fromWalletId toWalletId : String) :
    Decidable (db.CanTransfer t fromWalletId toWalletId) := by
  unfold Store.CanTransfer
  infer_instance

/-- The operations that follow the one that stores the row. -/
def Op.followsRow : Op → Bool
  | .newDate | .executeTransfer _ _ _ _ | .cacheDel _ => true
  | _ => false

/-- The operation gets through if it is one that follows the row; where it is the transaction that moves
    the money, the store lets it commit. -/
def Op.GetsThrough (w : World) (ω : Choice) : Op → Prop
  | .newDate | .cacheDel _ => ω.fault.isNone = true
  | .executeTransfer t fromWalletId toWalletId _ =>
      ω.fault.isNone = true ∧ w.db.CanTransfer t fromWalletId toWalletId
  | _ => True

instance (w : World) (ω : Choice) : ∀ o : Op, Decidable (o.GetsThrough w ω)
  | .newDate | .cacheDel _ => inferInstanceAs (Decidable (ω.fault.isNone = true))
  | .executeTransfer t fromWalletId toWalletId _ =>
      inferInstanceAs (Decidable (ω.fault.isNone = true ∧ w.db.CanTransfer t fromWalletId toWalletId))
  | .findByUserIdAndCurrency _ _ | .findByWalletTag _ | .findTransactionByIdempotencyKey _
  | .findTransactionByProviderRef _ | .updateTransactionProviderRef _ _ | .saveWallet _ | .createTransaction _
  | .failTransaction _ _ | .settleTransaction _ _ _ _ _ | .findTransferByIdempotencyKey _ | .createTransfer _
  | .createUser _ | .findUserById _ | .deleteUser _ | .processDeposit _ _ _ _ _ | .cacheGet _ | .cacheSet _ _
  | .randomBytes => .isTrue trivial

def Request.isTransfer : Request → Bool
  | .initiateTransfer _ _ _ => true
  | _ => false

/-- Whatever follows the row of a transfer gets through. -/
def Executes (s : State) : Label Request Choice → Prop
  | .start _ => True
  | .step i ω => ∀ c ∈ s.calls[i]?, c.request.isTransfer = true →
      ∀ o ∈ c.program.next?, o.GetsThrough s.world ω

instance (s : State) (l : Label Request Choice) : Decidable (Executes s l) :=
  match l with
  | .start _ => .isTrue trivial
  | .step i ω => inferInstanceAs (Decidable (∀ c ∈ s.calls[i]?, c.request.isTransfer = true →
      ∀ o ∈ c.program.next?, o.GetsThrough s.world ω))

/-- What the row of an ended call says: it is not open, and if the call has thrown, it is marked as failed
    and no money was moved. -/
structure Transfer.Recorded (t : Transfer) (r : Except Err Reply) (answers : List (Answer Ans Err)) : Prop where
  closed : t.status ≠ .pending
  failed : ∀ e, r = .error e → t.status = .failed ∧ t.failureReason ≠ none ∧
    ∀ t' fromWalletId toWalletId data,
      ⟨.executeTransfer t' fromWalletId toWalletId data, .ok ()⟩ ∉ answers

/-! ## What a call of `initiateTransfer` is answered -/

section Answers

variable {α : Type} {answers : List (Answer Ans Err)} {o : Op} {t : Transfer}

/-- Once the row is stored, the money is moved and the call returns, or one of the operations after it has
    failed. -/
def RowOutcome (r : Except Err α) (answers : List (Answer Ans Err)) : Prop :=
  ∀ data t, ⟨.createTransfer data, .ok t⟩ ∈ answers →
    (∃ fromWalletId toWalletId data', ⟨.executeTransfer t fromWalletId toWalletId data', .ok ()⟩ ∈ answers ∧
      ∀ e, r ≠ .error e) ∨
    ∃ o e, ⟨o, .error e⟩ ∈ answers ∧ o.followsRow = true

/-- The rows stored so far, by this call, satisfy `P`. -/
def Rows (P : Transfer → Prop) (answers : List (Answer Ans Err)) : Prop :=
  ∀ data t, ⟨.createTransfer data, .ok t⟩ ∈ answers → P t

theorem Rows.cons {P : Transfer → Prop} (h : Rows P answers) {r : Except Err (Ans o)}
    (ho : ∀ data, o ≠ .createTransfer data) : Rows P (⟨o, r⟩ :: answers) := by
  intro data t hmem
  cases hmem with
  | head => exact absurd rfl (ho data)
  | tail _ hmem => exact h data t hmem

theorem rowOutcome_of_none (h : Rows (fun _ => False) answers) (r : Except Err α) :
    RowOutcome r answers :=
  fun data t hmem => (h data t hmem).elim

/-- An operation after the row has failed. -/
theorem rowOutcome_of_error {e : Err} (hmem : ⟨o, .error e⟩ ∈ answers) (ho : o.followsRow = true)
    (r : Except Err α) : RowOutcome r answers :=
  fun _ _ _ => .inr ⟨o, e, hmem, ho⟩

theorem wp_getUserName_logs (userId : String) (h : Rows (fun _ => False) answers) :
    (getUserName userId).wp Program.Logs Eq (fun _ answers => Rows (fun _ => False) answers) answers := by
  refine Program.wp_await_logs (fun user => ?_) fun e => h.cons (by simp)
  rintro _ rfl
  exact h.cons (by simp)

theorem wp_afterRow_logs {fromUserId toUserId currency : String} {fromWalletId toWalletId : String}
    {data : ℕ → OutboxData} (h : Rows (· = t) answers) :
    (do
      let now ← await .newDate
      await (.executeTransfer t fromWalletId toWalletId (data now))
      let _ ← Program.both (invalidateBalanceCache fromUserId currency)
        (invalidateBalanceCache toUserId currency) : Promise Unit).wp Program.Logs Eq RowOutcome answers := by
  refine Program.wp_await_logs (fun now => ?_) fun e => rowOutcome_of_error (.head _) rfl _
  refine Program.wp_await_logs (fun _ => ?_) fun e => rowOutcome_of_error (.head _) rfl _
  refine Program.wp_bind (fun _ => rfl) (Program.wp_both_alone ?_)
  refine Program.wp_call_alone fun r₁ l₁ h₁ => ?_
  refine Program.wp_call_alone fun r₂ l₂ h₂ => ?_
  obtain rfl : l₁ = _ := h₁
  obtain rfl : l₂ = _ := h₂
  cases r₁ with
  | error e => exact rowOutcome_of_error (.tail _ (.head _)) rfl _
  | ok _ =>
    cases r₂ with
    | error e => exact rowOutcome_of_error (.head _) rfl _
    | ok _ =>
      rintro _ rfl data' t' hmem
      left
      -- the row is the one that was stored
      have hrows : Rows (· = t) _ := (((h.cons (o := .newDate) (r := .ok now) (by simp)).cons
        (o := .executeTransfer t fromWalletId toWalletId (data now)) (r := .ok ()) (by simp)).cons
        (o := .cacheDel (balanceCacheKey fromUserId currency)) (r := .ok ()) (by simp)).cons
        (o := .cacheDel (balanceCacheKey toUserId currency)) (r := .ok ()) (by simp)
      rw [hrows data' t' hmem]
      exact ⟨_, _, _, .tail _ (.tail _ (.head _)), nofun⟩

theorem wp_moveMoney_logs {fromUserId fromUserEmail : String} {input : InitiateTransferDto}
    {fromWallet toWallet : Wallet} (h : Rows (fun _ => False) answers) :
    (moveMoney fromUserId fromUserEmail input fromWallet toWallet).wp Program.Logs Eq RowOutcome
      answers := by
  unfold moveMoney
  refine Program.wp_bind (fun _ => rfl) (Program.wp_mono (Q := fun _ answers =>
    Rows (fun _ => False) answers) (Program.wp_both_alone ?_) fun r answers h => ?_)
  · refine Program.wp_mono (wp_getUserName_logs fromUserId h) fun r₁ l₁ h₁ => ?_
    refine Program.wp_call_alone fun r₂ l₂ h₂ => ?_
    obtain rfl : l₂ = _ := h₂
    exact h₁.cons (by simp)
  · cases r with
    | error e => exact rowOutcome_of_none h _
    | ok names =>
      refine Program.wp_await_logs (fun t => ?_) fun e => ?_
      · refine wp_afterRow_logs fun data t' hmem => ?_
        cases hmem with
        | head => rfl
        | tail _ hmem => exact (h data t' hmem).elim
      · intro data t hmem
        cases hmem with
        | tail _ hmem => exact (h data t hmem).elim

theorem wp_initiateTransfer_logs {fromUserId fromUserEmail : String} {input : InitiateTransferDto} :
    (initiateTransfer fromUserId fromUserEmail input).wp Program.Logs Eq RowOutcome [] := by
  have h₀ : Rows (fun _ => False) [] := nofun
  have hexit : ∀ {e : Err} {answers : List (Answer Ans Err)}, Rows (fun _ => False) answers →
      (throw e : Promise Unit).wp Program.Logs Eq RowOutcome answers := by
    rintro e answers h _ rfl
    exact rowOutcome_of_none h _
  unfold initiateTransfer
  refine Program.wp_await_logs (fun toWallet => ?_) fun e => rowOutcome_of_none (h₀.cons (by simp)) _
  have h₁ : Rows (fun _ => False) [⟨.findByWalletTag input.toWalletTag, .ok toWallet⟩] :=
    h₀.cons (by simp)
  cases toWallet with
  | none => exact hexit h₁
  | some toWallet =>
    dsimp only
    split
    · exact hexit h₁
    split
    · exact hexit h₁
    refine Program.wp_await_logs (fun existing => ?_) fun e => rowOutcome_of_none (h₁.cons (by simp)) _
    have h₂ := h₁.cons (o := .findTransferByIdempotencyKey input.idempotencyKey) (r := .ok existing)
      (by simp)
    split
    · rintro _ rfl
      exact rowOutcome_of_none h₂ _
    refine Program.wp_await_logs (fun fromWallet => ?_) fun e => rowOutcome_of_none (h₂.cons (by simp)) _
    have h₃ := h₂.cons (o := .findByUserIdAndCurrency fromUserId input.currency.value)
      (r := .ok fromWallet) (by simp)
    cases fromWallet with
    | none => exact hexit h₃
    | some fromWallet => exact wp_moveMoney_logs h₃

/-- A call that was asked to transfer. -/
theorem wp_serve_logs (req : Request) : (serve registry req).wp Program.Logs Eq
    (fun r answers => req.isTransfer = true → RowOutcome r answers) [] := by
  cases req with
  | initiateTransfer fromUserId fromUserEmail input =>
    refine Program.wp_bind (fun _ => rfl) (Program.wp_mono wp_initiateTransfer_logs fun r l h => ?_)
    cases r with
    | error e =>
      intro _ data t hmem
      rcases h data t hmem with ⟨_, _, _, -, hno⟩ | hfailed
      · exact absurd rfl (hno e)
      · exact .inr hfailed
    | ok _ =>
      rintro _ rfl - data t hmem
      refine (h data t hmem).imp_left ?_
      rintro ⟨fromWalletId, toWalletId, data', hexecuted, -⟩
      exact ⟨fromWalletId, toWalletId, data', hexecuted, nofun⟩
  | _ => exact Program.wp_mono Program.wp_true fun r l _ htransfer => by cases htransfer

end Answers

/-! ## What becomes of the row -/

/-- An operation that the store lets through is not answered with an error. -/
theorem ok_of_getsThrough {i : ℕ} {o : Op} {ω : Choice} {w w' : World} {e : Err} (hids : w.Ids)
    (ho : o.followsRow = true) (hω : o.GetsThrough w ω) :
    perform i o ω w ≠ some (.error e, w') := by
  intro h
  cases o with
  | newDate =>
    have hfault : ω.fault = none := Option.isNone_iff_eq_none.mp hω
    simp [perform, World.read, hfault] at h
  | cacheDel key =>
    have hfault : ω.fault = none := Option.isNone_iff_eq_none.mp hω
    simp [perform, World.write, hfault] at h
  | executeTransfer t fromWalletId toWalletId data =>
    obtain ⟨hfault, sender, hsender, rfl, receiver, hreceiver, rfl, henough, hkeys⟩ := hω
    obtain ⟨ω', hid, ⟨e', hrefused, -⟩ | ⟨_, _, _, hok, -⟩⟩ :=
      faultless_insert (i := i) (fun _ => rfl) ⟨ω, Option.isNone_iff_eq_none.mp hfault, h⟩
    · have hevents : ∀ ev ∈ w.db.outbox, ev.id ≠ (data.create ω'.uuid ω'.now).id :=
        by
        intro ev hev heq
        have heq : ev.id = ω'.uuid := heq
        exact hid (heq ▸ hids.outbox ev hev)
      obtain ⟨db, hcommits⟩ := (executeTransfer_isOk_iff w.db hsender hreceiver hevents).mpr
        ⟨henough, hkeys⟩
      cases hrefused.symm.trans hcommits
    · cases hok
  | _ => cases ho

/-- In a run from a reachable state whose steps let every transfer through, no transfer is left open: once
    the call that stored the row has ended, the row is not pending, and if the call has thrown, the row is
    marked as failed and the money was not moved. -/
theorem transfers_recorded {s₀ : State} (hs₀ : Reachable registry s₀)
    (hr : (server registry).Reaches Executes s₀ s) {i : ℕ} (hnew : s₀.calls[i]? = none)
    {c : Call Op Ans Err Request Reply} (hc : s.calls[i]? = some c) (hreq : c.request.isTransfer = true)
    {data : TransferData} {t : Transfer} (hrow : ⟨.createTransfer data, .ok t⟩ ∈ c.answers)
    {r : Except Err Reply} (hresult : c.program.result? = some r) :
    ∃ t' ∈ s.world.db.transfers, t'.id = t.id ∧ t'.Recorded r c.answers := by
  -- whatever follows the row got through
  have hthrough : ∀ o e, ⟨o, .error e⟩ ∈ c.answers → o.followsRow = false := by
    intro o e ha
    obtain ⟨s₁, s₂, ω, c₁, hs₁, hallowed, hc₁, hreq₁, hnext, -, hperform, -⟩ :=
      hs₀.answered hr hnew hc ha
    rw [Bool.eq_false_iff]
    intro ho
    exact ok_of_getsThrough hs₁.inv.ids ho (hallowed c₁ hc₁ (hreq₁ ▸ hreq) o hnext) hperform
  have houtcome : RowOutcome r c.answers := by
    have hlogged := Reachable.logged wp_serve_logs (hs₀.extend hr) (List.mem_of_getElem? hc)
    exact Server.logged_outcome hlogged hresult hreq
  rcases houtcome data t hrow with ⟨fromWalletId, toWalletId, data', hexecuted, hok⟩ | ⟨o, e, ha, ho⟩
  · -- the row was completed, and stays so
    obtain ⟨s₁, s₂, ω, c₁, -, -, -, -, -, hguarantee, hperform, hs₂, hr₂⟩ :=
      hs₀.answered hr hnew hc hexecuted
    obtain ⟨t', ht', hcore, hcompleted⟩ :=
      (hs₂.grows hr₂).transfers _ (executeTransfer_ok hperform hguarantee.stored)
    refine ⟨t', ht', Transfer.core_id hcore, ?_, fun e he => absurd he (hok e)⟩
    rw [hcompleted rfl]
    decide
  · rw [hthrough o e ha] at ho
    cases ho

/-- The row that was stored. -/
def storedRow? : Answer Ans Err → Option Transfer
  | ⟨.createTransfer _, .ok t⟩ => some t
  | _ => none

theorem mem_of_storedRow {answers : List (Answer Ans Err)} {t : Transfer}
    (h : answers.filterMap storedRow? = [t]) : ∃ data, ⟨.createTransfer data, .ok t⟩ ∈ answers := by
  have hmem : t ∈ answers.filterMap storedRow? := by simp [h]
  obtain ⟨a, ha, hrow⟩ := List.mem_filterMap.mp hmem
  unfold storedRow? at hrow
  split at hrow <;> cases hrow
  exact ⟨_, ha⟩

/-- The transfer of Ada that the run makes, as it was stored. -/
def rentRow : Transfer := ⟨"x1", "u1", "u2", 20, "EUR", .pending, "rent", none⟩

/-- The everyday run, and in the middle of Ada's transfer Bob makes one that finds no database. -/
def disturbed : List (Label Request Choice) :=
  everyday.dropLast ++ [.start (.initiateTransfer "u2" "bob@example.com" toBob),
    .step 5 { fault := some .unavailable }] ++ everyday.drop (everyday.length - 1)

/-- Bob's transfer has thrown without a row, and Ada's gets through. -/
theorem transfers_recorded_disturbed : ∃ (s : State) (c c' : Call Op Ans Err Request Reply),
    (server cardPayments).Reaches Executes ⟨World.fresh adaAndBob, []⟩ s ∧ s.calls[4]? = some c ∧
      s.calls[5]? = some c' ∧ c'.program.result? = some (.error .unavailable) ∧
      c'.answers.filterMap storedRow? = [] ∧
      ∃ t' ∈ s.world.db.transfers, t'.id = rentRow.id ∧ t'.Recorded (.ok .done) c.answers := by
  have hrun : ((server cardPayments).runUnder Executes disturbed ⟨World.fresh adaAndBob, []⟩).any (fun s =>
      (s.calls[4]?.any fun c => c.request.isTransfer = true ∧ c.answers.filterMap storedRow? = [rentRow] ∧
        c.program.result? = some (.ok .done)) &&
      s.calls[5]?.any fun c => c.program.result? = some (.error .unavailable) ∧
        c.answers.filterMap storedRow? = []) = true := by
    decide +kernel
  obtain ⟨s, hs, hfound⟩ := (Option.any_eq_true _ _).mp hrun
  -- both calls have ended in the state that the run leads to
  obtain ⟨hada, hbob⟩ := Bool.and_eq_true_iff.mp hfound
  obtain ⟨c, hc, hada⟩ := (Option.any_eq_true _ _).mp hada
  obtain ⟨c', hc', hbob⟩ := (Option.any_eq_true _ _).mp hbob
  obtain ⟨hreq, hstored, hresult⟩ := of_decide_eq_true hada
  obtain ⟨hthrown, hnone⟩ := of_decide_eq_true hbob
  obtain ⟨data, hrow⟩ := mem_of_storedRow hstored
  have hreaches := Server.reaches_of_runUnder hs
  exact ⟨s, c, c', hreaches, hc, hc', hthrown, hnone,
    transfers_recorded (reachable_initial (World.fresh_initial adaAndBob)) hreaches rfl hc hreq hrow hresult⟩

/-- Ada sends 20 that she does not have. -/
def overdraft : List (Label Request Choice) :=
  openWallet 0 "u1" "Ada" "w1" ++ openWallet 1 "u2" "Bob" "w2" ++
    (send 2 "u1" "ada@example.com" toBob "x1" "e2").take 9

/-- The call has thrown, and the row that it stored is still open. -/
theorem overdraft_stays_open : ∃ (s : State) (c : Call Op Ans Err Request Reply) (data : TransferData)
    (e : Err), Reachable cardPayments s ∧ s.calls[2]? = some c ∧ c.request.isTransfer = true ∧
      ⟨.createTransfer data, .ok rentRow⟩ ∈ c.answers ∧ c.program.result? = some (.error e) ∧
      ¬ ∃ t' ∈ s.world.db.transfers, t'.id = rentRow.id ∧ t'.Recorded (.error e) c.answers := by
  have hrun : ((server cardPayments).run overdraft ⟨World.fresh adaAndBob, []⟩).bind (fun s =>
      s.calls[2]?.map fun c => (c.request.isTransfer, c.answers.filterMap storedRow?, c.program.result?,
        s.world.db.transfers.rows)) =
      some (true, [rentRow], some (.error (.badRequest "Insufficient balance")), [rentRow]) := by
    decide +kernel
  obtain ⟨s, hs, hrun⟩ := Option.bind_eq_some_iff.mp hrun
  obtain ⟨c, hc, hfound⟩ := Option.map_eq_some_iff.mp hrun
  simp only [Prod.mk.injEq] at hfound
  obtain ⟨hreq, hstored, hresult, hrows⟩ := hfound
  obtain ⟨data, hrow⟩ := mem_of_storedRow hstored
  refine ⟨s, c, data, _, reachable_of_run hs, hc, hreq, hrow, hresult, ?_⟩
  rintro ⟨t', ht', -, hrecorded⟩
  rw [Table.mem_def, hrows, List.mem_singleton] at ht'
  exact hrecorded.closed (ht' ▸ rfl)

end LiorParisWallet
