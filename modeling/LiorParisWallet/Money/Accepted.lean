import LiorParisWallet.Async.Interference
import LiorParisWallet.Money.Deposits

/-!
# Accepted deposits

A call of `deposit` that returns says that its deposit was accepted.  Whether the caller can complete it
depends on what the call has found under its idempotency key.
-/

namespace LiorParisWallet

open Async Relational

variable {registry : PaymentGatewayRegistry} {s s' : State}

/-! ## `stripe-payment.gateway.ts` -/

/-- What the gateway reads of a checkout session. -/
structure StripeSession where
  id : String
  id_notEmpty : id ≠ ""
  url : String

/-- `processDeposit` of the Stripe gateway; `created` is how `checkout.sessions.create`, called by the
    circuit breaker, has settled. -/
def stripeProcessDeposit (created : Except Err StripeSession) : Except Err PaymentGatewayResult := do
  let session ← created
  return {
    success := true
    providerRef := some session.id
    checkoutUrl := some session.url
    requiresWebhook := true }

def Op.isPayment : Op → Bool
  | .processDeposit _ _ _ _ _ => true
  | _ => false

/-- Payments are answered by the Stripe gateway. -/
def FromStripe (s : State) : Label Request Choice → Prop
  | .start _ => True
  | .step i ω => ∀ o ∈ s.awaits i, o.isPayment = true →
      ∃ created, ω.gateway = stripeProcessDeposit created

def fromStripe : Except Err PaymentGatewayResult → Bool
  | .error _ => true
  | .ok g => g.success && g.storedRef.isSome && g.checkoutUrl.isSome && g.requiresWebhook &&
      g.failureReason.isNone

theorem fromStripe_iff (answer : Except Err PaymentGatewayResult) :
    fromStripe answer = true ↔ ∃ created, answer = stripeProcessDeposit created := by
  constructor
  · intro h
    cases answer with
    | error e => exact ⟨.error e, rfl⟩
    | ok g =>
      obtain ⟨success, providerRef, checkoutUrl, requiresWebhook, failureReason⟩ := g
      simp only [fromStripe, Bool.and_eq_true, Option.isNone_iff_eq_none] at h
      obtain ⟨⟨⟨⟨rfl, href⟩, hurl⟩, rfl⟩, rfl⟩ := h
      obtain ⟨ref, href⟩ := Option.isSome_iff_exists.mp href
      obtain ⟨url, rfl⟩ := Option.isSome_iff_exists.mp hurl
      obtain ⟨hid, hne⟩ := Option.filter_eq_some_iff.mp href
      cases hid
      exact ⟨.ok ⟨ref, by simpa using hne, url⟩, rfl⟩
  · rintro ⟨created, rfl⟩
    cases created with
    | error e => rfl
    | ok session => simp [fromStripe, stripeProcessDeposit, PaymentGatewayResult.storedRef, bind, Except.bind,
        pure, Except.pure, session.id_notEmpty]

instance (answer : Except Err PaymentGatewayResult) :
    Decidable (∃ created, answer = stripeProcessDeposit created) :=
  decidable_of_iff _ (fromStripe_iff answer)

instance (s : State) (l : Label Request Choice) : Decidable (FromStripe s l) :=
  match l with
  | .start _ => .isTrue trivial
  | .step i ω => inferInstanceAs (Decidable (∀ o ∈ s.awaits i, o.isPayment = true →
      ∃ created, ω.gateway = stripeProcessDeposit created))

/-- There is one transaction with the key of the input, it is the caller's deposit and has not failed, and
    the caller can complete it with the session that was created for it: it is settled, or the result leads
    to the session. -/
structure Completable (w : World) (userId : String) (input : DepositDto) (result : DepositResult)
    (t : Transaction) : Prop where
  stored : t ∈ w.db.transactions
  key : t.idempotencyKey = input.idempotencyKey
  only : ∀ t' ∈ w.db.transactions, t'.idempotencyKey = input.idempotencyKey → t' = t
  userId : t.userId = userId
  amount : t.amount = input.amount
  currency : t.currency = input.currency.value
  notFailed : t.status ≠ .failed
  session : ∃ p ∈ w.payments, ∃ g ref, p.transactionId = t.id ∧ p.answer = .ok g ∧
    g.providerRef = some ref ∧ t.providerRef = some ref ∧
    (t.status = .pending → g.checkoutUrl.isSome ∧ result.checkoutUrl = g.checkoutUrl)

/-- The key is new, or it is the key of the same deposit of this user, which is settled. -/
def Store.NewOrSettled (db : Store) (userId : String) (input : DepositDto) : Prop :=
  ∀ t, db.findTransactionByIdempotencyKey input.idempotencyKey = some t →
    t.userId = userId ∧ t.amount = input.amount ∧ t.currency = input.currency.value ∧
      t.status = .completed

/-! ## What a call of `deposit` is answered -/

/-- A call that returns has found a transaction, and looked no further; or it has found none, the payment
    was accepted, and the last thing that the call did was to store the reference. -/
def DepositReturns (input : DepositDto) (result : DepositResult) (answers : List (Answer Ans Err)) : Prop :=
  (∃ t, answers = [⟨.findTransactionByIdempotencyKey input.idempotencyKey, .ok (some t)⟩] ∧ result = {}) ∨
    ∃ amount currency paymentMethod transactionId userId g,
      ⟨.findTransactionByIdempotencyKey input.idempotencyKey, .ok none⟩ ∈ answers ∧
      ⟨.processDeposit amount currency paymentMethod transactionId userId, .ok g⟩ ∈ answers ∧
      result = { checkoutUrl := g.checkoutUrl } ∧ ∀ ref, g.storedRef = some ref →
        ∃ earlier, answers = ⟨.updateTransactionProviderRef transactionId ref, .ok ()⟩ :: earlier

section Answers

variable {userId : String} {input : DepositDto} {answers : List (Answer Ans Err)}

/-- What is asserted of the answers of a call that has ended. -/
def IfReturns (input : DepositDto) (r : Except Err DepositResult) (answers : List (Answer Ans Err)) :
    Prop :=
  ∀ result, r = .ok result → DepositReturns input result answers

theorem ifReturns_error (e : Err) : IfReturns input (.error e) answers := nofun

theorem wp_afterGateway_logs {t : Transaction} {g : PaymentGatewayResult}
    {amount : ℤ} {currency paymentMethod : String}
    (hlookup : ⟨.findTransactionByIdempotencyKey input.idempotencyKey, .ok none⟩ ∈ answers)
    (hpaid : ⟨.processDeposit amount currency paymentMethod t.id userId, .ok g⟩ ∈ answers) :
    (afterGateway t g).wp Program.Logs Eq (IfReturns input) answers := by
  -- the call returns only if the gateway has announced a webhook
  have hexit : ∀ answers' : List (Answer Ans Err), answers ⊆ answers' →
      (∀ ref, g.storedRef = some ref →
        ∃ earlier, answers' = ⟨.updateTransactionProviderRef t.id ref, .ok ()⟩ :: earlier) →
      (if g.requiresWebhook then pure { checkoutUrl := g.checkoutUrl }
        else throw (.badRequest "No settlement path available for gateway") : Promise DepositResult).wp
        Program.Logs Eq (IfReturns input) answers' := by
    intro answers' hsub hlast
    split
    · rintro _ rfl result heq
      cases heq
      exact .inr ⟨_, _, _, t.id, _, g, hsub hlookup, hsub hpaid, rfl, hlast⟩
    · rintro _ rfl
      exact ifReturns_error _
  unfold afterGateway
  cases g.success with
  | false => exact Program.wp_await_logs (fun _ _ heq => heq ▸ ifReturns_error _) fun e => ifReturns_error e
  | true =>
    simp only [Bool.not_true, Bool.false_eq_true, if_false]
    cases href : g.storedRef with
    | none => exact hexit answers (fun _ h => h) (by simp [href])
    | some ref =>
      refine Program.wp_await_logs (fun _ => hexit _ (List.subset_cons_self _ _) ?_) fun e => ifReturns_error e
      rintro ref' href'
      cases href.symm.trans href'
      exact ⟨_, rfl⟩

theorem wp_deposit_logs :
    (deposit registry userId input).wp Program.Logs Eq (IfReturns input) [] := by
  unfold deposit
  refine Program.wp_await_logs (fun existing => ?_) fun e => ifReturns_error e
  cases existing with
  | some t =>
    rintro _ rfl result heq
    cases heq
    exact .inl ⟨t, rfl, rfl⟩
  | none =>
    refine Program.wp_await_logs (fun wallet => ?_) fun e => ifReturns_error e
    split
    · rintro _ rfl
      exact ifReturns_error _
    refine Program.wp_await_logs (fun t => ?_) fun e => ifReturns_error e
    cases registry.resolve input.paymentMethod with
    | error e =>
      rintro _ rfl
      exact ifReturns_error _
    | ok gateway =>
      refine Program.wp_await_logs (fun g => ?_) fun e => ifReturns_error e
      exact wp_afterGateway_logs (by simp) (.head _)

theorem wp_serve_returns (req : Request) : (serve registry req).wp Program.Logs Eq
    (fun r answers => ∀ userId input, req = .deposit userId input →
      ∀ result, r = .ok (.deposit result) → DepositReturns input result answers) [] := by
  cases req with
  | deposit userId input =>
    refine Program.wp_bind (fun _ => rfl) (Program.wp_mono wp_deposit_logs fun r answers h => ?_)
    cases r with
    | error e => rintro _ _ _ _ heq; cases heq
    | ok result =>
      rintro _ rfl userId' input' heq result' hresult
      cases heq
      cases hresult
      exact h result rfl
  | _ => exact Program.wp_mono Program.wp_true fun _ _ _ _ _ heq => by cases heq

end Answers

/-! ## The state in which the call ends -/

section Ends

variable {w w' : World} {i : ℕ} {ω : Choice} {userId : String} {input : DepositDto} {result : DepositResult}

/-- A completed transaction has the reference of its payment. -/
theorem World.Inv.completed_session (hinv : w.Inv) {t : Transaction} (ht : t ∈ w.db.transactions)
    (hcompleted : t.status = .completed) : ∃ p ∈ w.payments, ∃ g ref, p.transactionId = t.id ∧
      p.answer = .ok g ∧ g.providerRef = some ref ∧ t.providerRef = some ref := by
  obtain ⟨e, he, htype, hkey⟩ := hinv.deposits.completed t ht hcompleted
  -- what was credited had a reference, and a reference comes from a payment
  obtain ⟨t', ht', hcredits, -, ref, href⟩ := hinv.deposits.credited e he htype
  obtain rfl := Transaction.eq_of_key ht' ht (hcredits.key.symm.trans hkey)
  obtain ⟨p, hp, hid, hpref⟩ := hinv.payments.recorded t' ht' ref href
  unfold Payment.providerRef at hpref
  split at hpref
  · rename_i g hanswer
    split at hpref
    · exact ⟨p, hp, g, ref, hid, hanswer, hpref, href⟩
    · cases hpref
  · cases hpref

/-- A call that has found the transaction `t` answers with nothing. -/
theorem completable_found (hinv : w.Inv) {t : Transaction}
    (hfound : w.db.findTransactionByIdempotencyKey input.idempotencyKey = some t) :
    (∃ t, Completable w userId input {} t) ↔ w.db.NewOrSettled userId input := by
  obtain ⟨ht, hkey⟩ := Table.mem_of_find? hfound
  have hkey : t.idempotencyKey = input.idempotencyKey := by simpa using hkey
  constructor
  · rintro ⟨t', h⟩ t₁ hfound₁
    obtain rfl := Option.some.inj (hfound.symm.trans hfound₁)
    obtain rfl := h.only t ht hkey
    obtain ⟨-, -, g, -, -, -, -, -, hpending⟩ := h.session
    refine ⟨h.userId, h.amount, h.currency, ?_⟩
    have hfailed := h.notFailed
    cases hstatus : t.status with
    | pending =>
      -- the empty result leads nowhere
      obtain ⟨hsome, hnone⟩ := hpending hstatus
      rw [← hnone] at hsome
      cases hsome
    | completed => rfl
    | failed => exact absurd hstatus hfailed
  · -- a settled deposit needs no checkout any more
    intro h
    obtain ⟨huser, hamount, hcurrency, hcompleted⟩ := h t hfound
    obtain ⟨p, hp, g, ref, hid, hanswer, hg, href⟩ := hinv.completed_session ht hcompleted
    refine ⟨t, ht, hkey, fun t' ht' hkey' => Transaction.eq_of_key ht' ht (hkey'.trans hkey.symm), huser,
      hamount, hcurrency, ?_, p, hp, g, ref, hid, hanswer, hg, href, fun hpending => ?_⟩
    · simp [hcompleted]
    · rw [hcompleted] at hpending
      cases hpending

/-- A call whose payment was accepted ends when it has stored the reference. -/
theorem completable_paid {R : ℕ → Request → Prop} (hinv : w.Inv) {session : StripeSession}
    {transactionId : String}
    (hpre : Guarantee (.deposit userId input) i (.updateTransactionProviderRef transactionId session.id) w)
    (hperform : perform i (.updateTransactionProviderRef transactionId session.id) ω w = some (.ok (), w'))
    (hrequested : ∀ t ∈ w.db.transactions, ∃ j userId input, RequestedBy R w j t userId input)
    (hunique : ∀ userId' input', R i (.deposit userId' input') → userId' = userId ∧ input' = input)
    (hpaid : ∃ p ∈ w'.payments, p.transactionId = transactionId ∧
      p.answer = stripeProcessDeposit (.ok session)) :
    ∃ t, Completable w' userId input { checkoutUrl := some session.url } t := by
  obtain ⟨t, hown, hpending, rfl, -⟩ := hpre
  -- the row was asked for by the call that has inserted it, which is this one
  obtain ⟨j, userId', input', hby⟩ := hrequested t hown.stored
  obtain rfl := issued_unique hinv.ids.nodup hby.own hown.own
  obtain ⟨rfl, rfl⟩ := hunique _ _ hby.request
  obtain ⟨p, hp, hid, hanswer⟩ := hpaid
  have hstored := updateTransactionProviderRef_ok hperform hown.stored
  refine ⟨{ t with providerRef := some session.id }, hstored, hby.idempotencyKey, fun t' ht' hkey => ?_,
    hby.userId, hby.amount, hby.currency, ?_, p, hp, _, session.id, hid, hanswer, rfl, rfl, fun _ => ⟨rfl, rfl⟩⟩
  · exact Transaction.eq_of_key ht' hstored (hkey.trans hby.idempotencyKey.symm)
  · simp [hpending]

/-- The answer of the gateway, when it was given, came from Stripe, and the payment is on record. -/
theorem ReachableBy.paid (hs : ReachableBy registry FromStripe s) {c : Call Op Ans Err Request Reply}
    (hc : s.calls[i]? = some c) {amount : ℤ} {currency paymentMethod transactionId payer : String}
    {g : PaymentGatewayResult}
    (ha : ⟨.processDeposit amount currency paymentMethod transactionId payer, .ok g⟩ ∈ c.answers) :
    ∃ session, stripeProcessDeposit (.ok session) = .ok g ∧
      ∃ p ∈ s.world.payments, p.transactionId = transactionId ∧ p.answer = .ok g := by
  obtain ⟨w₀, hw₀, hr⟩ := hs
  obtain ⟨s₁, s₂, ω₁, c₁, -, hallowed, hc₁, -, hnext, -, hperform, hs₂, hr₂⟩ :=
    (reachable_initial hw₀).answered hr rfl hc ha
  obtain ⟨hanswer, -, hpaid⟩ := pay_eq_some hperform
  have hawaits : s₁.awaits i = some (.processDeposit amount currency paymentMethod transactionId payer) := by
    rw [System.awaits, hc₁]
    exact hnext
  obtain ⟨created, hcreated⟩ := hallowed _ hawaits rfl
  have hg : stripeProcessDeposit created = .ok g := hcreated.symm.trans hanswer.symm
  cases created with
  | error e => cases hg
  | ok session =>
    refine ⟨session, hg, _, (hs₂.grows hr₂).mem_payments ?_, rfl, hanswer.symm⟩
    rw [hpaid]
    exact List.mem_append_right _ (List.mem_singleton_self _)

/-- For every run in which Stripe answers the payments, and every call of `deposit` in it that returns:
    there is a state in which the call has looked its key up, and the deposit can be completed by its
    caller if and only if in that state the key was new, or that of the same deposit, settled. -/
theorem accepted_deposit_completable_iff (hs : ReachableBy registry FromStripe s)
    (hω : FromStripe s (.step i ω)) (hstep : (server registry).step s i ω = some s')
    (hasked : Asked s i (.deposit userId input))
    (hresult : s'.outcome i = some (.ok (.deposit result))) :
    ∃ s₀ found, (server registry).Performed i
        (.findTransactionByIdempotencyKey input.idempotencyKey) (.ok found) s₀ s' ∧
      ((∃ t, Completable s'.world userId input result t) ↔ s₀.world.db.NewOrSettled userId input) := by
  have hnext : (server registry).next s (.step i ω) = some s' := hstep
  have hs' : ReachableBy registry FromStripe s' :=
    let ⟨w₀, hw₀, hr⟩ := hs
    ⟨w₀, hw₀, hr.tail hω hnext⟩
  obtain ⟨c, o, next, r, world, hc, hp, hperform, rfl⟩ := Server.step_cases hstep
  have hi := (List.getElem?_eq_some_iff.mp hc).1
  obtain ⟨c', hc', hreq⟩ := hasked
  obtain rfl := Option.some.inj (hc.symm.trans hc')
  have hcall := List.getElem?_set_self (a := (⟨c.request, ⟨o, r⟩ :: c.answers, next r⟩ :
    Call Op Ans Err Request Reply)) hi
  -- what the call was answered
  have hreturns : DepositReturns input result (⟨o, r⟩ :: c.answers) := by
    have hlogged := Reachable.logged wp_serve_returns hs'.reachable (List.mem_of_getElem? hcall)
    rw [System.outcome, hcall] at hresult
    exact Server.logged_outcome hlogged hresult userId input hreq result rfl
  rcases hreturns with ⟨t, hanswers, rfl⟩ |
    ⟨amount, currency, paymentMethod, transactionId, payer, g, hlookup, hpaid, rfl, hlast⟩
  · -- the look-up was the last operation
    cases (List.cons_eq_cons.mp hanswers).1
    obtain ⟨rfl, hfound⟩ := read_ok hperform
    refine ⟨s, some t, ⟨System.awaits_eq hc hp, ω, _, hstep, hperform, .refl⟩, ?_⟩
    exact completable_found hs'.reachable.inv hfound.symm
  · -- the key was new, and storing the reference was the last operation
    obtain ⟨s₀, -, hperformed⟩ := hs'.reachable.performed hcall hlookup
    have hnone : s₀.world.db.findTransactionByIdempotencyKey input.idempotencyKey = none := by
      obtain ⟨-, ω₀, s₁, -, hperform₀, -⟩ := hperformed
      exact (read_ok hperform₀).2.symm
    refine ⟨s₀, none, hperformed, iff_of_true ?_ fun t hfound => by cases hnone.symm.trans hfound⟩
    obtain ⟨session, hg, hpayment⟩ := hs'.paid hcall hpaid
    cases hg
    have href : PaymentGatewayResult.storedRef ⟨true, some session.id, some session.url, true, none⟩ =
        some session.id := by
      simp [PaymentGatewayResult.storedRef, session.id_notEmpty]
    obtain ⟨earlier, hearlier⟩ := hlast session.id href
    cases (List.cons_eq_cons.mp hearlier).1
    obtain ⟨c', hc', hpre, -⟩ := hs.reachable.effect hstep (System.awaits_eq hc hp)
    obtain rfl := Option.some.inj (hc.symm.trans hc')
    rw [hreq] at hpre
    refine completable_paid hs.reachable.inv hpre hperform hs.reachable.requested ?_ hpayment
    -- call `i` has made one request
    rintro userId' input' ⟨c', hc', hreq'⟩
    obtain rfl := Option.some.inj (hc.symm.trans hc')
    cases hreq.symm.trans hreq'
    exact ⟨rfl, rfl⟩

end Ends

/-! ## Ada tops up twice -/

deriving instance DecidableEq for DepositDto

def Request.deposit? : Request → Option (String × DepositDto)
  | .deposit userId input => some (userId, input)
  | _ => none

theorem asked_deposit {i : ℕ} {userId : String} {input : DepositDto}
    (h : (s.calls[i]?.bind (·.request.deposit?)) = some (userId, input)) :
    Asked s i (.deposit userId input) := by
  obtain ⟨c, hc, hreq⟩ := Option.bind_eq_some_iff.mp h
  refine ⟨c, hc, ?_⟩
  cases hrequest : c.request <;> rw [hrequest] at hreq <;> cases hreq
  rfl

/-- Ada's first deposit, but for its last step. -/
def toppingUp : List (Label Request Choice) :=
  openWallet 0 "u1" "Ada" "w1" ++ (payIn 1 "u1" topup "t1" "cs1").take 5

theorem accepted_deposit_completable_iff_topup : ∃ (s' s₀ : State) (found : Option Transaction),
    s'.outcome 1 = some (.ok (.deposit { checkoutUrl := some "cs1" })) ∧
    (server cardPayments).Performed 1 (.findTransactionByIdempotencyKey "topup") (.ok found) s₀ s' ∧
    ((∃ t, Completable s'.world "u1" topup { checkoutUrl := some "cs1" } t) ↔
      s₀.world.db.NewOrSettled "u1" topup) := by
  have hrun : ((server cardPayments).runUnder FromStripe toppingUp ⟨World.fresh adaAndBob, []⟩).bind
      (fun s => ((server cardPayments).step s 1 {}).map fun s' => (decide (FromStripe s (.step 1 {})),
        s.calls[1]?.bind (·.request.deposit?), s'.outcome 1)) =
      some (true, some ("u1", topup), some (.ok (.deposit { checkoutUrl := some "cs1" }))) := by
    decide +kernel
  obtain ⟨s, hs, hrun⟩ := Option.bind_eq_some_iff.mp hrun
  obtain ⟨s', hstep, hfound⟩ := Option.map_eq_some_iff.mp hrun
  simp only [Prod.mk.injEq, decide_eq_true_eq] at hfound
  obtain ⟨hω, hasked, hresult⟩ := hfound
  obtain ⟨s₀, found, h⟩ := accepted_deposit_completable_iff (reachableBy_of_run hs) hω hstep
    (asked_deposit hasked) hresult
  exact ⟨s', s₀, found, hresult, h⟩

/-- The first deposit is waiting for the payment, when Ada makes the same call again. -/
def toppedUpTwice : List (Label Request Choice) :=
  openWallet 0 "u1" "Ada" "w1" ++ payIn 1 "u1" topup "t1" "cs1" ++ [.start (.deposit "u1" topup), .step 2 {}]

/-- She is told that the deposit was accepted, and not where to pay. -/
theorem topped_up_twice_leads_nowhere : ∃ s : State, ReachableBy cardPayments FromStripe s ∧
    Asked s 2 (.deposit "u1" topup) ∧ s.outcome 2 = some (.ok (.deposit {})) ∧
    ¬ ∃ t, Completable s.world "u1" topup {} t := by
  have hrun : ((server cardPayments).runUnder FromStripe toppedUpTwice ⟨World.fresh adaAndBob, []⟩).map
      (fun s => (s.calls[2]?.bind (·.request.deposit?), s.outcome 2,
        s.world.db.transactions.rows.map (·.status))) =
      some (some ("u1", topup), some (.ok (.deposit {})), [.pending]) := by
    decide +kernel
  obtain ⟨s, hs, hfound⟩ := Option.map_eq_some_iff.mp hrun
  simp only [Prod.mk.injEq] at hfound
  obtain ⟨hasked, hresult, hstatus⟩ := hfound
  refine ⟨s, reachableBy_of_run hs, asked_deposit hasked, hresult, ?_⟩
  rintro ⟨t, h⟩
  have hmem : t.status ∈ s.world.db.transactions.rows.map (·.status) := List.mem_map_of_mem h.stored
  obtain ⟨-, -, g, -, -, -, -, -, hpending⟩ := h.session
  obtain ⟨hsome, hnone⟩ := hpending (by simpa [hstatus] using hmem)
  rw [← hnone] at hsome
  cases hsome

end LiorParisWallet
