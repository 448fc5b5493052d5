import LiorParisWallet.Async.History
import LiorParisWallet.Money.Runs

/-!
# The balance cache

What the calls owe to the cache, on recorded runs: only `getBalance` fills it, under its own key and with
a row that it has read; and a call that has changed a balance deletes the keys of the wallets before it
returns.
-/

namespace LiorParisWallet

open Async Relational

abbrev RecordedWorld : Type := Recorded Op Ans Err World

abbrev RecordedState : Type := History Op Ans Err Request Reply World

/-- At some moment of the run so far, this was the wallet of the user and the currency. -/
def Snapshot (w : RecordedWorld) (userId currency : String) (a : Wallet) : Prop :=
  ∃ w₀ ∈ w.worlds, w₀.db.findByUserIdAndCurrency userId currency = some a

/-- Call `i` has read this row of the wallet from the store. -/
def Fetched (w : RecordedWorld) (i : ℕ) (userId currency : String) (a : Wallet) : Prop :=
  ∃ e ∈ w.log, e.call = i ∧
    (⟨e.op, e.answer⟩ : Answer Ans Err) = ⟨.findByUserIdAndCurrency userId currency, .ok (some a)⟩ ∧
    e.world.db.findByUserIdAndCurrency userId currency = some a

/-- The cache keys of the wallets whose balances the operation changes. -/
def Op.cacheKeys : Op → List String
  | .settleTransaction _ t _ _ _ => [balanceCacheKey t.userId t.currency]
  | .executeTransfer t _ _ _ =>
      [balanceCacheKey t.fromUserId t.currency, balanceCacheKey t.toUserId t.currency]
  | _ => []

/-- The operation neither fills the cache nor changes a balance. -/
def Op.Aside : Op → Prop
  | .cacheSet _ _ | .settleTransaction _ _ _ _ _ | .executeTransfer _ _ _ _ => False
  | _ => True

/-- After each change of balances the keys of the wallets were deleted. -/
def Invalidated (answers : List (Answer Ans Err)) : Prop :=
  ∀ l₁ o a l₂, answers = l₁ ++ ⟨o, .ok a⟩ :: l₂ →
    ∀ key ∈ o.cacheKeys, ⟨.cacheDel key, .ok ()⟩ ∈ l₁

/-- What the call, asked for a balance, found in the cache or in the store. -/
def Looked (req : Request) (answers : List (Answer Ans Err)) (rep : Reply) : Prop :=
  ∀ userId currency, req = .getBalance userId currency → ∃ a, rep = .wallet a ∧
    (⟨.cacheGet (balanceCacheKey userId currency), .ok (some a)⟩ ∈ answers ∨
      ⟨.findByUserIdAndCurrency userId currency, .ok (some a)⟩ ∈ answers)

theorem Snapshot.mono {w w' : RecordedWorld} {userId currency : String} {a : Wallet}
    (h : Snapshot w userId currency a) (hw : w.worlds <+: w'.worlds) :
    Snapshot w' userId currency a :=
  let ⟨w₀, hmem, hfind⟩ := h
  ⟨w₀, hw.subset hmem, hfind⟩

theorem Fetched.mono {w w' : RecordedWorld} {i : ℕ} {userId currency : String} {a : Wallet}
    (h : Fetched w i userId currency a) (hw : w.log <+: w'.log) : Fetched w' i userId currency a :=
  let ⟨e, hmem, he⟩ := h
  ⟨e, hw.subset hmem, he⟩

theorem Fetched.snapshot {w : RecordedWorld} {i : ℕ} {userId currency : String} {a : Wallet}
    (h : Fetched w i userId currency a) : Snapshot w userId currency a :=
  let ⟨e, hmem, _, _, hfind⟩ := h
  ⟨e.world, List.mem_append_left _ (List.mem_map_of_mem hmem), hfind⟩

theorem log_of_recorded {registry : PaymentGatewayRegistry} {i : ℕ} {o : Op} {ω : Choice}
    {w w' : RecordedWorld} {r : Except Err (Ans o)}
    (h : (server registry).recorded.perform i o ω w = some (r, w')) : w.log <+: w'.log :=
  (Server.recorded_perform.mp h).2 ▸ List.prefix_append _ _

def cacheContract (registry : PaymentGatewayRegistry) : Contract (server registry).recorded where
  Inv _ := True
  Pre req i o w := ∀ key a, o = .cacheSet key a → ∃ userId currency,
    req = .getBalance userId currency ∧ key = balanceCacheKey userId currency ∧
      Fetched w i userId currency a
  Rely _ w w' := w.log <+: w'.log
  rely_refl _ _ := List.prefix_rfl
  rely_trans := List.IsPrefix.trans
  inv_perform _ _ _ := trivial
  rely_perform _ _ _ hp := log_of_recorded hp

/-! ## The services keep the contract -/

section Services

variable {registry : PaymentGatewayRegistry} {req : Request} {i : ℕ} {w : RecordedWorld}
variable {answers : List (Answer Ans Err)}

theorem aside_pre {o : Op} (w : RecordedWorld) (ho : o.Aside) : (cacheContract registry).Pre req i o w := by
  rintro key a rfl
  cases ho

/-- The calls that leave balances and cache entries alone. -/
theorem ensureWallet_aside (userId currency userName : String) :
    (ensureWallet userId currency userName).All Op.Aside := by
  refine Program.all_await trivial fun existing => ?_
  cases existing with
  | some wallet => trivial
  | none => exact Program.all_await trivial fun _ => Program.all_call trivial

theorem createWallet_aside (userId userName : String) (input : CreateWalletDto) :
    (createWallet userId userName input).All Op.Aside := by
  refine Program.all_await trivial fun existing => ?_
  show Program.All Op.Aside (if existing.isSome then _ else _)
  split
  · trivial
  · exact ensureWallet_aside _ _ _

theorem afterGateway_aside (t : Transaction) (r : PaymentGatewayResult) :
    (afterGateway t r).All Op.Aside := by
  unfold afterGateway
  have hwebhook : Program.All Op.Aside (if r.requiresWebhook then
      pure { checkoutUrl := r.checkoutUrl }
      else throw (.badRequest "No settlement path available for gateway") : Promise DepositResult) := by
    split <;> trivial
  dsimp only
  split
  · exact Program.all_await trivial fun _ => trivial
  · cases r.storedRef with
    | none => exact hwebhook
    | some providerRef => exact Program.all_await trivial fun _ => hwebhook

theorem deposit_aside (userId : String) (input : DepositDto) :
    (deposit registry userId input).All Op.Aside := by
  refine Program.all_await trivial fun existing => ?_
  show Program.All Op.Aside (if existing.isSome then _ else _)
  split
  · trivial
  · refine Program.all_await trivial fun wallet => ?_
    show Program.All Op.Aside (if wallet.isNone then _ else _)
    split
    · trivial
    · refine Program.all_await trivial fun t => ?_
      refine (Program.all_ofExcept _).bind fun _ => ?_
      exact Program.all_await trivial fun r => afterGateway_aside t r

theorem failByProviderRef_aside (providerRef reason : String) :
    (failByProviderRef providerRef reason).All Op.Aside := by
  refine Program.all_await trivial fun t => ?_
  cases t with
  | none => trivial
  | some t =>
    show Program.All Op.Aside (if t.status ≠ .pending then _ else _)
    split
    · trivial
    · exact Program.all_call trivial

theorem deleteUser_aside (requestingUserId targetUserId : String) (role : UserRole) :
    (deleteUser requestingUserId targetUserId role).All Op.Aside := by
  refine Program.all_await trivial fun user => ?_
  show Program.All Op.Aside (if user.isNone then _ else _)
  split
  · trivial
  · exact (Program.all_ofExcept _).bind fun _ => Program.all_call trivial

theorem getUserName_aside (userId : String) : (getUserName userId).All Op.Aside :=
  Program.all_await trivial fun _ => trivial

theorem getUserEmail_aside (userId : String) : (getUserEmail userId).All Op.Aside :=
  Program.all_await trivial fun _ => trivial

/-- Nothing but such operations has been awaited. -/
def AllAside (answers : List (Answer Ans Err)) : Prop := ∀ x ∈ answers, x.1.Aside

theorem AllAside.cons (h : AllAside answers) {o : Op} (ho : o.Aside) (r : Except Err (Ans o)) :
    AllAside (⟨o, r⟩ :: answers) :=
  List.forall_mem_cons.mpr ⟨ho, h⟩

theorem Op.Aside.cacheKeys {o : Op} (ho : o.Aside) : o.cacheKeys = [] := by
  cases o <;> first | rfl | cases ho

theorem AllAside.invalidated (h : AllAside answers) : Invalidated answers := by
  rintro l₁ o a l₂ rfl key hkey
  have ho : o.Aside := h ⟨o, .ok a⟩ (List.mem_append_right _ List.mem_cons_self)
  rw [ho.cacheKeys] at hkey
  cases hkey

theorem Invalidated.cons (h : Invalidated answers) {o : Op} (ho : o.cacheKeys = [])
    (r : Except Err (Ans o)) : Invalidated (⟨o, r⟩ :: answers) := by
  intro l₁ o' a l₂ heq key hkey
  cases l₁ with
  | nil =>
    cases heq
    rw [ho] at hkey
    cases hkey
  | cons x l₁ =>
    obtain ⟨rfl, rfl⟩ := List.cons.inj heq
    exact List.mem_cons_of_mem _ (h l₁ o' a l₂ rfl key hkey)

/-- A change of balances and the deletions after it. -/
theorem AllAside.invalidated_cons (h : AllAside answers) {o : Op} (r : Except Err (Ans o))
    (dels : List (Answer Ans Err)) (hdels : AllAside dels)
    (hkeys : ∀ key ∈ o.cacheKeys, ⟨.cacheDel key, .ok ()⟩ ∈ dels) :
    Invalidated (dels ++ ⟨o, r⟩ :: answers) := by
  intro l₁ o' a l₂ heq key hkey
  rcases List.append_eq_append_iff.mp heq with ⟨l, rfl, hl⟩ | ⟨l, rfl, hl⟩
  · cases l with
    | nil =>
      cases hl
      rw [List.append_nil]
      exact hkeys key hkey
    | cons x l =>
      -- the operation is one of those before the change
      obtain ⟨rfl, rfl⟩ := List.cons.inj hl
      have ho : o'.Aside := h ⟨o', .ok a⟩ (List.mem_append_right _ List.mem_cons_self)
      rw [ho.cacheKeys] at hkey
      cases hkey
  · cases l with
    | nil =>
      cases hl
      rw [List.append_nil] at hkeys
      exact hkeys key hkey
    | cons x l =>
      obtain ⟨rfl, rfl⟩ := List.cons.inj hl
      have ho : o'.Aside := hdels ⟨o', .ok a⟩ (List.mem_append_right _ List.mem_cons_self)
      rw [ho.cacheKeys] at hkey
      cases hkey

theorem wp_aside {α : Type} {p : Promise α} (hp : p.All Op.Aside) (hanswers : AllAside answers) :
    (cacheContract registry).wp req i p (fun answers _ _ => AllAside answers) answers w :=
  Contract.wp_of_all hp (fun _ w ho => aside_pre w ho) hanswers

/-- The rest of a function after a part that leaves balances and cache entries alone. -/
theorem wp_after_aside {α β : Type} {p : Promise α} {f : α → Promise β}
    {Φ : List (Answer Ans Err) → β → RecordedWorld → Prop} (hp : p.All Op.Aside)
    (hanswers : AllAside answers)
    (h : ∀ a answers' w', AllAside answers' →
      (cacheContract registry).wp req i (f a) (Contract.returns Φ) answers' w') :
    (cacheContract registry).wp req i (p >>= f) (Contract.returns Φ) answers w := by
  refine Contract.wp_bind.mpr (Contract.wp_mono (wp_aside hp hanswers) fun answers' r w' ha => ?_)
  cases r with
  | ok a => exact h a answers' w' ha
  | error e => exact fun _ h => nomatch h

theorem settlePending_invalidates (t : Transaction) (wallet : Wallet) (hanswers : AllAside answers) :
    (cacheContract registry).wp req i (settlePending t wallet)
      (Contract.returns fun answers _ _ => Invalidated answers) answers w := by
  refine wp_after_aside (getUserEmail_aside t.userId) hanswers fun userEmail answers₁ w₁ ha₁ => ?_
  refine wp_after_aside (Program.all_call trivial) ha₁ fun now answers₂ w₂ ha₂ => ?_
  refine Contract.wp_await fun w₃ _ _ => ⟨(fun _ _ h => nomatch h), fun ω entry w₄ _ => ?_⟩
  refine Contract.wp_call fun w₅ _ _ => ⟨aside_pre w₅ trivial, fun ω r w₆ _ => ?_⟩
  rintro a rfl
  refine ha₂.invalidated_cons (.ok entry) [_] ?_ ?_
  · exact List.forall_mem_cons.mpr ⟨trivial, fun _ h => absurd h List.not_mem_nil⟩
  · intro key hkey
    rw [List.mem_singleton.mp hkey]
    exact List.mem_singleton_self _

theorem settleByProviderRef_invalidates (providerRef : String) (hanswers : AllAside answers) :
    (cacheContract registry).wp req i (settleByProviderRef providerRef)
      (Contract.returns fun answers _ _ => Invalidated answers) answers w := by
  unfold settleByProviderRef
  refine wp_after_aside (Program.all_call trivial) hanswers fun t answers₁ w₁ ha₁ => ?_
  cases t with
  | none => exact Contract.wp_returns_pure ha₁.invalidated
  | some t =>
    show (cacheContract registry).wp req i (if t.status ≠ .pending then _ else _) _ _ _
    split
    · exact Contract.wp_returns_pure ha₁.invalidated
    · refine wp_after_aside (Program.all_call trivial) ha₁ fun wallet answers₂ w₂ ha₂ => ?_
      cases wallet with
      | none => exact Contract.wp_returns_pure ha₂.invalidated
      | some wallet => exact settlePending_invalidates t wallet ha₂

theorem handleWebhook_invalidates (signature : Option String) (constructed : Except String StripeWebhookEvent)
    (hanswers : AllAside answers) :
    (cacheContract registry).wp req i (handleWebhook signature constructed)
      (Contract.returns fun answers _ _ => Invalidated answers) answers w := by
  unfold handleWebhook
  dsimp only
  split
  · exact Contract.wp_returns_throw
  · cases constructed with
    | error e => exact Contract.wp_returns_throw
    | ok event =>
      dsimp only
      split
      · split
        · exact settleByProviderRef_invalidates _ hanswers
        · exact Contract.wp_returns_pure hanswers.invalidated
      · split
        · refine Contract.wp_mono (wp_aside (failByProviderRef_aside _ _) hanswers) ?_
          exact fun _ _ _ ha _ _ => ha.invalidated
        · exact Contract.wp_returns_pure hanswers.invalidated

theorem moveMoney_invalidates (fromUserId fromUserEmail : String) (input : InitiateTransferDto)
    (fromWallet toWallet : Wallet) (hanswers : AllAside answers) :
    (cacheContract registry).wp req i (moveMoney fromUserId fromUserEmail input fromWallet toWallet)
      (Contract.returns fun answers _ _ => Invalidated answers) answers w := by
  unfold moveMoney
  refine wp_after_aside ((getUserName_aside _).both (Program.all_call trivial)) hanswers
    fun names answers₁ w₁ ha₁ => ?_
  refine Contract.wp_await fun w₂ _ _ => ⟨aside_pre w₂ trivial, fun ω t w₃ hp => ?_⟩
  have ha₃ := ha₁.cons (o := .createTransfer
    { fromUserId := fromUserId
      toUserId := toWallet.userId
      amount := input.amount
      currency := input.currency.value
      idempotencyKey := input.idempotencyKey }) trivial (.ok t)
  obtain ⟨rfl, -, -⟩ := createTransfer_ok (Server.recorded_perform.mp hp).1
  refine wp_after_aside (Program.all_call trivial) ha₃ fun now answers₄ w₄ ha₄ => ?_
  refine Contract.wp_await fun w₅ _ _ => ⟨(fun _ _ h => nomatch h), fun ω' u w₆ _ => ?_⟩
  -- first the sender's key is deleted, then the receiver's
  refine Contract.wp_bind.mpr (Contract.wp_mono (Contract.wp_both (Φ := fun answers _ _ =>
    Invalidated answers) ?_) fun answers₇ r w₇ hinv => ?_)
  · refine Contract.wp_call fun w₇ _ _ => ⟨aside_pre w₇ trivial, fun _ r w₈ _ => ?_⟩
    refine Contract.wp_call fun w₉ _ _ => ⟨aside_pre w₉ trivial, fun _ r' w₁₀ _ => ?_⟩
    rintro x y rfl rfl
    refine ha₄.invalidated_cons (.ok u) [_, _] ?_ ?_
    · exact List.forall_mem_cons.mpr ⟨trivial, List.forall_mem_cons.mpr
        ⟨trivial, fun _ h => absurd h List.not_mem_nil⟩⟩
    · intro key hkey
      rcases List.mem_cons.mp hkey with rfl | hkey
      · exact List.mem_cons_of_mem _ (List.mem_singleton_self _)
      · rw [List.mem_singleton.mp hkey]
        exact List.mem_cons_self
  · cases r with
    | ok a => exact Contract.wp_returns_pure (hinv a rfl)
    | error e => exact fun _ h => nomatch h

theorem initiateTransfer_invalidates (fromUserId fromUserEmail : String) (input : InitiateTransferDto)
    (hanswers : AllAside answers) :
    (cacheContract registry).wp req i (initiateTransfer fromUserId fromUserEmail input)
      (Contract.returns fun answers _ _ => Invalidated answers) answers w := by
  unfold initiateTransfer
  refine wp_after_aside (Program.all_call trivial) hanswers fun toWallet answers₁ w₁ ha₁ => ?_
  cases toWallet with
  | none => exact Contract.wp_returns_throw
  | some toWallet =>
    dsimp only
    split
    · exact Contract.wp_returns_throw
    · split
      · exact Contract.wp_returns_throw
      · refine wp_after_aside (Program.all_call trivial) ha₁ fun existing answers₂ w₂ ha₂ => ?_
        split
        · exact Contract.wp_returns_pure ha₂.invalidated
        · refine wp_after_aside (Program.all_call trivial) ha₂ fun fromWallet answers₃ w₃ ha₃ => ?_
          cases fromWallet with
          | none => exact Contract.wp_returns_throw
          | some fromWallet => exact moveMoney_invalidates _ _ _ _ _ ha₃

/-- A balance comes from the cache, or from the store, and then it is put into the cache. -/
theorem getBalance_looks (userId currency : String) (hreq : req = .getBalance userId currency) :
    (cacheContract registry).wp req i (getBalance userId currency)
      (Contract.returns fun answers a _ => Invalidated answers ∧
        (⟨.cacheGet (balanceCacheKey userId currency), .ok (some a)⟩ ∈ answers ∨
          ⟨.findByUserIdAndCurrency userId currency, .ok (some a)⟩ ∈ answers)) [] w := by
  have hnil : AllAside [] := fun _ h => absurd h List.not_mem_nil
  unfold getBalance
  refine Contract.wp_await fun w₁ _ _ => ⟨aside_pre w₁ trivial, fun _ cached w₂ _ => ?_⟩
  have ha₂ := hnil.cons (o := .cacheGet (balanceCacheKey userId currency)) trivial (.ok cached)
  cases cached with
  | some a => exact Contract.wp_returns_pure ⟨ha₂.invalidated, .inl (List.mem_singleton_self _)⟩
  | none =>
    refine Contract.wp_await fun w₃ _ _ => ⟨aside_pre w₃ trivial, fun ω wallet w₄ hp => ?_⟩
    have ha₄ := ha₂.cons (o := .findByUserIdAndCurrency userId currency) trivial (.ok wallet)
    cases wallet with
    | none => exact Contract.wp_returns_throw
    | some a =>
      obtain ⟨hread, hlog⟩ := Server.recorded_perform.mp hp
      have hfetched : Fetched w₄ i userId currency a := by
        refine ⟨⟨i, _, _, w₃.world⟩, ?_, rfl, rfl, (read_ok hread).2.symm⟩
        rw [hlog]
        exact List.mem_append_right _ (List.mem_singleton_self _)
      refine Contract.wp_await fun w₅ hrely _ => ⟨?_, fun _ _ w₆ _ => ?_⟩
      · rintro key a' ⟨⟩
        exact ⟨userId, currency, hreq, rfl, hfetched.mono hrely⟩
      · exact Contract.wp_returns_pure ⟨ha₄.invalidated.cons rfl _,
          .inr (List.mem_cons_of_mem _ List.mem_cons_self)⟩

/-- What a call has made sure of when it returns. -/
def CacheKept (req : Request) (answers : List (Answer Ans Err)) (rep : Reply) : Prop :=
  Invalidated answers ∧ Looked req answers rep

theorem Looked.of_ne {answers : List (Answer Ans Err)} {rep : Reply}
    (h : ∀ userId currency, req ≠ .getBalance userId currency) : Looked req answers rep :=
  fun userId currency hreq => absurd hreq (h userId currency)

/-- A call that is no request for a balance only has to invalidate. -/
theorem wp_keeps {α : Type} {p : Promise α} {f : α → Reply}
    (hne : ∀ userId currency, req ≠ .getBalance userId currency)
    (h : (cacheContract registry).wp req i p
      (Contract.returns fun answers _ _ => Invalidated answers) [] w) :
    (cacheContract registry).wp req i (p >>= fun a => pure (f a))
      (Contract.returns fun answers rep _ => CacheKept req answers rep) [] w := by
  refine Contract.wp_bind.mpr (Contract.wp_mono h fun answers r w hinv => ?_)
  cases r with
  | ok a => exact Contract.wp_returns_pure ⟨hinv a rfl, .of_ne hne⟩
  | error e => exact fun _ h => nomatch h

theorem wp_invalidated_of_aside {α : Type} {p : Promise α} (hp : p.All Op.Aside) :
    (cacheContract registry).wp req i p
      (Contract.returns fun answers _ _ => Invalidated answers) [] w :=
  Contract.wp_mono (wp_aside hp fun _ h => absurd h List.not_mem_nil) fun _ _ _ ha _ _ => ha.invalidated

theorem serve_keeps (req : Request) :
    (cacheContract registry).wp req i (serve registry req)
      (Contract.returns fun answers rep _ => CacheKept req answers rep) [] w := by
  have hnil : AllAside [] := fun _ h => absurd h List.not_mem_nil
  cases req with
  | createWallet userId userName input =>
    exact wp_keeps (fun _ _ h => nomatch h) (wp_invalidated_of_aside (createWallet_aside _ _ _))
  | ensureWallet userId currency userName =>
    exact wp_keeps (fun _ _ h => nomatch h) (wp_invalidated_of_aside (ensureWallet_aside _ _ _))
  | handleUserRegistered payload =>
    exact wp_keeps (fun _ _ h => nomatch h) (wp_invalidated_of_aside (ensureWallet_aside _ _ _))
  | getBalance userId currency =>
    refine Contract.wp_bind.mpr (Contract.wp_mono (getBalance_looks userId currency rfl)
      fun answers r w hlooked => ?_)
    cases r with
    | error e => exact fun _ h => nomatch h
    | ok a =>
      refine Contract.wp_returns_pure ⟨(hlooked a rfl).1, ?_⟩
      rintro userId' currency' ⟨⟩
      exact ⟨a, rfl, (hlooked a rfl).2⟩
  | deposit userId input =>
    exact wp_keeps (fun _ _ h => nomatch h) (wp_invalidated_of_aside (deposit_aside _ _))
  | settleByProviderRef providerRef =>
    exact wp_keeps (fun _ _ h => nomatch h) (settleByProviderRef_invalidates _ hnil)
  | failByProviderRef providerRef reason =>
    exact wp_keeps (fun _ _ h => nomatch h) (wp_invalidated_of_aside (failByProviderRef_aside _ _))
  | handleWebhook signature constructed =>
    exact wp_keeps (fun _ _ h => nomatch h) (handleWebhook_invalidates _ _ hnil)
  | initiateTransfer fromUserId fromUserEmail input =>
    exact wp_keeps (fun _ _ h => nomatch h) (initiateTransfer_invalidates _ _ _ hnil)
  | createUser input =>
    exact wp_keeps (fun _ _ h => nomatch h) (wp_invalidated_of_aside (Program.all_call trivial))
  | deleteUser requestingUserId targetUserId role =>
    exact wp_keeps (fun _ _ h => nomatch h) (wp_invalidated_of_aside (deleteUser_aside _ _ _))

theorem cache_meets : (cacheContract registry).Meets fun _ req =>
    Contract.returns fun answers rep _ => CacheKept req answers rep :=
  fun _ req _ _ => serve_keeps req

end Services

end LiorParisWallet
