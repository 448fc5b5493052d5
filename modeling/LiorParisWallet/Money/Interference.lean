import LiorParisWallet.Money.Rekeying

/-!
# Interference through idempotency keys

Keys are not kept apart by user, so a key that one user has chosen decides what becomes of a call of
another.  But that is all that can be told from a key: two runs in which the same keys clash do not
differ in anything else.
-/

namespace LiorParisWallet

open Async Relational

variable {K : KeyUses}

/-! ## Services -/

section Services

variable {registry : PaymentGatewayRegistry}

/-- The two programs await operations that differ in keys only. -/
abbrev Promise.Alike {α : Type} (K : KeyUses) (Q : α → α → Prop) (p p' : Promise α) : Prop :=
  Related (Op.Alike K) Q p p'

/-- The rule for an operation that has to do with no key. -/
theorem await_alike {α : Type} {Q : α → α → Prop} {o : Op} {f f' : Ans o → Promise α}
    (ho : o.keyless = true) (hf : ∀ a, Promise.Alike K Q (f a) (f' a)) :
    Promise.Alike K Q (await o >>= f) (await o >>= f') := by
  refine .call_bind (.keyless ho) fun a a' ha => ?_
  cases ha
  exact hf a

theorem call_alike (o : Op) (ho : o.keyless = true) : Promise.Alike K Eq (await o) (await o) :=
  .call o o (.keyless ho)

theorem both_alike {α β : Type} {p p' : Promise α} {q q' : Promise β} (hp : Promise.Alike K Eq p p')
    (hq : Promise.Alike K Eq q q') : Promise.Alike K Eq (.both p q) (.both p' q') :=
  (Related.both hp hq).mono fun _ _ h => Prod.ext h.1 h.2

theorem ensureWallet_alike (userId currency userName : String) :
    Promise.Alike K Eq (ensureWallet userId currency userName)
      (ensureWallet userId currency userName) := by
  unfold ensureWallet
  refine await_alike rfl fun existing => ?_
  cases existing with
  | some wallet => exact .pure rfl
  | none => exact await_alike rfl fun bytes => call_alike (.saveWallet _) rfl

theorem createWallet_alike (userId userName : String) (input : CreateWalletDto) :
    Promise.Alike K Eq (createWallet userId userName input) (createWallet userId userName input) := by
  unfold createWallet
  refine await_alike rfl fun existing => ?_
  cases existing with
  | some wallet => exact .throw _
  | none => exact ensureWallet_alike _ _ _

theorem getBalance_alike (userId currency : String) :
    Promise.Alike K Eq (getBalance userId currency) (getBalance userId currency) := by
  unfold getBalance
  refine await_alike rfl fun cached => ?_
  cases cached with
  | some wallet => exact .pure rfl
  | none =>
    refine await_alike rfl fun wallet => ?_
    cases wallet with
    | none => exact .throw _
    | some wallet => exact await_alike rfl fun _ => .pure rfl

theorem deleteUser_alike (requestingUserId targetUserId : String) (role : UserRole) :
    Promise.Alike K Eq (deleteUser requestingUserId targetUserId role)
      (deleteUser requestingUserId targetUserId role) := by
  unfold deleteUser
  refine await_alike rfl fun userToDelete => ?_
  cases userToDelete with
  | none => exact .throw _
  | some user =>
    refine Related.bind (.ofExcept (.refl _)) fun _ _ _ => call_alike (.deleteUser _) rfl

theorem afterGateway_alike {t t' : Transaction} (ht : Transaction.Alike K t t')
    (g : PaymentGatewayResult) : Promise.Alike K Eq (afterGateway t g) (afterGateway t' g) := by
  obtain ⟨k, hk, rfl⟩ := ht
  unfold afterGateway
  cases g.success with
  | false => exact .call_bind (.failTransaction _ ⟨k, hk, rfl⟩) fun _ _ _ => .throw _
  | true =>
    have hreply : Promise.Alike K Eq
        (if g.requiresWebhook then pure { checkoutUrl := g.checkoutUrl }
          else throw (.badRequest "No settlement path available for gateway") : Promise DepositResult)
        (if g.requiresWebhook then pure { checkoutUrl := g.checkoutUrl }
          else throw (.badRequest "No settlement path available for gateway")) := by
      split
      · exact .pure rfl
      · exact .throw _
    simp only [Bool.not_true, Bool.false_eq_true, if_false]
    cases g.storedRef with
    | none => exact hreply
    | some ref => exact await_alike rfl fun _ => hreply

/-- The same deposit with another key. -/
def DepositDto.withKey (input : DepositDto) (key : String) (h : key ≠ "") : DepositDto :=
  { input with idempotencyKey := key, idempotencyKey_notEmpty := h }

/-- The same transfer with another key. -/
def InitiateTransferDto.withKey (input : InitiateTransferDto) (key : String) (h : key ≠ "") :
    InitiateTransferDto :=
  { input with idempotencyKey := key, idempotencyKey_notEmpty := h }

theorem deposit_alike {userId : String} {input : DepositDto} {key : String} (h : key ≠ "")
    (hd : ⟨userId, input.idempotencyKey, key⟩ ∈ K.deposits) :
    Promise.Alike K Eq (deposit registry userId input)
      (deposit registry userId (input.withKey key h)) := by
  unfold deposit
  refine .call_bind (.findTransactionByIdempotencyKey hd) fun existing existing' hexisting => ?_
  cases hexisting with
  | some _ => exact .pure rfl
  | none =>
    refine await_alike rfl fun wallet => ?_
    cases wallet with
    | none => exact .throw _
    | some wallet =>
      refine .call_bind (.createTransaction hd) fun t t' ht => ?_
      refine Related.bind (.ofExcept (.refl _)) fun _ _ _ => ?_
      have halike := ht
      obtain ⟨k, hk, rfl⟩ := ht
      exact await_alike rfl fun g => afterGateway_alike halike g

theorem settlePending_alike {t t' : Transaction} (ht : Transaction.Alike K t t') (wallet : Wallet) :
    Promise.Alike K Eq (settlePending t wallet) (settlePending t' wallet) := by
  have halike := ht
  obtain ⟨k, hk, rfl⟩ := ht
  unfold settlePending
  refine Related.bind (Q := Eq) (await_alike rfl fun user => .pure rfl) fun email email' hemail => ?_
  cases hemail
  refine await_alike rfl fun now => ?_
  exact .call_bind (.settleTransaction _ _ _ _ halike) fun _ _ _ =>
    call_alike (.cacheDel _) rfl

theorem settleByProviderRef_alike (ref : String) :
    Promise.Alike K Eq (settleByProviderRef ref) (settleByProviderRef ref) := by
  unfold settleByProviderRef
  refine .call_bind (.findTransactionByProviderRef ref) fun found found' hfound => ?_
  cases hfound with
  | none => exact .pure rfl
  | some ht =>
    have halike := ht
    obtain ⟨k, hk, rfl⟩ := ht
    dsimp only
    split
    · exact .pure rfl
    · refine await_alike rfl fun wallet => ?_
      cases wallet with
      | none => exact .pure rfl
      | some wallet => exact settlePending_alike halike wallet

theorem failByProviderRef_alike (ref reason : String) :
    Promise.Alike K Eq (failByProviderRef ref reason) (failByProviderRef ref reason) := by
  unfold failByProviderRef
  refine .call_bind (.findTransactionByProviderRef ref) fun found found' hfound => ?_
  cases hfound with
  | none => exact .pure rfl
  | some ht =>
    have halike := ht
    obtain ⟨k, hk, rfl⟩ := ht
    dsimp only
    split
    · exact .pure rfl
    · exact .call (Op.failTransaction _ reason) (Op.failTransaction _ reason)
        (Op.Alike.failTransaction reason halike)

theorem handleWebhook_alike (signature : Option String)
    (constructed : Except String StripeWebhookEvent) :
    Promise.Alike K Eq (handleWebhook signature constructed) (handleWebhook signature constructed) := by
  unfold handleWebhook
  by_cases hsignature : (signature.getD "").isEmpty = true
  · simp only [hsignature, if_true]
    cases constructed <;> exact .throw _
  simp only [hsignature, Bool.false_eq_true, if_false]
  cases constructed with
  | error e => exact .throw _
  | ok event =>
    dsimp only
    split
    · split
      · exact settleByProviderRef_alike _
      · exact .pure rfl
    · split
      · exact failByProviderRef_alike _ _
      · exact .pure rfl

theorem moveMoney_alike {fromUserId fromUserEmail : String} {input : InitiateTransferDto}
    {key : String} (h : key ≠ "") (hu : ⟨fromUserId, input.idempotencyKey, key⟩ ∈ K.transfers)
    (fromWallet toWallet : Wallet) :
    Promise.Alike K Eq (moveMoney fromUserId fromUserEmail input fromWallet toWallet)
      (moveMoney fromUserId fromUserEmail (input.withKey key h) fromWallet toWallet) := by
  unfold moveMoney
  refine Related.bind (both_alike (await_alike rfl fun user => .pure rfl)
    (call_alike (.findUserById _) rfl)) fun names names' hnames => ?_
  cases hnames
  refine .call_bind (.createTransfer hu) fun t t' ht => ?_
  refine await_alike rfl fun now => ?_
  have halike := ht
  obtain ⟨k, hk, rfl⟩ := ht
  refine .call_bind (.executeTransfer _ _ _ halike) fun _ _ _ => ?_
  exact Related.bind (both_alike (call_alike (.cacheDel _) rfl) (call_alike (.cacheDel _) rfl))
    fun _ _ _ => .pure rfl

theorem initiateTransfer_alike {fromUserId fromUserEmail : String} {input : InitiateTransferDto}
    {key : String} (h : key ≠ "") (hu : ⟨fromUserId, input.idempotencyKey, key⟩ ∈ K.transfers) :
    Promise.Alike K Eq (initiateTransfer fromUserId fromUserEmail input)
      (initiateTransfer fromUserId fromUserEmail (input.withKey key h)) := by
  unfold initiateTransfer
  refine await_alike rfl fun toWallet => ?_
  cases toWallet with
  | none => exact .throw _
  | some toWallet =>
    show Promise.Alike K Eq (if toWallet.currency ≠ input.currency.value then _ else _)
      (if toWallet.currency ≠ input.currency.value then _ else _)
    split
    · exact .throw _
    show Promise.Alike K Eq (if fromUserId = toWallet.userId then _ else _)
      (if fromUserId = toWallet.userId then _ else _)
    split
    · exact .throw _
    refine .call_bind (.findTransferByIdempotencyKey hu) fun existing existing' hexisting => ?_
    cases hexisting with
    | some _ => exact .pure rfl
    | none =>
      refine await_alike rfl fun fromWallet => ?_
      cases fromWallet with
      | none => exact .throw _
      | some fromWallet => exact moveMoney_alike h hu fromWallet toWallet

/-- Requests that differ in their keys only. -/
inductive Request.Alike (K : KeyUses) : Request → Request → Prop where
  | deposit {userId : String} {input : DepositDto} {key : String} (h : key ≠ "") :
      ⟨userId, input.idempotencyKey, key⟩ ∈ K.deposits →
        Alike K (.deposit userId input) (.deposit userId (input.withKey key h))
  | initiateTransfer {fromUserId : String} (fromUserEmail : String) {input : InitiateTransferDto}
      {key : String} (h : key ≠ "") : ⟨fromUserId, input.idempotencyKey, key⟩ ∈ K.transfers →
        Alike K (.initiateTransfer fromUserId fromUserEmail input)
          (.initiateTransfer fromUserId fromUserEmail (input.withKey key h))
  | other {req : Request} : (∀ userId input, req ≠ .deposit userId input) →
      (∀ fromUserId fromUserEmail input, req ≠ .initiateTransfer fromUserId fromUserEmail input) →
        Alike K req req

theorem reply_alike {α : Type} {p p' : Promise α} {f : α → Reply} (h : Promise.Alike K Eq p p') :
    Promise.Alike K Eq (do return f (← p)) (do return f (← p')) := by
  refine h.bind fun a a' ha => ?_
  cases ha
  exact .pure rfl

theorem serve_alike {req req' : Request} (h : Request.Alike K req req') :
    Promise.Alike K Eq (serve registry req) (serve registry req') := by
  cases h with
  | deposit h hd => exact reply_alike (deposit_alike h hd)
  | initiateTransfer fromUserEmail h hu => exact reply_alike (initiateTransfer_alike h hu)
  | other hdeposit htransfer =>
    cases req with
    | createWallet userId userName input => exact reply_alike (createWallet_alike _ _ _)
    | ensureWallet userId currency userName => exact reply_alike (ensureWallet_alike _ _ _)
    | handleUserRegistered payload => exact reply_alike (ensureWallet_alike _ _ _)
    | getBalance userId currency => exact reply_alike (getBalance_alike _ _)
    | deposit userId input => exact absurd rfl (hdeposit userId input)
    | settleByProviderRef providerRef => exact reply_alike (settleByProviderRef_alike _)
    | failByProviderRef providerRef reason => exact reply_alike (failByProviderRef_alike _ _)
    | handleWebhook signature constructed => exact reply_alike (handleWebhook_alike _ _)
    | initiateTransfer fromUserId fromUserEmail input => exact absurd rfl (htransfer _ _ input)
    | createUser input => exact reply_alike (call_alike (.createUser _) rfl)
    | deleteUser requestingUserId targetUserId role => exact reply_alike (deleteUser_alike _ _ _)

end Services

/-- The money server simulates itself under other keys. -/
def rekeying (registry : PaymentGatewayRegistry) {K : KeyUses} (hK : K.KeepsClashes) :
    Simulation (server registry) (server registry) where
  requests := Request.Alike K
  ops := Op.Alike K
  worlds := World.Alike K
  replies := Eq
  serve := serve_alike
  perform i _ ho h := h.performed hK ho i

/-! ## Two runs -/

/-- The same request, except that a user other than `A` may have chosen another key. -/
inductive Request.Rekeyed (A : String) : Request → Request → Prop where
  | same (req : Request) : Rekeyed A req req
  | deposit {userId : String} (input : DepositDto) {key : String} (h : key ≠ "") : userId ≠ A →
      Rekeyed A (.deposit userId input) (.deposit userId (input.withKey key h))
  | initiateTransfer {fromUserId : String} (fromUserEmail : String) (input : InitiateTransferDto)
      {key : String} (h : key ≠ "") : fromUserId ≠ A →
        Rekeyed A (.initiateTransfer fromUserId fromUserEmail input)
          (.initiateTransfer fromUserId fromUserEmail (input.withKey key h))

/-- The user who makes the deposit or the transfer. -/
def Request.caller? : Request → Option String
  | .deposit userId _ => some userId
  | .initiateTransfer fromUserId _ _ => some fromUserId
  | _ => none

def depositUse? : Label Request Choice × Label Request Choice → Option KeyUse
  | (.start (.deposit userId input), .start (.deposit _ input')) =>
      some ⟨userId, input.idempotencyKey, input'.idempotencyKey⟩
  | _ => none

def transferUse? : Label Request Choice × Label Request Choice → Option KeyUse
  | (.start (.initiateTransfer fromUserId _ input), .start (.initiateTransfer _ _ input')) =>
      some ⟨fromUserId, input.idempotencyKey, input'.idempotencyKey⟩
  | _ => none

/-- The keys of all calls of the two runs. -/
def keyUses (ls ls' : List (Label Request Choice)) : KeyUses where
  deposits := (ls.zip ls').filterMap depositUse?
  transfers := (ls.zip ls').filterMap transferUse?

/-- The keys of each user other than `A` are equal in the one run if and only if they are in the
    other. -/
def KeyUses.KeepsOwn (K : KeyUses) (A : String) : Prop :=
  ∀ x ∈ K.deposits ++ K.transfers, ∀ y ∈ K.deposits ++ K.transfers,
    x.user = y.user → x.user ≠ A → (x.key = y.key ↔ x.key' = y.key')

instance (K : KeyUses) (A : String) : Decidable (K.KeepsOwn A) :=
  inferInstanceAs (Decidable (∀ x ∈ K.deposits ++ K.transfers, ∀ y ∈ K.deposits ++ K.transfers,
    x.user = y.user → x.user ≠ A → (x.key = y.key ↔ x.key' = y.key')))

/-- What `A` can see is the same in both states: how the own calls have ended, and the own transactions,
    transfers and wallets. -/
structure SameFor (A : String) (s s' : State) : Prop where
  outcome : ∀ i c, s.calls[i]? = some c → c.request.caller? = some A → s'.outcome i = s.outcome i
  transactions : s'.world.db.transactions.rows.filter (·.userId == A) =
    s.world.db.transactions.rows.filter (·.userId == A)
  transfers : s'.world.db.transfers.rows.filter (·.fromUserId == A) =
    s.world.db.transfers.rows.filter (·.fromUserId == A)
  wallets : s'.world.db.wallets.rows.filter (·.userId == A) =
    s.world.db.wallets.rows.filter (·.userId == A)

variable {registry : PaymentGatewayRegistry} {A : String} {ls ls' : List (Label Request Choice)}

theorem alike_of_rekeyed (h : List.Forall₂ (Label.Alike (Request.Rekeyed A)) ls ls') :
    List.Forall₂ (Label.Alike (Request.Alike (keyUses ls ls'))) ls ls' := by
  obtain ⟨hlen, hzip⟩ := List.forall₂_iff_zip.mp h
  refine List.forall₂_iff_zip.mpr ⟨hlen, fun {l l'} hmem => ?_⟩
  have hd : ∀ d, depositUse? (l, l') = some d → d ∈ (keyUses ls ls').deposits :=
    fun d hd => List.mem_filterMap.mpr ⟨_, hmem, hd⟩
  have hu : ∀ u, transferUse? (l, l') = some u → u ∈ (keyUses ls ls').transfers :=
    fun u hu => List.mem_filterMap.mpr ⟨_, hmem, hu⟩
  cases hzip hmem with
  | step i ω => exact .step i ω
  | @start req req' hreq =>
    refine .start ?_
    cases hreq with
    | deposit input h _ => exact .deposit h (hd _ rfl)
    | initiateTransfer fromUserEmail input h _ => exact .initiateTransfer fromUserEmail h (hu _ rfl)
    | same =>
      cases req with
      | deposit userId input => exact .deposit input.idempotencyKey_notEmpty (hd _ rfl)
      | initiateTransfer fromUserId fromUserEmail input =>
        exact .initiateTransfer fromUserEmail input.idempotencyKey_notEmpty (hu _ rfl)
      | _ => exact .other (fun _ _ h => nomatch h) (fun _ _ _ h => nomatch h)

/-- The calls of `A` have their own keys in both runs. -/
theorem key_eq_of_rekeyed (h : List.Forall₂ (Label.Alike (Request.Rekeyed A)) ls ls') {u : KeyUse}
    (hu : u ∈ (keyUses ls ls').deposits ∨ u ∈ (keyUses ls ls').transfers) (hA : u.user = A) :
    u.key' = u.key := by
  obtain ⟨l, l', hmem, huse⟩ : ∃ l l', (l, l') ∈ ls.zip ls' ∧
      (depositUse? (l, l') = some u ∨ transferUse? (l, l') = some u) := by
    rcases hu with hu | hu <;> obtain ⟨⟨l, l'⟩, hmem, huse⟩ := List.mem_filterMap.mp hu
    · exact ⟨l, l', hmem, .inl huse⟩
    · exact ⟨l, l', hmem, .inr huse⟩
  cases (List.forall₂_iff_zip.mp h).2 hmem with
  | step i ω => rcases huse with huse | huse <;> cases huse
  | @start req req' hreq =>
    cases hreq with
    | deposit input h hne => rcases huse with huse | huse <;> cases huse; exact absurd hA hne
    | initiateTransfer fromUserEmail input h hne =>
      rcases huse with huse | huse <;> cases huse
      exact absurd hA hne
    | same =>
      -- the request is the same, and so is its key
      cases req with
      | deposit userId input => rcases huse with huse | huse <;> cases huse; rfl
      | initiateTransfer fromUserId fromUserEmail input =>
        rcases huse with huse | huse <;> cases huse
        rfl
      | _ => rcases huse with huse | huse <;> cases huse

theorem filter_eq_of_alike {ρ : Type} {R : ρ → ρ → Prop} {l l' : List ρ} {p : ρ → Bool}
    (h : List.Forall₂ R l l') (hp : ∀ a a', R a a' → p a' = p a)
    (heq : ∀ a a', R a a' → p a = true → a' = a) : l'.filter p = l.filter p := by
  induction h with
  | nil => rfl
  | @cons a a' l l' ha _ ih =>
    rw [List.filter_cons, List.filter_cons, hp a a' ha, ih]
    split
    · rw [heq a a' ha ‹_›]
    · rfl

theorem World.Alike.initial {w : World} (hw : w.Initial) : World.Alike K w w := by
  have hdb : Store.Alike K w.db w.db :=
    .intro (by rw [hw.transactions]; exact .nil) (by rw [hw.transfers]; exact .nil)
      (by rw [hw.ledger]; exact .nil)
  exact .intro hdb

theorem inStep_drive (hK : (keyUses ls ls').KeepsClashes) {w : World} (hw : w.Initial)
    (h : List.Forall₂ (Label.Alike (Request.Rekeyed A)) ls ls') :
    (rekeying registry hK).InStep ((server registry).drive ls ⟨w, []⟩)
      ((server registry).drive ls' ⟨w, []⟩) :=
  Simulation.InStep.drive ⟨World.Alike.initial hw, .nil⟩ (alike_of_rekeyed h)

/-- Users do not interfere through keys that do not clash.  Let the keys of the calls of users other than
    `A` be replaced in a run, in such a way that deposit keys are equal, transfer keys are equal, and a
    deposit key is a transfer key with `:out` or `:in` appended, exactly where they were.  Then the calls
    of `A` have the same outcomes, and `A` has the same transactions, transfers and balances. -/
theorem keys_do_not_interfere {w : World} (hw : w.Initial)
    (h : List.Forall₂ (Label.Alike (Request.Rekeyed A)) ls ls')
    (hK : (keyUses ls ls').KeepsClashes) :
    SameFor A ((server registry).drive ls ⟨w, []⟩) ((server registry).drive ls' ⟨w, []⟩) := by
  have hstep : (rekeying registry hK).InStep ((server registry).drive ls ⟨w, []⟩)
      ((server registry).drive ls' ⟨w, []⟩) := inStep_drive hK hw h
  generalize (server registry).drive ls ⟨w, []⟩ = s at hstep ⊢
  generalize (server registry).drive ls' ⟨w, []⟩ = s' at hstep ⊢
  constructor
  · intro i c _ _
    have hout := hstep.outcome i
    generalize s.outcome i = x at hout ⊢
    generalize s'.outcome i = x' at hout ⊢
    cases hout with
    | some hout => rw [hout.eq]
    | none => rfl
  all_goals
    have hdb := hstep.world.db
    generalize s'.world.db = db' at hdb ⊢
  · cases hdb with
    | intro transactions _ _ =>
      refine filter_eq_of_alike transactions ?_ ?_
      · rintro t _ ⟨k, -, rfl⟩
        rfl
      · rintro t _ ⟨k, hk, rfl⟩ ht
        have hkey : k = t.idempotencyKey := key_eq_of_rekeyed h (.inl hk) (beq_iff_eq.mp ht)
        rw [hkey]
  · cases hdb with
    | intro _ transfers _ =>
      refine filter_eq_of_alike transfers ?_ ?_
      · rintro t _ ⟨k, -, rfl⟩
        rfl
      · rintro t _ ⟨k, hk, rfl⟩ ht
        have hkey : k = t.idempotencyKey := key_eq_of_rekeyed h (.inr hk) (beq_iff_eq.mp ht)
        rw [hkey]
  · cases hdb
    rfl

theorem rekeyed_refl (ls : List (Label Request Choice)) :
    List.Forall₂ (Label.Alike (Request.Rekeyed A)) ls ls := by
  refine List.forall₂_same.mpr fun l _ => ?_
  cases l with
  | start req => exact .start (.same req)
  | step i ω => exact .step i ω

/-- The everyday run, in which Ada has chosen other keys. -/
def everydayRekeyed : List (Label Request Choice) :=
  openWallet 0 "u1" "Ada" "w1" ++ openWallet 1 "u2" "Bob" "w2" ++
    payIn 2 "u1" (topup.withKey "salary" (by decide)) "t1" "cs1" ++ settle 3 "cs1" "e1" ++
    send 4 "u1" "ada@example.com" (toBob.withKey "flat" (by decide)) "x1" "e2"

theorem keys_do_not_interfere_everyday :
    SameFor "u2" ((server cardPayments).drive everyday ⟨World.fresh adaAndBob, []⟩)
      ((server cardPayments).drive everydayRekeyed ⟨World.fresh adaAndBob, []⟩) := by
  refine keys_do_not_interfere (World.fresh_initial _) ?_ ?_
  · refine List.rel_append (List.rel_append (List.rel_append (rekeyed_refl _) ?_) (rekeyed_refl _)) ?_
    · exact .cons (.start (.deposit _ (by decide) (by decide))) (rekeyed_refl _)
    · exact .cons (.start (.initiateTransfer _ _ (by decide) (by decide))) (rekeyed_refl _)
  · have huses : keyUses everyday everydayRekeyed =
        ⟨[⟨"u1", "topup", "salary"⟩], [⟨"u1", "rent", "flat"⟩]⟩ := rfl
    rw [huses]
    exact ⟨by decide, by decide, by decide, by decide⟩

/-- Bob pays in with this key, and then Ada with the key `topup`. -/
def bobBeforeAda (key : String) (h : key ≠ "") : List (Label Request Choice) :=
  openWallet 0 "u1" "Ada" "w1" ++ openWallet 1 "u2" "Bob" "w2" ++
    payIn 2 "u2" (topup.withKey key h) "t2" "cs2" ++
    payIn 3 "u1" topup "t1" "cs1"

/-- Bob has only to choose the key `topup` before Ada does: her deposit reports success without a
    checkout, and there is no transaction of hers. -/
theorem keys_interfere :
    List.Forall₂ (Label.Alike (Request.Rekeyed "u1")) (bobBeforeAda "holiday" (by decide))
      (bobBeforeAda "topup" (by decide)) ∧
    (keyUses (bobBeforeAda "holiday" (by decide)) (bobBeforeAda "topup" (by decide))).KeepsOwn "u1" ∧
    ((server cardPayments).drive (bobBeforeAda "holiday" (by decide))
      ⟨World.fresh adaAndBob, []⟩).outcome 3 =
        some (.ok (.deposit { checkoutUrl := some "cs1" })) ∧
    ((server cardPayments).drive (bobBeforeAda "topup" (by decide))
      ⟨World.fresh adaAndBob, []⟩).outcome 3 = some (.ok (.deposit {})) ∧
    ¬ SameFor "u1"
      ((server cardPayments).drive (bobBeforeAda "holiday" (by decide)) ⟨World.fresh adaAndBob, []⟩)
      ((server cardPayments).drive (bobBeforeAda "topup" (by decide))
        ⟨World.fresh adaAndBob, []⟩) := by
  refine ⟨?_, by decide, rfl, rfl, fun h => ?_⟩
  · refine List.rel_append (List.rel_append (rekeyed_refl _) ?_) (rekeyed_refl _)
    exact .cons (.start (.deposit (topup.withKey "holiday" _) (by decide) (by decide))) (rekeyed_refl _)
  · have hrows : ((server cardPayments).drive (bobBeforeAda "holiday" (by decide))
        ⟨World.fresh adaAndBob, []⟩).world.db.transactions.rows.filter (·.userId == "u1") =
        [⟨"t1", "u1", .deposit, 50, "EUR", "stripe", .pending, "topup", some "cs1", none⟩] := by
      decide
    have hrows' : ((server cardPayments).drive (bobBeforeAda "topup" (by decide))
        ⟨World.fresh adaAndBob, []⟩).world.db.transactions.rows.filter (·.userId == "u1") = [] := by
      decide
    have htransactions := h.transactions
    rw [hrows, hrows'] at htransactions
    cases htransactions

end LiorParisWallet
