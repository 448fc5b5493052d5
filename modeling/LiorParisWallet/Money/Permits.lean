import LiorParisWallet.Async.Knowledge
import LiorParisWallet.Money.Services

/-!
# What a service knows when it writes

`Permits req answers o` is what a call with the request `req` has been answered when it awaits `o`.  Wallets
are opened for the requester, deposits and transfers are the requester's and carry the data of the body, a
transfer goes to the wallet that was found under the tag, and only the webhook settles.
-/

namespace LiorParisWallet

open Async Relational

/-- What an operation can answer, in whatever world. -/
def Truthful : Answer Ans Err → Prop
  | ⟨.findByUserIdAndCurrency userId currency, .ok (some a)⟩ => a.userId = userId ∧ a.currency = currency
  | ⟨.findByWalletTag walletTag, .ok (some a)⟩ => a.walletTag = walletTag
  | ⟨.findTransactionByProviderRef providerRef, .ok (some t)⟩ => t.providerRef = some providerRef
  | ⟨.findUserById userId, .ok (some u)⟩ => u.id = userId
  | ⟨.createTransaction data, .ok t⟩ => ∃ id, t = data.create id
  | ⟨.createTransfer data, .ok t⟩ => ∃ id, t = data.create id
  | ⟨.saveWallet data, .ok a⟩ => a.userId = data.userId
  | _ => True

theorem truthful_of_perform {i : ℕ} {o : Op} {ω : Choice} {w w' : World} {r : Except Err (Ans o)}
    (h : perform i o ω w = some (r, w')) : Truthful ⟨o, r⟩ := by
  cases r with
  | error e => cases o <;> trivial
  | ok a =>
    cases o with
    | findByUserIdAndCurrency userId currency =>
      obtain ⟨-, rfl⟩ := read_ok h
      cases hfound : w.db.findByUserIdAndCurrency userId currency with
      | none => trivial
      | some a =>
        have hp := (Table.mem_of_find? hfound).2
        simpa [Truthful] using hp
    | findByWalletTag walletTag =>
      obtain ⟨-, rfl⟩ := read_ok h
      cases hfound : w.db.findByWalletTag walletTag with
      | none => trivial
      | some a => exact beq_iff_eq.mp (Table.mem_of_find? hfound).2
    | findTransactionByProviderRef providerRef =>
      obtain ⟨-, rfl⟩ := read_ok h
      cases hfound : w.db.findTransactionByProviderRef providerRef with
      | none => trivial
      | some t => exact (findTransactionByProviderRef_eq_some hfound).2
    | findUserById userId =>
      obtain ⟨-, rfl⟩ := read_ok h
      cases hfound : w.db.findUserById userId with
      | none => trivial
      | some u => exact beq_iff_eq.mp (Table.mem_of_find? hfound).2
    | createTransaction data => exact ⟨ω.uuid, (createTransaction_ok h).1⟩
    | createTransfer data => exact ⟨ω.uuid, (createTransfer_ok h).1⟩
    | saveWallet data =>
      rcases insert_eq_some h with ⟨-, hr⟩ | ⟨b, db, hr, hb, -, rfl⟩
      · exact absurd rfl (hr a)
      · cases hb
        exact congrArg Wallet.userId (saveWallet_eq_ok hr).1
    | _ => trivial

/-- The user for whom the request is made, if it is made for one. -/
def Request.userId? : Request → Option String
  | .createWallet userId _ _ | .getBalance userId _ | .deposit userId _ | .initiateTransfer userId _ _ =>
      some userId
  | .handleUserRegistered payload => some payload.userId
  | _ => none

/-- The wallet that the request asks for, by its owner and its currency. -/
def Request.opens? : Request → Option (String × String)
  | .createWallet userId _ input => some (userId, input.currency.value)
  | .handleUserRegistered payload => some (payload.userId, defaultCurrency.value)
  | _ => none

/-- The row that `deposit` stores. -/
def DepositDto.data (input : DepositDto) (userId : String) : TransactionData where
  userId := userId
  type := .deposit
  amount := input.amount
  currency := input.currency.value
  paymentMethod := input.paymentMethod
  idempotencyKey := input.idempotencyKey

/-- The row that `initiateTransfer` stores. -/
def InitiateTransferDto.data (input : InitiateTransferDto) (fromUserId toUserId : String) : TransferData where
  fromUserId := fromUserId
  toUserId := toUserId
  amount := input.amount
  currency := input.currency.value
  idempotencyKey := input.idempotencyKey

/-- The transfer of this request was checked: the recipient's wallet was found under the tag, it has the
    currency of the transfer and another owner. -/
structure Checked (fromUserId : String) (input : InitiateTransferDto) (toWallet : Wallet)
    (answers : List (Answer Ans Err)) : Prop where
  found : ⟨.findByWalletTag input.toWalletTag, .ok (some toWallet)⟩ ∈ answers
  tag : toWallet.walletTag = input.toWalletTag
  currency : toWallet.currency = input.currency.value
  owner : fromUserId ≠ toWallet.userId

theorem Checked.mono {fromUserId : String} {input : InitiateTransferDto} {toWallet : Wallet}
    {answers answers' : List (Answer Ans Err)} (h : Checked fromUserId input toWallet answers)
    (hsub : answers ⊆ answers') : Checked fromUserId input toWallet answers' :=
  { h with found := hsub h.found }

/-- A webhook call has a signature. -/
def Request.Signed : Request → Prop
  | .handleWebhook signature _ => signature.getD "" ≠ ""
  | _ => True

def Permits (req : Request) (answers : List (Answer Ans Err)) : Op → Prop
  | .saveWallet data => data.balance = 0 ∧ req.opens? = some (data.userId, data.currency)
  | .findByUserIdAndCurrency userId _ => req.userId? = some userId ∨
      ∃ ref t, req.settlesRef? = some ref ∧ t.providerRef = some ref ∧ userId = t.userId ∧
        ⟨.findTransactionByProviderRef ref, .ok (some t)⟩ ∈ answers
  | .createTransaction data => ∃ userId input, req = .deposit userId input ∧ data = input.data userId
  | .processDeposit amount currency paymentMethod transactionId userId => ∃ input t,
      req = .deposit userId input ∧ ⟨.createTransaction (input.data userId), .ok t⟩ ∈ answers ∧
        transactionId = t.id ∧ amount = input.amount ∧ currency = input.currency.value ∧
        paymentMethod = input.paymentMethod
  | .updateTransactionProviderRef transactionId providerRef => ∃ userId input t g,
      req = .deposit userId input ∧ ⟨.createTransaction (input.data userId), .ok t⟩ ∈ answers ∧
        transactionId = t.id ∧ g.success = true ∧ g.providerRef = some providerRef ∧
          ⟨.processDeposit input.amount input.currency.value input.paymentMethod t.id userId, .ok g⟩ ∈ answers
  | .failTransaction t _ =>
      (∃ userId input id, req = .deposit userId input ∧ t = (input.data userId).create id ∧
        ⟨.createTransaction (input.data userId), .ok t⟩ ∈ answers) ∨
      req.Signed ∧ ∃ ref, req.failsRef? = some ref ∧ t.providerRef = some ref ∧ t.status = .pending ∧
        ⟨.findTransactionByProviderRef ref, .ok (some t)⟩ ∈ answers
  | .settleTransaction walletId t type change _ => type = .deposit ∧ change = t.amount ∧ req.Signed ∧
      ∃ ref, req.settlesRef? = some ref ∧ t.providerRef = some ref ∧ t.status = .pending ∧
        ⟨.findTransactionByProviderRef ref, .ok (some t)⟩ ∈ answers ∧ ∃ wallet, ⟨.findByUserIdAndCurrency t.userId t.currency, .ok (some wallet)⟩ ∈ answers ∧
          walletId = wallet.id
  | .createTransfer data => ∃ fromUserId fromUserEmail input toWallet,
      req = .initiateTransfer fromUserId fromUserEmail input ∧ Checked fromUserId input toWallet answers ∧
        data = input.data fromUserId toWallet.userId
  | .executeTransfer t fromWalletId toWalletId _ => ∃ fromUserId fromUserEmail input,
      ∃ (fromWallet toWallet : Wallet) (id : String),
      req = .initiateTransfer fromUserId fromUserEmail input ∧ Checked fromUserId input toWallet answers ∧
        ⟨.findByUserIdAndCurrency fromUserId input.currency.value, .ok (some fromWallet)⟩ ∈ answers ∧
        fromWallet.userId = fromUserId ∧ fromWallet.currency = input.currency.value ∧
        fromWalletId = fromWallet.id ∧ toWalletId = toWallet.id ∧
        t = (input.data fromUserId toWallet.userId).create id
  | .cacheGet key => ∃ userId currency,
      req = .getBalance userId currency ∧ key = balanceCacheKey userId currency
  | .cacheSet key wallet => ∃ userId currency,
      req = .getBalance userId currency ∧ key = balanceCacheKey userId currency ∧ wallet.userId = userId ∧
        ⟨.findByUserIdAndCurrency userId currency, .ok (some wallet)⟩ ∈ answers
  | .createUser _ | .deleteUser _ => False
  | _ => True

/-- The wallet was found for the user, or opened for the user. -/
def Given (userId : String) (wallet : Wallet) (answers : List (Answer Ans Err)) : Prop :=
  wallet.userId = userId ∧
    ((∃ currency, ⟨.findByUserIdAndCurrency userId currency, .ok (some wallet)⟩ ∈ answers) ∨
      ∃ data, ⟨.saveWallet data, .ok wallet⟩ ∈ answers)

/-- The provider has answered this call with the URL. -/
def CheckoutOf (userId checkoutUrl : String) (answers : List (Answer Ans Err)) : Prop :=
  ∃ amount currency paymentMethod transactionId g, g.checkoutUrl = some checkoutUrl ∧
    ⟨.processDeposit amount currency paymentMethod transactionId userId, .ok g⟩ ∈ answers

section Services

variable {req : Request} {answers : List (Answer Ans Err)}

/-- The rest of a function after an operation that nothing is asked of. -/
theorem informed_free {α : Type} {o : Op} {f : Ans o → Promise α} {Q : α → List (Answer Ans Err) → Prop}
    (ho : ∀ answers, Permits req answers o)
    (hf : ∀ a, Truthful ⟨o, .ok a⟩ →
      (f a).Informed Truthful (Permits req) Q (⟨o, .ok a⟩ :: answers)) :
    (await o >>= f).Informed Truthful (Permits req) Q answers :=
  Program.informed_await (ho answers) hf

theorem informed_last {o : Op} (ho : Permits req answers o) :
    (await o).Informed Truthful (Permits req) (fun _ _ => True) answers :=
  Program.informed_call ho fun _ _ => trivial

theorem ensureWallet_informed {userId currency userName : String} (huser : req.userId? = some userId)
    (hopens : req.opens? = some (userId, currency)) :
    (ensureWallet userId currency userName).Informed Truthful (Permits req)
      (Given userId) answers := by
  refine informed_free (fun _ => .inl huser) fun existing hexisting => ?_
  cases existing with
  | some wallet => exact ⟨hexisting.1, .inl ⟨currency, List.mem_cons_self⟩⟩
  | none =>
    refine informed_free (fun _ => trivial) fun _ _ => ?_
    exact Program.informed_call ⟨rfl, hopens⟩ fun wallet hwallet => ⟨hwallet, .inr ⟨_, List.mem_cons_self⟩⟩

theorem createWallet_informed (userId userName : String) (input : CreateWalletDto) :
    (createWallet userId userName input).Informed Truthful (Permits (.createWallet userId userName input))
      (Given userId) answers := by
  refine informed_free (fun _ => .inl rfl) fun existing _ => ?_
  dsimp only
  split
  · trivial
  · exact ensureWallet_informed rfl rfl

theorem getBalance_informed (userId currency : String) :
    (getBalance userId currency).Informed Truthful (Permits (.getBalance userId currency))
      (fun wallet answers => Given userId wallet answers ∨
        ⟨.cacheGet (balanceCacheKey userId currency), .ok (some wallet)⟩ ∈ answers) answers := by
  refine informed_free (fun _ => ⟨userId, currency, rfl, rfl⟩) fun cached _ => ?_
  cases cached with
  | some wallet => exact .inr List.mem_cons_self
  | none =>
    refine informed_free (fun _ => .inl rfl) fun wallet hwallet => ?_
    cases wallet with
    | none => trivial
    | some wallet =>
      refine Program.informed_await ⟨userId, currency, rfl, rfl, hwallet.1, List.mem_cons_self⟩ fun _ _ => ?_
      exact .inl ⟨hwallet.1, .inl ⟨currency, .tail _ (.head _)⟩⟩

theorem afterGateway_informed {userId : String} {input : DepositDto} {t : Transaction}
    {g : PaymentGatewayResult} (hdata : ∃ id, t = (input.data userId).create id)
    (ht : ⟨.createTransaction (input.data userId), .ok t⟩ ∈ answers)
    (hg : ⟨.processDeposit input.amount input.currency.value input.paymentMethod t.id userId, .ok g⟩ ∈
      answers) :
    (afterGateway t g).Informed Truthful (Permits (.deposit userId input))
      (fun result answers => ∀ url, result.checkoutUrl = some url → CheckoutOf userId url answers) answers := by
  have hend : ∀ answers', answers ⊆ answers' → (if g.requiresWebhook then pure { checkoutUrl := g.checkoutUrl }
      else throw (.badRequest "No settlement path available for gateway") :
        Promise DepositResult).Informed Truthful (Permits (.deposit userId input))
          (fun result answers => ∀ url, result.checkoutUrl = some url → CheckoutOf userId url answers)
            answers' := by
    intro answers' hsub
    split
    · exact fun url hurl => ⟨_, _, _, _, g, hurl, hsub hg⟩
    · trivial
  unfold afterGateway
  cases hsuccess : g.success with
  | false =>
    obtain ⟨id, hdata⟩ := hdata
    exact Program.informed_await (.inl ⟨userId, input, id, rfl, hdata, ht⟩) fun _ _ => trivial
  | true =>
    simp only [Bool.not_true, Bool.false_eq_true, if_false]
    cases href : g.storedRef with
    | none => exact hend answers (List.Subset.refl _)
    | some providerRef =>
      refine Program.informed_await ?_ fun _ _ => hend _ (List.subset_cons_self _ _)
      exact ⟨userId, input, t, g, rfl, ht, rfl, hsuccess, (storedRef_eq_some href).1, hg⟩

theorem deposit_informed (registry : PaymentGatewayRegistry) (userId : String) (input : DepositDto) :
    (deposit registry userId input).Informed Truthful (Permits (.deposit userId input))
      (fun result answers => ∀ url, result.checkoutUrl = some url → CheckoutOf userId url answers) answers := by
  refine informed_free (fun _ => trivial) fun existing _ => ?_
  cases existing with
  | some t => exact fun _ => nofun
  | none =>
    refine informed_free (fun _ => .inl rfl) fun wallet _ => ?_
    cases wallet with
    | none => trivial
    | some wallet =>
      refine informed_free (fun _ => ⟨userId, input, rfl, rfl⟩) fun t ht => ?_
      refine Program.informed_check fun _ _ => ?_
      refine Program.informed_await ?_ fun g _ => ?_
      · exact ⟨input, t, rfl, List.mem_cons_self, rfl, rfl, rfl, rfl⟩
      · exact afterGateway_informed ht (List.mem_cons_of_mem _ List.mem_cons_self) List.mem_cons_self

theorem settleByProviderRef_informed {ref : String} (hsigned : req.Signed)
    (hreq : req.settlesRef? = some ref) :
    (settleByProviderRef ref).Informed Truthful (Permits req) (fun _ _ => True) answers := by
  refine informed_free (fun _ => trivial) fun found hfound => ?_
  cases found with
  | none => trivial
  | some t =>
    dsimp only
    split
    · trivial
    rename_i hpending
    refine Program.informed_await (.inr ⟨ref, t, hreq, hfound, rfl, List.mem_cons_self⟩) fun wallet _ => ?_
    cases wallet with
    | none => trivial
    | some wallet =>
      -- the email is read in between
      refine Program.Informed.bind (Program.Informed.remembers (Q := fun _ _ => True)
        (informed_free (fun _ => trivial) fun _ _ => trivial)) fun userEmail answers₁ h₁ => ?_
      refine informed_free (fun _ => trivial) fun now _ => ?_
      refine Program.informed_await ?_ fun _ _ => informed_last trivial
      exact ⟨rfl, rfl, hsigned, ref, hreq, hfound, not_ne_iff.mp hpending,
        List.mem_cons_of_mem _ (h₁.1 (List.mem_cons_of_mem _ List.mem_cons_self)), wallet,
        List.mem_cons_of_mem _ (h₁.1 List.mem_cons_self), rfl⟩

theorem failByProviderRef_informed {ref reason : String} (hsigned : req.Signed)
    (hreq : req.failsRef? = some ref) :
    (failByProviderRef ref reason).Informed Truthful (Permits req) (fun _ _ => True) answers := by
  refine informed_free (fun _ => trivial) fun found hfound => ?_
  cases found with
  | none => trivial
  | some t =>
    dsimp only
    split
    · trivial
    · rename_i hpending
      exact informed_last (.inr ⟨hsigned, ref, hreq, hfound, not_ne_iff.mp hpending, List.mem_cons_self⟩)

theorem handleWebhook_informed (signature : Option String) (constructed : Except String StripeWebhookEvent) :
    (handleWebhook signature constructed).Informed Truthful (Permits (.handleWebhook signature constructed))
      (fun _ _ => True) answers := by
  unfold handleWebhook
  by_cases hsignature : (signature.getD "").isEmpty = true
  · simp only [hsignature, if_true]
    trivial
  have hsigned : (Request.handleWebhook signature constructed).Signed :=
    fun h => hsignature (by rw [h]; rfl)
  simp only [hsignature, Bool.false_eq_true, if_false]
  cases constructed with
  | error e => trivial
  | ok event =>
    by_cases htype : event.type = "checkout.session.completed"
    · by_cases hpaid : event.paymentStatus = some "paid"
      · simp only [htype, hpaid, if_true]
        exact settleByProviderRef_informed hsigned (if_pos ⟨htype, hpaid⟩)
      · simp only [htype, hpaid, if_true, if_false]
        trivial
    · simp only [htype, if_false]
      split
      · rename_i hexpired
        exact failByProviderRef_informed hsigned (if_pos hexpired)
      · trivial

theorem names_informed (fromUserId toUserId : String) :
    (Program.both (getUserName fromUserId) (await (.findUserById toUserId))).Informed Truthful
      (Permits req) (fun _ _ => True) answers :=
  Program.Informed.both (Q := fun _ _ => True) (informed_free (fun _ => trivial) fun _ _ => trivial)
    fun _ => informed_last (o := .findUserById toUserId) trivial

theorem invalidated_informed (fromUserId toUserId currency : String) :
    (Program.both (invalidateBalanceCache fromUserId currency)
      (invalidateBalanceCache toUserId currency)).Informed Truthful (Permits req) (fun _ _ => True)
        answers :=
  Program.Informed.both (informed_last (o := .cacheDel _) trivial)
    fun _ => informed_last (o := .cacheDel _) trivial

theorem initiateTransfer_informed (fromUserId fromUserEmail : String) (input : InitiateTransferDto) :
    (initiateTransfer fromUserId fromUserEmail input).Informed Truthful
      (Permits (.initiateTransfer fromUserId fromUserEmail input)) (fun _ _ => True) answers := by
  refine informed_free (fun _ => trivial) fun toWallet htag => ?_
  cases toWallet with
  | none => trivial
  | some toWallet =>
    dsimp only
    split
    · trivial
    rename_i hcurrency
    split
    · trivial
    rename_i hne
    refine informed_free (fun _ => trivial) fun existing _ => ?_
    cases existing with
    | some t => trivial
    | none =>
      refine informed_free (fun _ => .inl rfl) fun fromWallet hfrom => ?_
      cases fromWallet with
      | none => trivial
      | some fromWallet =>
        have hchecked : Checked fromUserId input toWallet
            (⟨.findByUserIdAndCurrency fromUserId input.currency.value, .ok (some fromWallet)⟩ ::
              ⟨.findTransferByIdempotencyKey input.idempotencyKey, .ok none⟩ ::
              ⟨.findByWalletTag input.toWalletTag, .ok (some toWallet)⟩ :: answers) :=
          ⟨.tail _ (.tail _ (.head _)), htag, not_ne_iff.mp hcurrency, hne⟩
        -- the names are read in between
        refine Program.Informed.bind (names_informed fromUserId toWallet.userId).remembers
          fun names answers₁ h₁ => ?_
        have hchecked₁ := hchecked.mono h₁.1
        have hsender := h₁.1 List.mem_cons_self
        refine Program.informed_await ⟨fromUserId, fromUserEmail, input, toWallet, rfl, hchecked₁, rfl⟩
          fun t ht => ?_
        refine informed_free (fun _ => trivial) fun now _ => ?_
        refine Program.informed_await ?_ fun _ _ => ?_
        · obtain ⟨id, ht⟩ := ht
          exact ⟨fromUserId, fromUserEmail, input, fromWallet, toWallet, id, rfl,
            hchecked₁.mono fun _ hx => List.mem_cons_of_mem _ (List.mem_cons_of_mem _ hx),
            List.mem_cons_of_mem _ (List.mem_cons_of_mem _ hsender), hfrom.1, hfrom.2, rfl, rfl, ht⟩
        · exact (invalidated_informed fromUserId toWallet.userId _).bind fun _ _ _ => trivial

end Services

end LiorParisWallet
