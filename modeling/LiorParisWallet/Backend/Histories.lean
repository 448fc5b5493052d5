import LiorParisWallet.Backend.Access
import LiorParisWallet.Backend.Accounts
import LiorParisWallet.Backend.Runs

/-!
# The history of the bank

Whatever the interleaving of requests, the wallets are what a history of the actions of a bank leads to, and
every action of it was asked for: wallets are opened for those who registered or asked for them, money is
credited that the provider has taken for a deposit of the owner and reported as paid, money is moved on the
request of its owner, and wallets are closed on the request of an administrator.
-/

namespace LiorParisWallet.Backend

open Async Relational Banking Accounts

/-! ## Who asked for what -/

/-- The call was made with this route and the token of the account. -/
def Sends (s : State) (c : Call Op Ans Exception Request Reply) (userId : String) (route : Route) : Prop :=
  c ∈ s.calls ∧ ∃ contentType token, c.request = .http contentType (some token) route ∧
    s.world.accounts.Known userId token.email

/-- The provider has reported under its reference that the payment was paid. -/
def PaidReported (s : State) (p : Payment) : Prop :=
  ∃ c ∈ s.calls, ∃ contentType bearer route event, c.request = .http contentType bearer route ∧
    Reported route event ∧ event.type = "checkout.session.completed" ∧ event.paymentStatus = some "paid" ∧
      p.providerRef = some event.objectId

/-- The payment was made for the transaction with this key. -/
def PaidFor (s : State) (p : Payment) (key : String) : Prop :=
  ∃ t ∈ s.world.money.db.transactions, t.id = p.transactionId ∧ t.idempotencyKey = key

/-- The action was asked for. -/
inductive Authorised (P : Packages) (s : State) : Entry String String String String → Prop where
  | opened {b : Bank String String String} {id userId : String} {c : Call Op Ans Exception Request Reply}
      {body : Json} {input : CreateWalletDto} : Sends s c userId (.createWallet body) →
      parseDto P createWalletDto createWalletInput body = .ok input →
        Authorised P s ⟨b, .opened id userId input.currency.value⟩
  | registered {b : Bank String String String} {id : String} {payload : UserRegisteredPayload} :
      payload ∈ s.world.accounts.emitted →
        Authorised P s ⟨b, .opened id payload.userId defaultCurrency.value⟩
  | credited {b : Bank String String String} {id : String} {x : Account String String}
      {c : Call Op Ans Exception Request Reply} {body : Json} {input : DepositDto} {p : Payment} :
      b.account id = some x → Sends s c x.owner (.deposit body) →
      parseDto P depositDto depositInput body = .ok input → x.currency = input.currency.value →
      p ∈ s.world.money.payments → PaidFor s p input.idempotencyKey → p.userId = x.owner →
      p.amount = input.amount → p.currency = input.currency.value → PaidReported s p →
        Authorised P s ⟨b, .credited id input.amount input.idempotencyKey⟩
  | moved {b : Bank String String String} {source : String} {x : Account String String}
      {c : Call Op Ans Exception Request Reply} {body : Json} {input : InitiateTransferDto}
      {toWallet : Wallet} :
      b.account source = some x → Sends s c x.owner (.initiateTransfer body) →
      parseDto P initiateTransferDto initiateTransferInput body = .ok input →
      x.currency = input.currency.value → toWallet.walletTag = input.toWalletTag →
      ⟨.money (.findByWalletTag input.toWalletTag), .ok (.ok (some toWallet))⟩ ∈ c.answers →
        Authorised P s ⟨b, .moved source toWallet.id input.amount input.idempotencyKey⟩
  | closed {b : Bank String String String} {id : String} {c : Call Op Ans Exception Request Reply}
      {admin : Users} : Sends s c admin.id (.deleteUser id) →
      ⟨.accounts (.findUserByEmail admin.email), .ok (.ok (some admin))⟩ ∈ c.answers →
      admin.role = .admin → admin.id ≠ id →
        Authorised P s ⟨b, .closed (P.collate id)⟩

/-- The transaction was asked for by its owner. -/
def Origin (P : Packages) (s : State) (t : Transaction) : Prop :=
  ∃ c body input, Sends s c t.userId (.deposit body) ∧
    parseDto P depositDto depositInput body = .ok input ∧ t.amount = input.amount ∧
      t.currency = input.currency.value ∧ t.idempotencyKey = input.idempotencyKey

/-! ## What was asked for stays asked for -/

section Follows

variable {P : Packages} {s s' : State}

theorem Sends.mono {c : Call Op Ans Exception Request Reply} {userId : String} {route : Route}
    (h : Sends s c userId route) (hf : Follows s s') :
    ∃ c', Sends s' c' userId route ∧ c.answers ⊆ c'.answers := by
  obtain ⟨hc, contentType, token, hreq, hknown⟩ := h
  obtain ⟨c', hc', hreq', hanswers⟩ := hf.calls c hc
  exact ⟨c', ⟨hc', contentType, token, hreq'.trans hreq, hf.known _ _ hknown⟩, hanswers⟩

theorem PaidReported.mono {p : Payment} (h : PaidReported s p) (hf : Follows s s') : PaidReported s' p := by
  obtain ⟨c, hc, contentType, bearer, route, event, hreq, hrest⟩ := h
  obtain ⟨c', hc', hreq', -⟩ := hf.calls c hc
  exact ⟨c', hc', contentType, bearer, route, event, hreq'.trans hreq, hrest⟩

theorem PaidFor.mono {p : Payment} {key : String} (h : PaidFor s p key) (hf : Follows s s') :
    PaidFor s' p key := by
  obtain ⟨t, ht, hid, hkey⟩ := h
  obtain ⟨t', ht', hlater⟩ := hf.grows.transactions t ht
  exact ⟨t', ht', (Transaction.core_id hlater.core).trans hid, (Transaction.core_key hlater.core).trans hkey⟩

theorem Authorised.mono {e : Entry String String String String} (h : Authorised P s e) (hf : Follows s s') :
    Authorised P s' e := by
  cases h with
  | opened hsends hinput =>
    obtain ⟨c', hsends', -⟩ := hsends.mono hf
    exact .opened hsends' hinput
  | registered hemitted => exact .registered (hf.emitted hemitted)
  | credited hx hsends hinput hcurrency hp hfor huser hamount hcurrency' hpaid =>
    obtain ⟨c', hsends', -⟩ := hsends.mono hf
    exact .credited hx hsends' hinput hcurrency (hf.grows.payments.subset hp) (hfor.mono hf) huser hamount
      hcurrency' (hpaid.mono hf)
  | moved hx hsends hinput hcurrency htag hfound =>
    obtain ⟨c', hsends', hanswers⟩ := hsends.mono hf
    exact .moved hx hsends' hinput hcurrency htag (hanswers hfound)
  | closed hsends hfound hrole hne =>
    obtain ⟨c', hsends', hanswers⟩ := hsends.mono hf
    exact .closed hsends' (hanswers hfound) hrole hne

theorem Origin.mono {t t' : Transaction} (h : Origin P s t) (hf : Follows s s') (hcore : t'.core = t.core) :
    Origin P s' t' := by
  obtain ⟨c, body, input, hsends, hinput, hamount, hcurrency, hkey⟩ := h
  obtain ⟨c', hsends', -⟩ := hsends.mono hf
  refine ⟨c', body, input, ?_, hinput, (Transaction.core_amount hcore).trans hamount,
    (Transaction.core_currency hcore).trans hcurrency, (Transaction.core_key hcore).trans hkey⟩
  rw [Transaction.core_userId hcore]
  exact hsends'

/-- A transaction is an old one, or it has just been created. -/
theorem transactions_of_effect {i : ℕ} {m m' : LiorParisWallet.World} {o : LiorParisWallet.Op}
    (he : LiorParisWallet.Effect i m o m') : ∀ t' ∈ m'.db.transactions,
      (∃ t ∈ m.db.transactions, t'.core = t.core) ∨
        ∃ data id, o = .createTransaction data ∧ t' = data.create id := by
  intro t' ht'
  cases he with
  | createTransaction fresh inserted =>
    rcases (Table.mem_insert? inserted).mp ht' with ht' | rfl
    · exact .inl ⟨t', ht', rfl⟩
    · exact .inr ⟨_, _, rfl, rfl⟩
  | updateTransactionProviderRef id ref =>
    obtain ⟨t, ht, rfl⟩ := mem_updateTransactionProviderRef.mp ht'
    exact .inl ⟨t, ht, by split <;> rfl⟩
  | failTransaction t₀ reason =>
    obtain ⟨t, ht, rfl⟩ := mem_failTransaction.mp ht'
    exact .inl ⟨t, ht, by split <;> rfl⟩
  | settleTransaction fresh wallet_mem enough entry event =>
    obtain ⟨t, ht, rfl⟩ := mem_completeTransaction.mp ht'
    exact .inl ⟨t, ht, by split <;> rfl⟩
  | _ => exact .inl ⟨t', ht', rfl⟩

end Follows

/-! ## One step -/

section Steps

variable {P : Packages} {registry : PaymentGatewayRegistry} {s s' : State}
variable {c : Call Op Ans Exception Request Reply}

/-- What the calls of a reachable state know, and what is known of its world. -/
structure Documented (P : Packages) (s : State) : Prop where
  /-- The guard was answered an account that there is or was. -/
  found : ∀ c ∈ s.calls, ∀ email user,
    ⟨.accounts (.findUserByEmail email), .ok (.ok (some user))⟩ ∈ c.answers →
      s.world.accounts.Known user.id user.email
  emitted : ∀ c ∈ s.calls, ∀ payload, c.request = .userRegistered payload →
    payload ∈ s.world.accounts.emitted
  origins : ∀ t ∈ s.world.money.db.transactions, Origin P s t

theorem sends_of_identified (hdocumented : Documented P s) (hc : c ∈ s.calls) {contentType : String}
    {bearer : Option JwtPayload} {route : Route} {user : Users}
    (hreq : c.request = .http contentType bearer route) (h : Identified bearer user c.answers) :
    Sends s c user.id route := by
  obtain ⟨token, rfl, hfound, hemail⟩ := h
  refine ⟨hc, contentType, token, hreq, ?_⟩
  rw [← hemail]
  exact hdocumented.found c hc _ _ hfound

/-- Who may have the server perform an operation of the money, and what was asked for. -/
theorem ordered_of_permits (hdocumented : Documented P s) (hc : c ∈ s.calls) {o : LiorParisWallet.Op}
    (hpermits : Permits P registry c.request c.answers (.money o)) :
    (∃ payload answers₀, payload ∈ s.world.accounts.emitted ∧
      LiorParisWallet.Permits (.handleUserRegistered payload) answers₀ o) ∨
      ∃ contentType bearer route user req answers₀, c.request = .http contentType bearer route ∧
        (∀ u, user = some u → Sends s c u.id route) ∧ Orders P route user req ∧
          (moneyComponent P registry).Reports answers₀ c.answers ∧ LiorParisWallet.Permits req answers₀ o := by
  cases hreq : c.request with
  | http contentType bearer route =>
    rw [hreq] at hpermits
    obtain ⟨user, req, answers₀, hadmitted, horders, hreports, hpermits⟩ := hpermits
    refine .inr ⟨contentType, bearer, route, user, req, answers₀, rfl, fun u hu => ?_, horders, hreports,
      hpermits⟩
    exact sends_of_identified hdocumented hc hreq (hadmitted.identified u hu)
  | userRegistered payload =>
    rw [hreq] at hpermits
    obtain ⟨answers₀, -, hpermits⟩ := hpermits
    exact .inl ⟨payload, answers₀, hdocumented.emitted c hc payload hreq, hpermits⟩

theorem origin_of_permits (hdocumented : Documented P s) (hc : c ∈ s.calls) {data : TransactionData}
    (id : String) (hpermits : Permits P registry c.request c.answers (.money (.createTransaction data))) :
    Origin P s (data.create id) := by
  rcases ordered_of_permits hdocumented hc hpermits with ⟨payload, answers₀, -, ⟨userId, input, heq, -⟩⟩ |
    ⟨contentType, bearer, route, user, req, answers₀, -, hsends, horders, -, ⟨userId, input, rfl, rfl⟩⟩
  · cases heq
  · cases horders with
    | deposit hinput => exact ⟨c, _, input, hsends _ rfl, hinput, rfl, rfl, rfl⟩

/-- The owner of a wallet that is credited has asked for it, and the provider has reported the payment. -/
theorem credited_of_permits (hdocumented : Documented P s) (hinv : s.world.Inv P) (hc : c ∈ s.calls)
    {req : Request} {i : ℕ} {walletId : String} {t : Transaction} {type : LedgerEntryType} {change : ℤ}
    {data : OutboxData} {x : Account String String}
    (hpermits : Permits P registry c.request c.answers
      (.money (.settleTransaction walletId t type change data)))
    (hguarantee : Guarantees P req i (.money (.settleTransaction walletId t type change data)) s.world)
    (hx : s.world.bank.account walletId = some x) :
    Authorised P s ⟨s.world.bank, .credited walletId t.amount t.idempotencyKey⟩ := by
  obtain ⟨-, request, -, ⟨t', ht', hcore, hknown⟩, -, -, -, hwalletOf, -⟩ := hguarantee
  obtain ⟨wallet, hwallet, hid, rfl⟩ := account_bankOf.mp hx
  obtain ⟨howner, hcurrency⟩ := hwalletOf.2 wallet hwallet hid
  rcases ordered_of_permits hdocumented hc hpermits with
    ⟨payload, answers₀, -, ⟨-, -, -, ref, heq, -⟩⟩ |
    ⟨contentType, bearer, route, user, req, answers₀, hreq, -, horders, -,
      ⟨-, -, hsigned, ref, hsettles, href, -⟩⟩
  · cases heq
  · obtain ⟨signature, constructed, rfl, rfl⟩ : ∃ signature constructed,
        route = .handleWebhook signature constructed ∧ req = .handleWebhook signature constructed := by
      cases horders with
      | handleWebhook => exact ⟨_, _, rfl, rfl⟩
      | _ => cases hsettles
    obtain ⟨event, rfl, hcompleted, hpaid, rfl⟩ := settlesRef_eq_some hsettles
    -- the payment that the event reports was made for this transaction, and that for a request of its owner
    obtain ⟨p, hp, hpid, hpref⟩ := hinv.money.payments.recorded t' ht' _ (hknown _ href)
    obtain ⟨t'', ht'', hid'', huser, hamount, hcurrency'', -⟩ := hinv.money.payments.made p hp
    obtain rfl := Transaction.eq_of_id ht'' ht' (hid''.trans hpid)
    obtain ⟨c', body, input, hsends, hinput, hamount', hcurrency', hkey⟩ := hdocumented.origins t'' ht''
    rw [← Transaction.core_amount hcore, ← Transaction.core_key hcore, hamount', hkey]
    rw [← Transaction.core_userId hcore] at howner
    rw [← Transaction.core_currency hcore] at hcurrency
    have hsends' : Sends s c' (Wallet.account wallet).owner (.deposit body) := by
      show Sends s c' wallet.userId _
      rw [howner]
      exact hsends
    refine .credited hx hsends' hinput (hcurrency.trans hcurrency') hp ⟨t'', ht'', hid'', hkey⟩ ?_
      (hamount.symm.trans hamount') (hcurrency''.symm.trans hcurrency') ?_
    · show p.userId = wallet.userId
      rw [howner, huser]
    · exact ⟨c, hc, contentType, bearer, _, event, hreq, reported_of_signed hsigned, hcompleted, hpaid, hpref⟩

/-- The owner of the wallet from which money is moved has asked for it. -/
theorem moved_of_permits (hdocumented : Documented P s) (hc : c ∈ s.calls) {req : Request} {i : ℕ}
    {t : Transfer} {fromWalletId toWalletId : String} {data : OutboxData} {x : Account String String}
    (hpermits : Permits P registry c.request c.answers
      (.money (.executeTransfer t fromWalletId toWalletId data)))
    (hguarantee : Guarantees P req i (.money (.executeTransfer t fromWalletId toWalletId data)) s.world)
    (hx : s.world.bank.account fromWalletId = some x) :
    Authorised P s ⟨s.world.bank, .moved fromWalletId toWalletId t.amount t.idempotencyKey⟩ := by
  obtain ⟨-, request, -, hmay⟩ := hguarantee
  obtain ⟨wallet, hwallet, hid, rfl⟩ := account_bankOf.mp hx
  obtain ⟨howner, hcurrency⟩ := hmay.sender.2 wallet hwallet hid
  rcases ordered_of_permits hdocumented hc hpermits with
    ⟨payload, answers₀, -, ⟨_, _, _, _, _, _, heq, -⟩⟩ |
    ⟨contentType, bearer, route, user, req, answers₀, -, hsends, horders, hreports,
      ⟨fromUserId, fromUserEmail, input, fromWallet, toWallet, id, rfl, hchecked, -, -, -, -, rfl, rfl⟩⟩
  · cases heq
  · cases horders with
    | @initiateTransfer body user input hinput =>
      have hsends' : Sends s c (Wallet.account wallet).owner (.initiateTransfer body) := by
        show Sends s c wallet.userId _
        rw [howner]
        exact hsends user rfl
      exact .moved hx hsends' hinput hcurrency hchecked.tag (mem_of_reports_money hreports hchecked.found)

theorem opened_of_permits (hdocumented : Documented P s) (hc : c ∈ s.calls) {data : WalletData} (id : String)
    (hpermits : Permits P registry c.request c.answers (.money (.saveWallet data))) :
    Authorised P s ⟨s.world.bank, .opened id data.userId data.currency⟩ := by
  rcases ordered_of_permits hdocumented hc hpermits with ⟨payload, answers₀, hemitted, -, hopens⟩ |
    ⟨contentType, bearer, route, user, req, answers₀, -, hsends, horders, -, -, hopens⟩
  · obtain ⟨huser, hcurrency⟩ := Prod.mk.inj (Option.some.inj hopens)
    rw [← huser, ← hcurrency]
    exact .registered hemitted
  · cases horders with
    | createWallet hinput =>
      obtain ⟨huser, hcurrency⟩ := Prod.mk.inj (Option.some.inj hopens)
      rw [← huser, ← hcurrency]
      exact .opened (hsends _ rfl) hinput
    | _ => cases hopens

/-- An administrator has asked for the deletion, and has spelled the id otherwise than its own. -/
theorem deletion_of_permits (hdocumented : Documented P s) (hc : c ∈ s.calls) {id : String}
    (hpermits : Permits P registry c.request c.answers (.accounts (.deleteUser id))) :
    ∃ admin, Sends s c admin.id (.deleteUser id) ∧
      ⟨.accounts (.findUserByEmail admin.email), .ok (.ok (some admin))⟩ ∈ c.answers ∧ admin.role = .admin ∧
        admin.id ≠ id := by
  cases hreq : c.request with
  | userRegistered payload =>
    rw [hreq] at hpermits
    exact hpermits.elim
  | http contentType bearer route =>
    rw [hreq] at hpermits
    rcases hpermits with ⟨-, token, -, heq⟩ | ⟨user, task, answers₀, hadmitted, htask, -, hpermits⟩
    · cases heq
    · obtain ⟨requestingUserId, hdelete, hne⟩ := hpermits
      cases htask with
      | @deleteUser _ user =>
        obtain ⟨rfl, rfl, hrole⟩ := Task.deleteUser.inj hdelete
        have hidentified := hadmitted.identified user rfl
        obtain ⟨token, -, hfound, hemail⟩ := hadmitted.identified user rfl
        rw [← hemail] at hfound
        exact ⟨user, sends_of_identified hdocumented hc hreq hidentified, hfound, hrole, hne⟩
      | _ => cases hdelete

theorem closed_of_permits (hdocumented : Documented P s) (hc : c ∈ s.calls) {id : String}
    (hpermits : Permits P registry c.request c.answers (.accounts (.deleteUser id))) :
    Authorised P s ⟨s.world.bank, .closed (P.collate id)⟩ :=
  let ⟨_, hsends, hfound, hrole, hne⟩ := deletion_of_permits hdocumented hc hpermits
  .closed hsends hfound hrole hne

theorem known_of_found {i : ℕ} {w w' : World} {o : Op} {r : Except Exception (Ans o)}
    (he : Effect P i w o r w') {email : String} {user : Users}
    (heq : (⟨o, r⟩ : Answer Ans Exception) = ⟨.accounts (.findUserByEmail email), .ok (.ok (some user))⟩) :
    w.accounts.Known user.id user.email := by
  cases he with
  | accounts he =>
    cases heq
    exact World.known_of_mem (mem_of_findUserByEmail (foundByEmail_of_effect he).1.symm).1
  | money he => cases heq
  | query haccounts =>
    cases heq
    exact absurd rfl (haccounts _)

theorem Documented.arrives {req : Request} (h : Documented P s) (hf : Follows s s')
    (harrives : Arrives s req c s') : Documented P s' where
  found d hd email user hmem := by
    rw [harrives.calls, List.mem_append, List.mem_singleton] at hd
    rcases hd with hd | rfl
    · exact hf.known _ _ (h.found d hd email user hmem)
    · rw [harrives.answers] at hmem
      cases hmem
  emitted d hd payload hreq := by
    rw [harrives.calls, List.mem_append, List.mem_singleton] at hd
    rcases hd with hd | rfl
    · exact hf.emitted (h.emitted d hd payload hreq)
    · -- the listener is called with what was emitted
      have hwired := harrives.wired
      rw [← harrives.request, hreq] at hwired
      exact hf.emitted hwired
  origins t ht := by
    rw [harrives.world] at ht
    exact (h.origins t ht).mono hf rfl

theorem Documented.performs {i : ℕ} {o : Op} {r : Except Exception (Ans o)}
    {c' : Call Op Ans Exception Request Reply} (h : Documented P s) (hf : Follows s s')
    (hperformed : Performed P registry s i c o r s'.world) (hcontinues : Continues s c ⟨o, r⟩ c' s') :
    Documented P s' where
  found d hd email user hmem := by
    rcases hcontinues.others d hd with hd | rfl
    · exact hf.known _ _ (h.found d hd email user hmem)
    · rw [hcontinues.answers] at hmem
      rcases List.mem_cons.mp hmem with heq | hmem
      · exact hf.known _ _ (known_of_found hperformed.effect heq.symm)
      · exact hf.known _ _ (h.found c hperformed.call email user hmem)
  emitted d hd payload hreq := by
    rcases hcontinues.others d hd with hd | rfl
    · exact hf.emitted (h.emitted d hd payload hreq)
    · exact hf.emitted (h.emitted c hperformed.call payload (hcontinues.request.symm.trans hreq))
  origins t' ht' := by
    have hold : ∀ t ∈ s.world.money.db.transactions, t'.core = t.core → Origin P s' t' :=
      fun t ht hcore => (h.origins t ht).mono hf hcore
    generalize s'.world = world at *
    cases hperformed.effect with
    | accounts he => exact hold t' ht' rfl
    | money he =>
      rcases transactions_of_effect he t' ht' with ⟨t, ht, hcore⟩ | ⟨data, id, rfl, rfl⟩
      · exact hold t ht hcore
      · exact (origin_of_permits h hperformed.call id hperformed.permits).mono hf rfl
    | query => exact hold t' ht' rfl

theorem documented_of_reaches {w : World} (hinitial : w.Initial P)
    (h : (server P registry).Reaches Wired ⟨w, []⟩ s) : Documented P s := by
  refine run_induction hinitial ⟨?_, ?_, ?_⟩ (fun _ h hf harrives => h.arrives hf harrives)
    (fun _ h hf hperformed hcontinues => h.performs hf hperformed hcontinues) h
  · intro c hc
    cases hc
  · intro c hc
    cases hc
  · intro t ht
    rw [hinitial.money.transactions] at ht
    exact absurd ht (Table.not_mem_empty t)

end Steps

end LiorParisWallet.Backend
