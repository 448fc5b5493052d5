import LiorParisWallet.Async.Interference
import LiorParisWallet.Money.Runs

/-!
# What a call has read when it commits

An event is built from the answers that its call has got.  The users that it names were read after the wallets, and
a user who was read is there: without the user the wallet that is credited would be gone as well.
-/

namespace LiorParisWallet

open Async Relational

variable {registry : PaymentGatewayRegistry} {s s' : State}

/-! ## What a call has read -/

/-- What a call has been answered, the latest first, when it performs the operation: for an event, the wallets
    that it is about and after each of them its user. -/
def Prepared (req : Request) (answers : List (Answer Ans Err)) : Op → Prop
  | .settleTransaction walletId t _ _ data => ∃ (wallet : Wallet) (user : Option Users) (now : ℕ),
      walletId = wallet.id ∧
      List.Sublist [⟨.findUserById t.userId, .ok user⟩,
        ⟨.findByUserIdAndCurrency t.userId t.currency, .ok (some wallet)⟩] answers ∧
      data = buildOutboxPayload .depositSucceeded walletId t.userId t.amount t.currency
        (user.map (·.email)) now
  | .executeTransfer t fromWalletId toWalletId data => ∃ (fromUserId fromUserEmail : String)
      (input : InitiateTransferDto) (fromWallet toWallet : Wallet) (fromUser toUser : Option Users) (now : ℕ),
      req = .initiateTransfer fromUserId fromUserEmail input ∧
      fromWalletId = fromWallet.id ∧ toWalletId = toWallet.id ∧
      List.Sublist [⟨.findUserById fromUserId, .ok fromUser⟩,
        ⟨.findByUserIdAndCurrency fromUserId input.currency.value, .ok (some fromWallet)⟩] answers ∧
      List.Sublist [⟨.findUserById toWallet.userId, .ok toUser⟩,
        ⟨.findByWalletTag input.toWalletTag, .ok (some toWallet)⟩] answers ∧
      data = transferOutboxPayload t.id fromUserId toWallet.userId input.amount input.currency.value
        fromUserEmail (fromUser.map (·.name)) toUser now
  | _ => True

/-- The call was prepared for everything that it has performed. -/
def AllPrepared (req : Request) (answers : List (Answer Ans Err)) : Prop :=
  ∀ x ∈ answers, Prepared req answers x.1

/-- An operation that writes no event. -/
def Op.Eventless : Op → Prop
  | .settleTransaction _ _ _ _ _ => False
  | .executeTransfer _ _ _ _ => False
  | _ => True

section Reads

variable {α : Type} {req : Request} {answers answers' : List (Answer Ans Err)} {o : Op} {p : Promise α}

theorem Op.Eventless.prepared (h : o.Eventless) : Prepared req answers o := by
  cases o <;> trivial

theorem Prepared.mono (h : Prepared req answers o) (hanswers : answers.Sublist answers') :
    Prepared req answers' o := by
  cases o with
  | settleTransaction =>
    obtain ⟨wallet, user, now, hid, hread, hdata⟩ := h
    exact ⟨wallet, user, now, hid, hread.trans hanswers, hdata⟩
  | executeTransfer =>
    obtain ⟨fromUserId, fromUserEmail, input, fromWallet, toWallet, fromUser, toUser, now, hreq, hfrom, hto,
      hsender, hreceiver, hdata⟩ := h
    exact ⟨fromUserId, fromUserEmail, input, fromWallet, toWallet, fromUser, toUser, now, hreq, hfrom, hto,
      hsender.trans hanswers, hreceiver.trans hanswers, hdata⟩
  | _ => trivial

theorem AllPrepared.cons (h : AllPrepared req answers) (ho : Prepared req answers o)
    (r : Except Err (Ans o)) : AllPrepared req (⟨o, r⟩ :: answers) := by
  intro x hx
  rcases List.mem_cons.mp hx with rfl | hx
  · exact ho.mono (List.sublist_cons_self _ _)
  · exact (h x hx).mono (List.sublist_cons_self _ _)

theorem allPrepared_nil : AllPrepared req [] := by
  intro x hx
  cases hx

/-- A program that writes no event needs no preparation. -/
theorem wp_prepared_of_all (hp : p.All Op.Eventless) (h : AllPrepared req answers) :
    p.wp Program.Logs Eq (fun _ => AllPrepared req) answers := by
  induction p generalizing answers with
  | ret a =>
    rintro _ rfl
    exact h
  | throw e =>
    rintro _ rfl
    exact h
  | await o next ih =>
    rintro _ r _ rfl rfl
    exact ih r (hp.2 r) (h.cons hp.1.prepared r)

/-- The rule for an `await` of an operation that writes no event. -/
theorem wp_await_prepared {f : Ans o → Promise α} (ho : o.Eventless) (h : AllPrepared req answers)
    (hf : ∀ a, AllPrepared req (⟨o, .ok a⟩ :: answers) →
      (f a).wp Program.Logs Eq (fun _ => AllPrepared req) (⟨o, .ok a⟩ :: answers)) :
    (await o >>= f).wp Program.Logs Eq (fun _ => AllPrepared req) answers :=
  Program.wp_await_logs (fun a => hf a (h.cons ho.prepared _)) fun _ => h.cons ho.prepared _

end Reads

/-! ## The services -/

section Services

theorem invalidateBalanceCache_eventless (userId currency : String) :
    (invalidateBalanceCache userId currency).All Op.Eventless :=
  Program.all_call trivial

theorem ensureWallet_eventless (userId currency userName : String) :
    (ensureWallet userId currency userName).All Op.Eventless := by
  refine Program.all_await trivial fun existing => ?_
  cases existing with
  | some wallet => trivial
  | none => exact Program.all_await trivial fun _ => Program.all_call trivial

theorem createWallet_eventless (userId userName : String) (input : CreateWalletDto) :
    (createWallet userId userName input).All Op.Eventless := by
  refine Program.all_await trivial fun existing => ?_
  dsimp only
  split
  · trivial
  · exact ensureWallet_eventless _ _ _

theorem getBalance_eventless (userId currency : String) : (getBalance userId currency).All Op.Eventless := by
  refine Program.all_await trivial fun cached => ?_
  cases cached with
  | some wallet => trivial
  | none =>
    refine Program.all_await trivial fun wallet => ?_
    cases wallet with
    | none => trivial
    | some wallet => exact Program.all_await trivial fun _ => trivial

theorem afterGateway_eventless (t : Transaction) (g : PaymentGatewayResult) :
    (afterGateway t g).All Op.Eventless := by
  have hend : (if g.requiresWebhook then pure { checkoutUrl := g.checkoutUrl }
      else throw (.badRequest "No settlement path available for gateway") :
        Promise DepositResult).All Op.Eventless := by
    split <;> trivial
  unfold afterGateway
  cases g.success with
  | false => exact Program.all_await trivial fun _ => trivial
  | true =>
    simp only [Bool.not_true, Bool.false_eq_true, if_false]
    cases g.storedRef with
    | none => exact hend
    | some providerRef => exact Program.all_await trivial fun _ => hend

theorem deposit_eventless (userId : String) (input : DepositDto) :
    (deposit registry userId input).All Op.Eventless := by
  refine Program.all_await trivial fun existing => ?_
  cases existing with
  | some t => trivial
  | none =>
    refine Program.all_await trivial fun wallet => ?_
    cases wallet with
    | none => trivial
    | some wallet =>
      refine Program.all_await trivial fun t => (Program.all_ofExcept _).bind fun _ => ?_
      exact Program.all_await trivial fun g => afterGateway_eventless t g

theorem failByProviderRef_eventless (providerRef reason : String) :
    (failByProviderRef providerRef reason).All Op.Eventless := by
  refine Program.all_await trivial fun t => ?_
  cases t with
  | none => trivial
  | some t =>
    dsimp only
    split
    · trivial
    · exact Program.all_call trivial

theorem deleteUser_eventless (requestingUserId targetUserId : String) (role : UserRole) :
    (deleteUser requestingUserId targetUserId role).All Op.Eventless := by
  refine Program.all_await trivial fun user => ?_
  dsimp only
  split
  · trivial
  · exact (Program.all_ofExcept _).bind fun _ => Program.all_call trivial

theorem settlePending_prepared {req : Request} {answers : List (Answer Ans Err)} {t : Transaction}
    {wallet : Wallet} (h : AllPrepared req answers)
    (hwallet : ⟨.findByUserIdAndCurrency t.userId t.currency, .ok (some wallet)⟩ ∈ answers) :
    (settlePending t wallet).wp Program.Logs Eq (fun _ => AllPrepared req) answers := by
  have huser : Op.Eventless (.findUserById t.userId) := trivial
  refine Program.wp_bind (fun _ => rfl) (Program.wp_await_logs (fun user => ?_) fun _ => h.cons huser.prepared _)
  rintro _ rfl
  have h₁ : AllPrepared req (⟨.findUserById t.userId, .ok user⟩ :: answers) := h.cons huser.prepared _
  refine wp_await_prepared trivial h₁ fun now h₂ => ?_
  -- the user was read after the wallet
  have hread : List.Sublist [⟨.findUserById t.userId, .ok user⟩,
      ⟨.findByUserIdAndCurrency t.userId t.currency, .ok (some wallet)⟩]
      (⟨.newDate, .ok now⟩ :: ⟨.findUserById t.userId, .ok user⟩ :: answers : List (Answer Ans Err)) :=
    .cons _ (.cons_cons _ (List.singleton_sublist.mpr hwallet))
  have hsettle : Prepared req (⟨.newDate, .ok now⟩ :: ⟨.findUserById t.userId, .ok user⟩ :: answers)
      (.settleTransaction wallet.id t .deposit t.amount (buildOutboxPayload .depositSucceeded wallet.id t.userId
        t.amount t.currency (user.map (·.email)) now)) :=
    ⟨wallet, user, now, rfl, hread, rfl⟩
  refine Program.wp_await_logs (fun _ => ?_) fun _ => h₂.cons hsettle _
  exact wp_prepared_of_all (invalidateBalanceCache_eventless _ _) (h₂.cons hsettle _)

theorem settleByProviderRef_prepared {req : Request} (providerRef : String) :
    (settleByProviderRef providerRef).wp Program.Logs Eq (fun _ => AllPrepared req) [] := by
  refine wp_await_prepared trivial allPrepared_nil fun t h₁ => ?_
  cases t with
  | none =>
    rintro _ rfl
    exact h₁
  | some t =>
    dsimp only
    split
    · rintro _ rfl
      exact h₁
    · refine wp_await_prepared trivial h₁ fun wallet h₂ => ?_
      cases wallet with
      | none =>
        rintro _ rfl
        exact h₂
      | some wallet => exact settlePending_prepared h₂ (.head _)

theorem handleWebhook_prepared {req : Request} (signature : Option String)
    (constructed : Except String StripeWebhookEvent) :
    (handleWebhook signature constructed).wp Program.Logs Eq (fun _ => AllPrepared req) [] := by
  have hreturn : (pure () : Promise Unit).wp Program.Logs Eq (fun _ => AllPrepared req) [] :=
    wp_prepared_of_all trivial allPrepared_nil
  have hthrow : ∀ e, (throw e : Promise Unit).wp Program.Logs Eq (fun _ => AllPrepared req) [] :=
    fun _ => wp_prepared_of_all trivial allPrepared_nil
  unfold handleWebhook
  cases (signature.getD "").isEmpty with
  | true => exact hthrow _
  | false =>
    simp only [Bool.false_eq_true, if_false]
    cases constructed with
    | error e => exact hthrow _
    | ok event =>
      dsimp only
      split
      · split
        · exact settleByProviderRef_prepared _
        · exact hreturn
      · split
        · exact wp_prepared_of_all (failByProviderRef_eventless _ _) allPrepared_nil
        · exact hreturn

/-- What has been read of the two users when the row of the transfer is stored. -/
structure NamesRead (fromUserId : String) (input : InitiateTransferDto) (fromWallet toWallet : Wallet)
    (fromUser toUser : Option Users) (answers : List (Answer Ans Err)) : Prop where
  sender : List.Sublist [⟨.findUserById fromUserId, .ok fromUser⟩,
    ⟨.findByUserIdAndCurrency fromUserId input.currency.value, .ok (some fromWallet)⟩] answers
  receiver : List.Sublist [⟨.findUserById toWallet.userId, .ok toUser⟩,
    ⟨.findByWalletTag input.toWalletTag, .ok (some toWallet)⟩] answers

section Transfers

variable {req : Request} {answers : List (Answer Ans Err)} {fromUserId fromUserEmail : String}
variable {input : InitiateTransferDto} {fromWallet toWallet : Wallet}

theorem readNames_prepared (h : AllPrepared req answers)
    (hfrom : ⟨.findByUserIdAndCurrency fromUserId input.currency.value, .ok (some fromWallet)⟩ ∈ answers)
    (hto : ⟨.findByWalletTag input.toWalletTag, .ok (some toWallet)⟩ ∈ answers) :
    (Program.both (getUserName fromUserId) (await (.findUserById toWallet.userId))).wp Program.Logs Eq
      (fun r answers' => AllPrepared req answers' ∧ ∀ names, r = .ok names → ∃ fromUser,
        names.1 = fromUser.map (·.name) ∧
          NamesRead fromUserId input fromWallet toWallet fromUser names.2 answers') answers := by
  have hcons : ∀ {answers : List (Answer Ans Err)} (userId : String) (r : Except Err (Option Users)),
      AllPrepared req answers → AllPrepared req (⟨.findUserById userId, r⟩ :: answers) :=
    fun userId r h => h.cons (o := .findUserById userId) trivial r
  refine Program.wp_both_alone (Program.wp_await_logs (fun fromUser => ?_) fun e => ?_)
  · rintro _ rfl
    refine Program.wp_call_alone fun r _ ht => ?_
    obtain rfl : _ = _ := ht
    refine ⟨hcons _ r (hcons _ _ h), fun names hnames => ?_⟩
    cases r with
    | error e => cases hnames
    | ok toUser =>
      cases hnames
      exact ⟨fromUser, rfl, .cons _ (.cons_cons _ (List.singleton_sublist.mpr hfrom)),
        .cons_cons _ (List.singleton_sublist.mpr (.tail _ hto))⟩
  · -- the second user is read however the first read has ended
    refine Program.wp_call_alone fun r _ ht => ?_
    obtain rfl : _ = _ := ht
    exact ⟨hcons _ r (hcons _ (.error e) h), fun names hnames => by cases hnames⟩

theorem moveMoney_prepared (h : AllPrepared (.initiateTransfer fromUserId fromUserEmail input) answers)
    (hfrom : ⟨.findByUserIdAndCurrency fromUserId input.currency.value, .ok (some fromWallet)⟩ ∈ answers)
    (hto : ⟨.findByWalletTag input.toWalletTag, .ok (some toWallet)⟩ ∈ answers) :
    (moveMoney fromUserId fromUserEmail input fromWallet toWallet).wp Program.Logs Eq
      (fun _ => AllPrepared (.initiateTransfer fromUserId fromUserEmail input)) answers := by
  unfold moveMoney
  refine Program.wp_bind (fun _ => rfl) (Program.wp_mono (readNames_prepared h hfrom hto) ?_)
  rintro r answers₁ ⟨h₁, hread⟩
  cases r with
  | error e => exact h₁
  | ok names =>
    obtain ⟨fromUser, hname, hsender, hreceiver⟩ := hread names rfl
    refine wp_await_prepared trivial h₁ fun t h₂ => ?_
    refine wp_await_prepared trivial h₂ fun now h₃ => ?_
    -- the clock is read and the row is stored after the two users were read
    have hexecute : ∀ {answers' : List (Answer Ans Err)}, answers₁.Sublist answers' →
        Prepared (.initiateTransfer fromUserId fromUserEmail input) answers'
          (.executeTransfer t fromWallet.id toWallet.id (transferOutboxPayload t.id fromUserId toWallet.userId
            input.amount input.currency.value fromUserEmail names.1 names.2 now)) := fun hanswers =>
      ⟨fromUserId, fromUserEmail, input, fromWallet, toWallet, fromUser, names.2, now, rfl, rfl, rfl,
        hsender.trans hanswers, hreceiver.trans hanswers, by rw [hname]⟩
    refine Program.wp_await_logs (fun _ => ?_) fun _ => h₃.cons (hexecute (.cons _ (.cons _ (.refl _)))) _
    refine wp_prepared_of_all ?_ (h₃.cons (hexecute (.cons _ (.cons _ (.refl _)))) _)
    exact ((invalidateBalanceCache_eventless _ _).both (invalidateBalanceCache_eventless _ _)).bind fun _ => trivial

theorem initiateTransfer_prepared :
    (initiateTransfer fromUserId fromUserEmail input).wp Program.Logs Eq
      (fun _ => AllPrepared (.initiateTransfer fromUserId fromUserEmail input)) [] := by
  have hexit : ∀ {answers : List (Answer Ans Err)} {p : Promise Unit}, p.All Op.Eventless →
      AllPrepared (.initiateTransfer fromUserId fromUserEmail input) answers →
      p.wp Program.Logs Eq (fun _ => AllPrepared (.initiateTransfer fromUserId fromUserEmail input)) answers :=
    wp_prepared_of_all
  refine wp_await_prepared trivial allPrepared_nil fun toWallet h₁ => ?_
  cases toWallet with
  | none => exact hexit trivial h₁
  | some toWallet =>
    dsimp only
    split
    · exact hexit trivial h₁
    split
    · exact hexit trivial h₁
    refine wp_await_prepared trivial h₁ fun existing h₂ => ?_
    split
    · exact hexit trivial h₂
    refine wp_await_prepared trivial h₂ fun fromWallet h₃ => ?_
    cases fromWallet with
    | none => exact hexit trivial h₃
    | some fromWallet => exact moveMoney_prepared h₃ (.head _) (by simp)

end Transfers

end Services

theorem serve_prepared (req : Request) :
    (serve registry req).wp Program.Logs Eq (fun _ => AllPrepared req) [] := by
  have heventless : ∀ {α : Type} {p : Promise α} {reply : α → Reply}, p.All Op.Eventless →
      (do return reply (← p) : Promise Reply).wp Program.Logs Eq (fun _ => AllPrepared req) [] :=
    fun hp => wp_prepared_of_all (hp.bind fun _ => trivial) allPrepared_nil
  -- the reply that follows the call awaits nothing
  have hdone : ∀ {p : Promise Unit}, p.wp Program.Logs Eq (fun _ => AllPrepared req) [] →
      (do p; return .done : Promise Reply).wp Program.Logs Eq (fun _ => AllPrepared req) [] := by
    intro p hp
    refine Program.wp_bind (fun _ => rfl) (Program.wp_mono hp fun r answers h => ?_)
    cases r with
    | error e => exact h
    | ok _ =>
      rintro _ rfl
      exact h
  cases req with
  | createWallet userId userName input => exact heventless (createWallet_eventless _ _ _)
  | ensureWallet userId currency userName => exact heventless (ensureWallet_eventless _ _ _)
  | handleUserRegistered payload => exact heventless (ensureWallet_eventless _ _ _)
  | getBalance userId currency => exact heventless (getBalance_eventless _ _)
  | deposit userId input => exact heventless (deposit_eventless _ _)
  | settleByProviderRef providerRef => exact hdone (settleByProviderRef_prepared _)
  | failByProviderRef providerRef reason => exact heventless (failByProviderRef_eventless _ _)
  | handleWebhook signature constructed => exact hdone (handleWebhook_prepared _ _)
  | initiateTransfer fromUserId fromUserEmail input => exact hdone initiateTransfer_prepared
  | createUser input => exact heventless (Program.all_call trivial)
  | deleteUser requestingUserId targetUserId role => exact heventless (deleteUser_eventless _ _ _)

/-- A call that awaits an operation has been prepared for it. -/
theorem Reachable.prepared (h : Reachable registry s) {c : Call Op Ans Err Request Reply} (hc : c ∈ s.calls)
    {o : Op} (ho : c.program.next? = some o) : Prepared c.request c.answers o := by
  have hlogged : c.program.wp Program.Logs Eq (fun _ => AllPrepared c.request) c.answers :=
    Reachable.logged serve_prepared h hc
  -- if the operation failed now, the call would have been prepared for it in the end
  obtain ⟨r, answers', hprepared, hsuccesses, -, hawaited⟩ := Program.wp_cut .unavailable hlogged
  have hlast : Prepared c.request answers' o := hprepared _ (hawaited o ho)
  have hpair : ∀ {o₁ o₂ : Op} {a₁ : Ans o₁} {a₂ : Ans o₂},
      List.Sublist [⟨o₁, .ok a₁⟩, ⟨o₂, .ok a₂⟩] answers' →
      List.Sublist [⟨o₁, .ok a₁⟩, ⟨o₂, .ok a₂⟩] c.answers :=
    fun hread => Program.sublist_of_successes hsuccesses hread (by simp [Except.isOk, Except.toBool])
  cases o with
  | settleTransaction =>
    obtain ⟨wallet, user, now, hid, hread, hdata⟩ := hlast
    exact ⟨wallet, user, now, hid, hpair hread, hdata⟩
  | executeTransfer =>
    obtain ⟨fromUserId, fromUserEmail, input, fromWallet, toWallet, fromUser, toUser, now, hreq, hfrom, hto,
      hsender, hreceiver, hdata⟩ := hlast
    exact ⟨fromUserId, fromUserEmail, input, fromWallet, toWallet, fromUser, toUser, now, hreq, hfrom, hto,
      hpair hsender, hpair hreceiver, hdata⟩
  | _ => trivial

/-! ## Users who are there -/

/-- A user with this id is stored. -/
def Store.HasUser (db : Store) (userId : String) : Prop := ∃ u ∈ db.users, u.id = userId

theorem Store.HasUser.found {db : Store} {userId : String} (h : db.HasUser userId) :
    ∃ u, db.findUserById userId = some u ∧ u.id = userId := by
  obtain ⟨u, hu, hid⟩ := h
  cases hfind : db.findUserById userId with
  | none =>
    have hnone := Table.find?_eq_none.mp hfind u hu
    rw [hid, beq_self_eq_true] at hnone
    cases hnone
  | some u' =>
    obtain ⟨-, hid'⟩ := Table.mem_of_find? hfind
    exact ⟨u', rfl, by simpa using hid'⟩

/-- The foreign key of the wallets. -/
theorem Reachable.referenced (h : Reachable registry s) :
    ∀ a ∈ s.world.db.wallets, s.world.db.HasUser a.userId := by
  refine ReachableBy.induction h (fun w => ∀ a ∈ w.db.wallets, w.db.HasUser a.userId) ?_ ?_
  · intro w hw a ha
    rw [hw.wallets] at ha
    exact absurd ha (Table.not_mem_empty a)
  · intro s i ω c o w' _ _ _ _ _ he h
    cases he with
    | saveWallet fresh user inserted =>
      intro a ha
      rcases (Table.mem_insert? inserted).mp ha with ha | rfl
      · exact h a ha
      · exact user
    | settleTransaction fresh wallet_mem enough entry event =>
      exact forall_setBalance (P := fun a => s.world.db.HasUser a.userId) h fun _ huser => huser
    | executeTransfer fresh sender_mem receiver_mem enough debit credit event =>
      exact forall_setBalance (P := fun a => s.world.db.HasUser a.userId)
        (forall_setBalance h fun _ huser => huser) fun _ huser => huser
    | createUser fresh inserted =>
      intro a ha
      obtain ⟨u, hu, hid⟩ := h a ha
      exact ⟨u, (Table.mem_insert? inserted).mpr (.inl hu), hid⟩
    | deleteUser id =>
      -- the wallets of the user are deleted as well
      intro a ha
      obtain ⟨ha, hne⟩ := Table.mem_delete.mp ha
      obtain ⟨u, hu, hid⟩ := h a ha
      exact ⟨u, Table.mem_delete.mpr ⟨hu, by rwa [hid]⟩, hid⟩
    | _ => exact h

/-- A user who was read after a wallet that is still there was found. -/
theorem Reachable.user_found (h : Reachable registry s) {i : ℕ} {c : Call Op Ans Err Request Reply}
    (hc : s.calls[i]? = some c) {userId : String} {user : Option Users} {o : Op} {r : Except Err (Ans o)}
    (hread : List.Sublist [⟨.findUserById userId, .ok user⟩, ⟨o, r⟩] c.answers) {wallet a : Wallet}
    (hwallet : ∀ {j ω w w'}, perform j o ω w = some (r, w') → wallet ∈ w.db.wallets)
    (ha : a ∈ s.world.db.wallets) (hid : a.id = wallet.id) (huser : a.userId = userId) :
    ∃ u, user = some u ∧ u.id = userId := by
  obtain ⟨w, hw, hr⟩ := h
  -- the answers before that of the read
  obtain ⟨l₁, earlier, hl, hmem, hrest⟩ := List.cons_sublist_iff.mp hread
  obtain ⟨later, l₂, rfl⟩ := List.append_of_mem hmem
  have hanswers : c.answers = later ++ ⟨.findUserById userId, .ok user⟩ :: (l₂ ++ earlier) := by
    simp [hl]
  obtain ⟨s₀, s₁, ω, c₀, hr₀, -, hc₀, hearlier, -, hstep, hperform, hr₁⟩ := hr.answered_at rfl hc hanswers
  have hs₀ : Reachable registry s₀ := ⟨w, hw, hr₀⟩
  have hbefore : ⟨o, r⟩ ∈ c₀.answers := by
    rw [hearlier]
    exact List.mem_append_right _ (List.singleton_sublist.mp hrest)
  -- the wallet had its id when the user was read, so it was stored, and so was the user
  obtain ⟨s₂, hs₂, -, ω₂, s₃, hstep₂, hperform₂, hr₂⟩ := hs₀.performed hc₀ hbefore
  have hissued : wallet.id ∈ s₀.world.issuedIds :=
    (hs₂.grows ((Server.reaches_of_step hstep₂).trans hr₂)).issuedIds
      (hs₂.inv.ids.wallets wallet (hwallet hperform₂))
  obtain ⟨b, hb, -, hbuser, -⟩ := (hs₀.grows ((Server.reaches_of_step hstep).trans hr₁)).wallets a ha
    (hid ▸ hissued)
  have hstored := hs₀.referenced b hb
  rw [hbuser, huser] at hstored
  obtain ⟨u, hfind, huid⟩ := hstored.found
  exact ⟨u, ((read_eq_some hperform).2 user rfl).trans hfind, huid⟩

end LiorParisWallet
