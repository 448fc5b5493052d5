import LiorParisWallet.Accounts.Twins
import LiorParisWallet.Backend.Routes

/-!
# The digests stay secret

Two runs under the same schedule, from worlds that differ in the stored digests only, cannot be told apart: every
request is answered alike, and what reaches the cache, the outbox, the provider and the event emitter is the same.
What anybody can learn of a digest is which passwords it verifies.
-/

namespace LiorParisWallet.Backend

open Async Relational Accounts

variable {P : Packages} {registry : PaymentGatewayRegistry} {w w' : World}

structure World.Twin (P : Packages) (w w' : World) : Prop where
  accounts : Accounts.World.Twin P w.accounts w'.accounts
  money : LiorParisWallet.World.Twin P.verify w.money w'.money

/-- The same user, as far as the digest allows, with the same wallets. -/
def UserWithWallets.Twin (P : Packages) (found found' : UserWithWallets) : Prop :=
  Twins P found.user found'.user ∧ found.wallets = found'.wallets

inductive Op.Twin (P : Packages) : (o o' : Op) → (Ans o → Ans o' → Prop) → Prop where
  | accounts {o o' : Accounts.Op} {R : Accounts.Ans o → Accounts.Ans o' → Prop} :
      Accounts.Op.Twin P o o' R → Twin P (.accounts o) (.accounts o') (Settles R)
  | money {o o' : LiorParisWallet.Op} {R : LiorParisWallet.Ans o → LiorParisWallet.Ans o' → Prop} :
      LiorParisWallet.Op.Twin P.verify o o' R → Twin P (.money o) (.money o') (Settles R)
  | findUserByIdWithWallets (userId : String) :
      Twin P (.findUserByIdWithWallets userId) (.findUserByIdWithWallets userId)
        (Option.Rel (UserWithWallets.Twin P))
  | findAll (query : PaginationQueryDto) : Twin P (.findAll query) (.findAll query) Eq

/-! ## Operations -/

theorem users_of_twin {m m' : LiorParisWallet.World} (h : LiorParisWallet.World.Twin P.verify m m') :
    Table.Alike (Twins P) m.db.users m'.db.users := by
  obtain ⟨⟨h⟩⟩ := h
  exact h

/-- Whose wallets go away is a matter of ids. -/
theorem cascade_twin {before before' after after' : Table Users} (hbefore : Table.Alike (Twins P) before before')
    (hafter : Table.Alike (Twins P) after after') (wallets : Table Wallet) :
    cascade before' after' wallets = cascade before after wallets := by
  have hnone : ∀ {users users' : Table Users}, Table.Alike (Twins P) users users' → ∀ a : Wallet,
      (users'.find? (·.id == a.userId)).isNone = (users.find? (·.id == a.userId)).isNone :=
    fun h a => Store.Twin.isNone_eq_of_rel (h.find? (twins_id a.userId))
  unfold cascade
  congr 1
  funext a
  rw [hnone hafter, ← Option.not_isNone, ← Option.not_isNone, hnone hbefore]

namespace World.Twin

theorem putAccounts (h : World.Twin P w w') {x x' : Accounts.World} (hx : Accounts.World.Twin P x x') :
    World.Twin P (w.putAccounts x) (w'.putAccounts x') where
  accounts := hx
  money := by
    unfold World.putAccounts
    rw [cascade_twin h.accounts.users hx.users]
    have hmoney := h.money
    generalize w'.money = m' at hmoney ⊢
    obtain ⟨⟨-⟩⟩ := hmoney
    exact .intro (.intro hx.users)

theorem putMoney (h : World.Twin P w w') {m m' : LiorParisWallet.World}
    (hm : LiorParisWallet.World.Twin P.verify m m') : World.Twin P (w.putMoney m) (w'.putMoney m') where
  accounts := ⟨users_of_twin hm, h.accounts.deleted, h.accounts.issued, h.accounts.emitted⟩
  money := hm

/-- How the operation has settled in the two worlds, and what has become of them. -/
abbrev Performed {α α' : Type} (P : Packages) (R : α → α' → Prop) (x : Except Exception α × World)
    (x' : Except Exception α' × World) : Prop :=
  Settles R x.1 x'.1 ∧ World.Twin P x.2 x'.2

theorem query {α : Type} {R : α → α → Prop} {ω : Choice} (h : World.Twin P w w') {a a' : α} (ha : R a a') :
    Option.Rel (Performed P R) (w.query ω a) (w'.query ω a') := by
  unfold World.query
  split
  · exact .some ⟨.error _, h⟩
  · exact .some ⟨.ok ha, h⟩

theorem findUserByIdWithWallets (h : World.Twin P w w') (userId : String) :
    Option.Rel (UserWithWallets.Twin P) (w.findUserByIdWithWallets userId)
      (w'.findUserByIdWithWallets userId) := by
  have hwallets : w'.money.db.wallets = w.money.db.wallets := by
    have hmoney := h.money
    generalize w'.money = m' at hmoney ⊢
    obtain ⟨⟨-⟩⟩ := hmoney
    rfl
  unfold World.findUserByIdWithWallets
  rw [hwallets]
  have hfound := h.accounts.findUserById userId
  generalize w.accounts.findUserById userId = x at hfound ⊢
  generalize w'.accounts.findUserById userId = x' at hfound ⊢
  cases hfound with
  | none => exact .none
  | some hu =>
    refine .some ⟨hu, ?_⟩
    dsimp only
    rw [hu.id_eq]

theorem findAll (h : World.Twin P w w') (query : PaginationQueryDto) :
    w.accounts.findAll query = w'.accounts.findAll query := by
  have hresource : ∀ u u', Twins P u u' → Users.resource u = Users.resource u' := by
    intro u u' hu
    obtain ⟨_, rfl, -⟩ := hu
    rfl
  have hrows : w.accounts.users.rows.map Users.resource = w'.accounts.users.rows.map Users.resource :=
    List.forall₂_eq_eq_eq ▸ List.rel_map (R := Twins P) hresource h.accounts.users
  unfold Accounts.World.findAll
  rw [List.map_take, List.map_drop, hrows, ← List.map_drop, ← List.map_take, List.Forall₂.length_eq h.accounts.users]

/-- Twin worlds stay twins, and answer alike. -/
theorem performed (h : World.Twin P w w') {o o' : Op} {R : Ans o → Ans o' → Prop} (ho : Op.Twin P o o' R)
    (i : ℕ) (ω : Choice) : Option.Rel (Performed P R) (perform P i o ω w) (perform P i o' ω w') := by
  cases ho with
  | @accounts o o' R ho =>
    have hx := h.accounts.performed (ω := ω.accounts) ho
    show Option.Rel _ ((Accounts.perform P o ω.accounts w.accounts).map _)
      ((Accounts.perform P o' ω.accounts w'.accounts).map _)
    generalize Accounts.perform P o ω.accounts w.accounts = x at hx ⊢
    generalize Accounts.perform P o' ω.accounts w'.accounts = x' at hx ⊢
    cases hx with
    | none => exact .none
    | some hx => exact .some ⟨.ok hx.1, h.putAccounts hx.2⟩
  | @money o o' R ho =>
    have hx := h.money.performed (ω := ω.money) ho i
    show Option.Rel _ ((LiorParisWallet.perform i o ω.money w.money).map _)
      ((LiorParisWallet.perform i o' ω.money w'.money).map _)
    generalize LiorParisWallet.perform i o ω.money w.money = x at hx ⊢
    generalize LiorParisWallet.perform i o' ω.money w'.money = x' at hx ⊢
    cases hx with
    | none => exact .none
    | some hx => exact .some ⟨.ok hx.1, h.putMoney hx.2⟩
  | findUserByIdWithWallets userId => exact h.query (h.findUserByIdWithWallets (P.collate userId))
  | findAll query => exact h.query (h.findAll query)

end World.Twin

/-! ## Calls -/

section Calls

variable {α β : Type}

abbrev Promise.Twin (P : Packages) (Q : α → α → Prop) (p p' : Promise α) : Prop :=
  Related (Op.Twin P) Q p p'

theorem accounts_twin {p p' : Accounts.Promise α} {Q : α → α → Prop} (h : Accounts.Promise.Twin P Q p p') :
    Promise.Twin P Q (accounts p) (accounts p') :=
  h.embed fun _ _ R ho => ⟨Settles R, .accounts ho, fun _ _ hr => hr⟩

theorem money_twin {p p' : LiorParisWallet.Promise α} {Q : α → α → Prop}
    (h : LiorParisWallet.Promise.Twin P.verify Q p p') : Promise.Twin P Q (money p) (money p') :=
  h.embed fun _ _ R ho => ⟨Settles R, .money ho, fun _ _ hr => hr⟩

/-- What a handler makes of the answer of its service. -/
theorem reply_twin {p p' : Promise α} {f : α → β} (h : Promise.Twin P Eq p p') :
    Promise.Twin P Eq (do return f (← p)) (do return f (← p')) :=
  h.bind fun _ _ ha => .pure (congrArg f ha)

theorem checked_twin {x : Except Accounts.Exception α} {f f' : α → Promise β}
    (hf : ∀ a, Promise.Twin P Eq (f a) (f' a)) : Promise.Twin P Eq (checked x >>= f) (checked x >>= f') := by
  cases x with
  | ok a => exact hf a
  | error e => exact .throw _

theorem walletsResource_eq {found found' : UserWithWallets} (h : UserWithWallets.Twin P found found') :
    walletsResource found = walletsResource found' := by
  obtain ⟨user, wallets⟩ := found
  obtain ⟨user', wallets'⟩ := found'
  obtain ⟨⟨_, rfl, -⟩, rfl⟩ := h
  rfl

/-- Who is shown a user is shown no digest. -/
theorem found_twin (userId : String) (e : Exception) :
    Promise.Twin P Eq
      (do
        match ← await (.findUserByIdWithWallets userId) with
        | some found => return Reply.data (walletsResource found)
        | none => throw e)
      (do
        match ← await (.findUserByIdWithWallets userId) with
        | some found => return Reply.data (walletsResource found)
        | none => throw e) := by
  refine .call_bind (.findUserByIdWithWallets userId) fun found found' hfound => ?_
  cases hfound with
  | none => exact .throw _
  | some hfound => exact .pure (congrArg Reply.data (walletsResource_eq hfound))

theorem handle_twin {user user' : Option Users} (huser : Option.Rel (Twins P) user user') (route : Route) :
    Promise.Twin P Eq (handle P registry user route) (handle P registry user' route) := by
  cases huser with
  | none =>
    cases route with
    | getBaseRoute => exact .pure rfl
    | register body => exact checked_twin fun input => reply_twin (accounts_twin (register_twin input))
    | login body => exact checked_twin fun input => reply_twin (accounts_twin (login_twin input))
    | handleWebhook signature constructed => exact reply_twin (money_twin (handleWebhook_twin signature constructed))
    | findAll page limit =>
      refine .call_bind (.findAll _) fun result result' hresult => ?_
      cases hresult
      exact .pure rfl
    | findUserById id => exact checked_twin fun id => found_twin id _
    | updateUserDetails id body => exact checked_twin fun data => checked_twin fun id => .throw _
    | changePassword body => exact checked_twin fun input => .throw _
    | deleteUser id => exact checked_twin fun id => .throw _
    | createWallet body => exact checked_twin fun input => .throw _
    | deposit body => exact checked_twin fun input => .throw _
    | initiateTransfer body => exact checked_twin fun input => .throw _
    | _ => exact .throw _
  | @some user user' huser =>
    obtain ⟨digest, rfl, -⟩ := huser
    cases route with
    | getBaseRoute => exact .pure rfl
    | register body => exact checked_twin fun input => reply_twin (accounts_twin (register_twin input))
    | login body => exact checked_twin fun input => reply_twin (accounts_twin (login_twin input))
    | changePassword body =>
      exact checked_twin fun input => reply_twin (accounts_twin (changePassword_twin user.id input))
    | userMe =>
      refine Related.bind (Q := fun u u' => u.id = u'.id) (.pure rfl) fun u u' hid => ?_
      rw [hid]
      apply Related.call_bind (.findUserByIdWithWallets u'.id)
      intro found found' hfound
      cases hfound with
      | none => exact .throw _
      | some hfound => exact .pure (congrArg Reply.data (walletsResource_eq hfound))
    | findAll page limit =>
      refine .call_bind (.findAll _) fun result result' hresult => ?_
      cases hresult
      exact .pure rfl
    | findUserById id => exact checked_twin fun id => found_twin id _
    | updateUserDetails id body =>
      exact checked_twin fun data => checked_twin fun id =>
        reply_twin (accounts_twin (updateUserDetails_twin user.id id data.updateData user.role))
    | deleteUser id =>
      exact checked_twin fun id => reply_twin (accounts_twin (deleteUser_twin user.id id user.role))
    | createWallet body =>
      exact checked_twin fun input =>
        reply_twin (money_twin (twin_of_plain (createWallet_plain user.id user.name input)))
    | getBalance currency =>
      exact reply_twin (money_twin (twin_of_plain (getBalance_plain user.id (toUpperCase currency))))
    | deposit body =>
      exact checked_twin fun input => reply_twin (money_twin (twin_of_plain (deposit_plain user.id input)))
    | handleWebhook signature constructed => exact reply_twin (money_twin (handleWebhook_twin signature constructed))
    | initiateTransfer body =>
      exact checked_twin fun input => reply_twin (money_twin (initiateTransfer_twin user.id user.email input))

theorem guard_twin (route : Route) (bearer : Option JwtPayload) :
    Promise.Twin P (Option.Rel (Twins P)) (JwtAuthGuard.canActivate route bearer)
      (JwtAuthGuard.canActivate route bearer) := by
  unfold JwtAuthGuard.canActivate
  split
  · exact .pure .none
  · exact (accounts_twin (canActivate_twin bearer)).bind fun user user' huser => .pure (.some huser)

theorem serve_twin (req : Request) : Promise.Twin P Eq (serve P registry req) (serve P registry req) := by
  cases req with
  | http contentType bearer route =>
    refine (guard_twin route bearer).bind fun user user' huser => ?_
    -- the role is no secret
    have hroles : RoleGuard.canActivate route.requiredRoles user' = RoleGuard.canActivate route.requiredRoles user := by
      cases huser with
      | none => rfl
      | some huser =>
        obtain ⟨_, rfl, -⟩ := huser
        rfl
    rw [hroles]
    refine Related.bind (.ofExcept (.refl _)) fun _ _ _ => ?_
    exact Related.bind (.ofExcept (.refl _)) fun _ _ _ => handle_twin huser route
  | userRegistered payload =>
    exact reply_twin (money_twin (twin_of_plain (ensureWallet_plain _ _ _)))

end Calls

/-! ## Runs -/

def secrecy (P : Packages) (registry : PaymentGatewayRegistry) :
    Simulation (server P registry) (server P registry) where
  requests := Eq
  ops := Op.Twin P
  worlds := World.Twin P
  replies := Eq
  serve h := h ▸ serve_twin _
  perform i ω ho hw := hw.performed ho i ω

theorem eq_of_settles {α : Type} {x x' : Option (Except Exception α)} (h : Option.Rel (Settles Eq) x x') :
    x = x' := by
  cases h with
  | none => rfl
  | some h => rw [h.eq]

theorem alike_refl (ls : List (Label Request Choice)) : List.Forall₂ (Label.Alike Eq) ls ls := by
  refine List.forall₂_same.mpr fun l _ => ?_
  cases l with
  | start req => exact .start rfl
  | step i ω => exact .step i ω

/-- Under every schedule, worlds that differ in digests only answer every request alike, and still differ in
    digests only when all is done. -/
theorem digests_stay_secret (h : World.Twin P w w') (ls : List (Label Request Choice)) :
    (∀ i, ((server P registry).drive ls ⟨w, []⟩).outcome i = ((server P registry).drive ls ⟨w', []⟩).outcome i) ∧
      World.Twin P ((server P registry).drive ls ⟨w, []⟩).world ((server P registry).drive ls ⟨w', []⟩).world := by
  have hstep : (secrecy P registry).InStep ⟨w, []⟩ ⟨w', []⟩ := ⟨h, .nil⟩
  have hdriven := hstep.drive (alike_refl ls)
  exact ⟨fun i => eq_of_settles (hdriven.outcome i), hdriven.world⟩

/-- The salt stands before a colon. -/
def saltedPackages : Packages :=
  { plainPackages with
    hash := fun salt password => salt ++ ":" ++ password
    verify := fun digest password => digest.toList.dropWhile (· ≠ ':') == ':' :: password.toList }

/-- Only Ada has an account, and her digest has this salt. -/
def saltedWorld (salt : String) : World :=
  let users : Table Users := ⟨[{ ada with password := salt ++ ":ada00" }], List.pairwise_singleton _ _⟩
  { accounts := ⟨users, [], ["ada"], []⟩
    money := .fresh users
    users := rfl }

def signIns : List (Label Request Choice) :=
  let attempt (password : String) : Label Request Choice :=
    anonymously (.login (.object [("email", .string "ada@example.com"), ("password", .string password)]))
  attempt "ada00" :: attempt "guess" :: steps 0 [{}, {}] ++ steps 1 [{}, {}]

/-- Of two salts nothing is seen in either attempt to sign in. -/
theorem digests_stay_secret_salted :
    (((server saltedPackages cardPayments).drive signIns ⟨saltedWorld "salt", []⟩).calls.map
      fun c => c.program.result?.map (·.isOk)) = [some true, some false] ∧
    ∀ i, ((server saltedPackages cardPayments).drive signIns ⟨saltedWorld "salt", []⟩).outcome i =
      ((server saltedPackages cardPayments).drive signIns ⟨saltedWorld "pepper", []⟩).outcome i := by
  have husers : Table.Alike (Twins saltedPackages) (saltedWorld "salt").accounts.users
      (saltedWorld "pepper").accounts.users :=
    .cons ⟨_, rfl, fun _ => rfl⟩ .nil
  have htwin : World.Twin saltedPackages (saltedWorld "salt") (saltedWorld "pepper") :=
    ⟨⟨husers, .nil, rfl, rfl⟩, ⟨⟨husers⟩⟩⟩
  exact ⟨by decide +kernel, (digests_stay_secret htwin signIns).1⟩

end LiorParisWallet.Backend
