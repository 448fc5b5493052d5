import LiorParisWallet.Backend.Permits

/-!
# The contract of the whole server

The contracts of the two components hold together: an operation of the accounts only takes wallets away, as
far as the money is concerned, and an operation of the money does not touch the users.  What a call owes to
the money it owes for the request that its route stands for.
-/

namespace LiorParisWallet.Backend

open Async Relational Accounts

variable {P : Packages} {registry : PaymentGatewayRegistry} {w w' : World} {i j : ℕ} {req : Request}

/-! ## What an operation does -/

/-- The operation, performed by call `i` in `w`, settled in this way and left this world. -/
inductive Effect (P : Packages) (i : ℕ) (w : World) : (o : Op) → Except Exception (Ans o) → World → Prop where
  | accounts {o : Accounts.Op} {a : Except Accounts.Exception (Accounts.Ans o)} {x : Accounts.World} :
      Accounts.Effect P w.accounts o a x → Effect P i w (.accounts o) (.ok a) (w.putAccounts x)
  | money {o : LiorParisWallet.Op} {a : Except Err (LiorParisWallet.Ans o)} {m : LiorParisWallet.World} :
      LiorParisWallet.Effect i w.money o m → Effect P i w (.money o) (.ok a) (w.putMoney m)
  | query {o : Op} {r : Except Exception (Ans o)} :
      (∀ o', o ≠ .accounts o') → (∀ o', o ≠ .money o') → Effect P i w o r w

theorem effect_of_perform {o : Op} {ω : Choice} {r : Except Exception (Ans o)}
    (h : (server P registry).perform i o ω w = some (r, w')) : Effect P i w o r w' := by
  cases o with
  | accounts o =>
    obtain ⟨⟨a, x⟩, hx, heq⟩ := Option.map_eq_some_iff.mp h
    cases heq
    exact .accounts (Accounts.effect_of_perform hx)
  | money o =>
    obtain ⟨⟨a, m⟩, hm, heq⟩ := Option.map_eq_some_iff.mp h
    cases heq
    exact .money (LiorParisWallet.effect_of_perform hm)
  | findUserByIdWithWallets userId =>
    obtain ⟨rfl, -⟩ := World.query_eq_some h
    exact .query (fun _ => nofun) fun _ => nofun
  | findAll query =>
    obtain ⟨rfl, -⟩ := World.query_eq_some h
    exact .query (fun _ => nofun) fun _ => nofun

/-! ## Wallets go away with their users -/

theorem mem_cascade {before after : Table Users} {wallets : Table Wallet} {a : Wallet} :
    a ∈ cascade before after wallets ↔ a ∈ wallets ∧
      ((∃ u ∈ before, u.id = a.userId) → ∃ u ∈ after, u.id = a.userId) := by
  have hfind : ∀ users : Table Users,
      (users.find? (·.id == a.userId)).isSome = true ↔ ∃ u ∈ users, u.id = a.userId := by
    intro users
    rw [Option.isSome_iff_exists]
    constructor
    · rintro ⟨u, hu⟩
      obtain ⟨hmem, hid⟩ := Table.mem_of_find? hu
      exact ⟨u, hmem, beq_iff_eq.mp hid⟩
    · rintro ⟨u, hmem, hid⟩
      cases hu : users.find? (·.id == a.userId) with
      | none => exact absurd (beq_iff_eq.mpr hid) (by simpa using Table.find?_eq_none.mp hu u hmem)
      | some u => exact ⟨u, rfl⟩
  rw [cascade, Table.mem_delete, ← hfind before, ← hfind after]
  cases (before.find? (·.id == a.userId)).isSome <;>
    cases hafter : after.find? (·.id == a.userId) <;> simp

/-- The world with other users and without some of the wallets. -/
def without (m : LiorParisWallet.World) (users : Table Users) (wallets : Table Wallet) :
    LiorParisWallet.World :=
  { m with db := { m.db with users := users, wallets := wallets } }

section Without

variable {m : LiorParisWallet.World} {users : Table Users} {wallets : Table Wallet}

theorem grows_without (hsub : ∀ a ∈ wallets, a ∈ m.db.wallets) : Grows m (without m users wallets) :=
  { Grows.refl m with wallets := fun a ha _ => ⟨a, hsub a ha, rfl, rfl, rfl⟩ }

theorem own_without : Own i m (without m users wallets) :=
  { Own.refl i m with }

theorem inv_without (h : m.Inv) (hsub : ∀ a ∈ wallets, a ∈ m.db.wallets) : (without m users wallets).Inv where
  ids := { h.ids with wallets := fun a ha => h.ids.wallets a (hsub a ha) }
  replays a ha := h.replays a (hsub a ha)
  deposits := h.deposits.frame (grows_without hsub) (fun t ht => .inl ⟨t, ht, rfl, fun hs => hs⟩) rfl rfl
  payments := h.payments.frame (grows_without hsub) rfl fun t ht _ href => ⟨t, ht, rfl, href⟩
  transfers := h.transfers.frame (grows_without hsub) (fun t ht => .inl ⟨t, ht, rfl, fun hs => hs⟩)
    (fun _ he _ => he) rfl

end Without

/-- The operation of the money neither creates nor deletes users. -/
def KeepsUsers : LiorParisWallet.Op → Prop
  | .createUser _ | .deleteUser _ => False
  | _ => True

theorem users_of_effect {m m' : LiorParisWallet.World} {o : LiorParisWallet.Op} (hkeeps : KeepsUsers o)
    (he : LiorParisWallet.Effect i m o m') : m'.db.users = m.db.users := by
  cases he with
  | createUser => cases hkeeps
  | deleteUser => cases hkeeps
  | _ => rfl

/-- A wallet belongs to whom it belonged, or to a user that there is. -/
theorem owner_of_effect {m m' : LiorParisWallet.World} {o : LiorParisWallet.Op}
    (he : LiorParisWallet.Effect i m o m') : ∀ a' ∈ m'.db.wallets,
      (∃ a ∈ m.db.wallets, a.userId = a'.userId) ∨ ∃ u ∈ m.db.users, u.id = a'.userId := by
  intro a' ha'
  cases he with
  | saveWallet fresh user inserted =>
    rcases (Table.mem_insert? inserted).mp ha' with ha' | rfl
    · exact .inl ⟨a', ha', rfl⟩
    · exact .inr user
  | settleTransaction fresh wallet_mem enough entry event =>
    obtain ⟨a, ha, rfl⟩ := mem_setBalance.mp ha'
    exact .inl ⟨a, ha, by split <;> rfl⟩
  | executeTransfer fresh sender_mem receiver_mem enough debit credit event =>
    obtain ⟨b, hb, rfl⟩ := mem_setBalance.mp ha'
    obtain ⟨a, ha, rfl⟩ := mem_setBalance.mp hb
    exact .inl ⟨a, ha, by split <;> split <;> rfl⟩
  | deleteUser id => exact .inl ⟨a', (Table.mem_delete.mp ha').1, rfl⟩
  | _ => exact .inl ⟨a', ha', rfl⟩

/-! ## The contract -/

structure World.Inv (P : Packages) (w : World) : Prop where
  accounts : w.accounts.Inv P
  money : w.money.Inv
  owners : ∀ a ∈ w.money.db.wallets, ∃ u ∈ w.accounts.users, u.id = a.userId

/-- What a call relies on. -/
structure Keeps (i : ℕ) (w w' : World) : Prop where
  known : ∀ id email, w.accounts.Known id email → w'.accounts.Known id email
  grows : Grows w.money w'.money
  own : Own i w.money w'.money

/-- The token is that of the user. -/
def Bears (w : World) (bearer : Option JwtPayload) (user : Users) : Prop :=
  ∃ token, bearer = some token ∧ user.email = token.email ∧ w.accounts.Known user.id user.email

/-- The request of the money that the request stands for. -/
inductive Routed (P : Packages) (w : World) : Request → LiorParisWallet.Request → Prop where
  | ordered {contentType : String} {bearer : Option JwtPayload} {route : Route} {user : Option Users}
      {m : LiorParisWallet.Request} : (∀ u, user = some u → Bears w bearer u) → Orders P route user m →
        Routed P w (.http contentType bearer route) m
  | registered (payload : UserRegisteredPayload) :
      Routed P w (.userRegistered payload) (.handleUserRegistered payload)

/-- What a call guarantees. -/
def Guarantees (P : Packages) (req : Request) (i : ℕ) : Op → World → Prop
  | .accounts o, w => Owes o w.accounts
  | .money o, w => KeepsUsers o ∧ ∃ m, Routed P w req m ∧ Guarantee m i o w.money
  | _, _ => True

theorem Routed.mono {m : LiorParisWallet.Request} (h : Routed P w req m)
    (hknown : ∀ id email, w.accounts.Known id email → w'.accounts.Known id email) : Routed P w' req m := by
  cases h with
  | ordered huser horders =>
    refine .ordered (fun u hu => ?_) horders
    obtain ⟨token, hbearer, hemail, h⟩ := huser u hu
    exact ⟨token, hbearer, hemail, hknown _ _ h⟩
  | registered payload => exact .registered payload

theorem putMoney_accounts {m : LiorParisWallet.World} (h : m.db.users = w.money.db.users) :
    (w.putMoney m).accounts = w.accounts := by
  show { w.accounts with users := m.db.users } = w.accounts
  rw [h, w.users]

theorem inv_of_effect {o : Op} {r : Except Exception (Ans o)} (hinv : w.Inv P)
    (hpre : Guarantees P req i o w) (he : Effect P i w o r w') : w'.Inv P := by
  cases he with
  | @accounts o a x he =>
    refine ⟨hinv.accounts.effect he hpre, inv_without hinv.money fun a ha => (mem_cascade.mp ha).1, ?_⟩
    intro a ha
    obtain ⟨hmem, howner⟩ := mem_cascade.mp ha
    exact howner (hinv.owners a hmem)
  | @money o a m he =>
    obtain ⟨hkeeps, request, -, hguarantee⟩ := hpre
    have haccounts := putMoney_accounts (users_of_effect hkeeps he)
    refine ⟨haccounts ▸ hinv.accounts, LiorParisWallet.inv_of_effect hinv.money hguarantee he, ?_⟩
    intro a' ha'
    rw [haccounts]
    rcases owner_of_effect he a' ha' with ⟨a, ha, heq⟩ | howner
    · rw [← heq]
      exact hinv.owners a ha
    · rw [← w.users]
      exact howner
  | query => exact hinv

theorem known_of_perform {o : Op} {r : Except Exception (Ans o)} (hinv : w.Inv P)
    (hpre : Guarantees P req i o w) (he : Effect P i w o r w') :
    ∀ id email, w.accounts.Known id email → w'.accounts.Known id email := by
  cases he with
  | @accounts o a x he =>
    exact fun id email h => (known_of_effect he hinv.accounts hpre id email).mpr (.inl h)
  | @money o a m he =>
    intro id email h
    rw [putMoney_accounts (users_of_effect hpre.1 he)]
    exact h
  | query => exact fun _ _ h => h

theorem grows_of_perform {o : Op} {r : Except Exception (Ans o)} (hpre : Guarantees P req i o w)
    (he : Effect P i w o r w') : Grows w.money w'.money := by
  cases he with
  | accounts he => exact grows_without fun a ha => (mem_cascade.mp ha).1
  | money he =>
    obtain ⟨-, request, -, hguarantee⟩ := hpre
    exact grows_of_effect hguarantee he
  | query => exact .refl _

theorem own_of_perform {o : Op} {r : Except Exception (Ans o)} (hij : i ≠ j) (hinv : w.Inv P)
    (hpre : Guarantees P req j o w) (he : Effect P j w o r w') : Own i w.money w'.money := by
  cases he with
  | accounts he => exact own_without
  | money he =>
    obtain ⟨-, request, -, hguarantee⟩ := hpre
    exact own_of_effect hij hinv.money.ids hguarantee he
  | query => exact .refl _ _

def backendContract (P : Packages) (registry : PaymentGatewayRegistry) : Contract (server P registry) where
  Inv := World.Inv P
  Pre := Guarantees P
  Rely := Keeps
  rely_refl _ _ := ⟨fun _ _ h => h, .refl _, .refl _ _⟩
  rely_trans h h' :=
    ⟨fun id email hknown => h'.known id email (h.known id email hknown), h.grows.trans h'.grows,
      h.own.trans h.grows h'.own⟩
  inv_perform hinv hpre hp := inv_of_effect hinv hpre (effect_of_perform hp)
  rely_perform hij hinv hpre hp :=
    have he := effect_of_perform hp
    ⟨known_of_perform hinv hpre he, grows_of_perform hpre he, own_of_perform hij hinv hpre he⟩

theorem World.Initial.inv (h : w.Initial P) : w.Inv P where
  accounts := h.accounts.inv
  money := inv_initial h.money
  owners a ha := by
    rw [h.money.wallets] at ha
    exact absurd ha (Table.not_mem_empty a)

/-! ## The calls keep the contract -/

section Calls

variable {answers : List (Answer Ans Exception)} {α β : Type}

/-- A service of the accounts, called by a guard or a handler. -/
theorem wp_accounts (areq : Accounts.Request) {p : Accounts.Promise α}
    {Q : List (Answer Accounts.Ans Accounts.Exception) → α → Accounts.World → Prop}
    {task : Task} {R : α → List (Answer Accounts.Ans Accounts.Exception) → Prop}
    (hp : p.Informed (Accounts.Truthful P) (Accounts.Permits task) R [])
    (h : (identityContract P).wp areq i p (Contract.returns Q) [] w.accounts) :
    (backendContract P registry).wp req i (accounts p)
      (Contract.returns fun _ a w' => ∃ known, Q known a w'.accounts) answers w := by
  have hcarries : (accountsComponent P registry).Carries (identityContract P) (backendContract P registry)
      (Accounts.Permits task) areq req i fun _ => True :=
    { inv := fun w hinv => hinv.accounts
      rely := fun w w' hrely => hrely.known
      pre := fun _ o w _ _ howes => howes
      kept := fun _ _ _ _ => trivial
      performed := fun _ _ _ _ _ _ _ _ _ => trivial }
  refine Contract.wp_mono (Component.wp_embed (f := .accounts) hcarries
    (fun hp => truthful_of_effect (performs hp)) hp h trivial) fun _ r _ hr a ha => ?_
  obtain ⟨-, known, hQ⟩ := hr a ha
  exact ⟨known, hQ a rfl⟩

theorem keepsUsers_of_permits {m : LiorParisWallet.Request}
    {known : List (Answer LiorParisWallet.Ans Err)} {o : LiorParisWallet.Op}
    (h : LiorParisWallet.Permits m known o) : KeepsUsers o := by
  cases o <;> trivial

/-- A service of the money, called by a handler or the listener. -/
theorem wp_money {p : LiorParisWallet.Promise α} {m : LiorParisWallet.Request}
    {Q : List (Answer LiorParisWallet.Ans Err) → Except Err α → LiorParisWallet.World → Prop}
    {R : α → List (Answer LiorParisWallet.Ans Err) → Prop} (hrouted : Routed P w req m)
    (hp : p.Informed LiorParisWallet.Truthful (LiorParisWallet.Permits m) R [])
    (h : (moneyContract registry).wp m i p Q [] w.money) :
    (backendContract P registry).wp req i (money p) (Contract.returns fun _ _ _ => True) answers w := by
  have hcarries : (moneyComponent P registry).Carries (moneyContract registry) (backendContract P registry)
      (LiorParisWallet.Permits m) m req i fun w => Routed P w req m :=
    { inv := fun w hinv => hinv.money
      rely := fun w w' hrely => ⟨hrely.grows, hrely.own⟩
      pre := fun _ o w hpermits hrouted hguarantee =>
        ⟨keepsUsers_of_permits hpermits, m, hrouted, hguarantee⟩
      kept := fun w w' hrouted hrely => hrouted.mono hrely.known
      performed := fun _ _ w _ w' hinv hpre hperform hrouted =>
        hrouted.mono (known_of_perform hinv hpre (effect_of_perform hperform)) }
  exact Contract.wp_mono (Component.wp_embed (f := Exception.money) hcarries
    LiorParisWallet.truthful_of_perform hp h hrouted) fun _ _ _ _ _ _ => trivial

/-- The guard sets the user that the token names. -/
theorem canActivate_spec (areq : Accounts.Request) (bearer : Option JwtPayload) {w : Accounts.World} :
    (identityContract P).wp areq i (Accounts.JwtAuthGuard.canActivate bearer)
      (Contract.returns fun _ user w => ∃ token, bearer = some token ∧ user.email = token.email ∧
        w.Known user.id user.email) [] w := by
  cases bearer with
  | none => exact Contract.wp_returns_throw
  | some token =>
    refine Contract.wp_await fun w₁ _ _ => ⟨owes_of_reads trivial, fun ω found w₂ hp => ?_⟩
    obtain ⟨hfound, rfl⟩ := foundByEmail_of_effect (performs hp)
    cases found with
    | none => exact Contract.wp_returns_throw
    | some user =>
      obtain ⟨hmem, hemail⟩ := mem_of_findUserByEmail hfound.symm
      exact Contract.wp_returns_pure ⟨token, rfl, hemail, World.known_of_mem hmem⟩

theorem guard_spec (bearer : Option JwtPayload) (route : Route) :
    (backendContract P registry).wp req i (JwtAuthGuard.canActivate route bearer)
      (Contract.returns fun _ user w' => ∀ u, user = some u → Bears w' bearer u) answers w := by
  unfold JwtAuthGuard.canActivate
  cases route.isPublic with
  | true => exact Contract.wp_returns_pure nofun
  | false =>
    refine Contract.wp_returns_bind (wp_accounts (P := P) (.register .null)
      (canActivate_informed bearer) (canActivate_spec _ bearer)) fun _ user w₁ h => ?_
    refine Contract.wp_returns_pure fun u hu => ?_
    cases hu
    obtain ⟨-, h⟩ := h
    exact h

theorem wp_checked {x : Except Accounts.Exception α} {f : α → Promise β}
    {Q : List (Answer Ans Exception) → β → World → Prop}
    (hf : ∀ a, x = .ok a → (backendContract P registry).wp req i (f a) (Contract.returns Q) answers w) :
    (backendContract P registry).wp req i (checked x >>= f) (Contract.returns Q) answers w := by
  cases x with
  | ok a => exact hf a rfl
  | error e => exact Contract.wp_returns_throw

theorem wp_reqUser {user : Option Users} {f : Users → Promise β}
    {Q : List (Answer Ans Exception) → β → World → Prop}
    (hf : ∀ u, user = some u →
      (backendContract P registry).wp req i (f u) (Contract.returns Q) answers w) :
    (backendContract P registry).wp req i (reqUser user >>= f) (Contract.returns Q) answers w := by
  cases user with
  | some u => exact hf u rfl
  | none => exact Contract.wp_returns_throw

/-- What a handler makes of the answer of its service. -/
theorem wp_reply {p : Promise α} {f : α → β} {Q : List (Answer Ans Exception) → α → World → Prop}
    (hp : (backendContract P registry).wp req i p (Contract.returns Q) answers w) :
    (backendContract P registry).wp req i (do return f (← p)) (Contract.returns fun _ _ _ => True)
      answers w :=
  Contract.wp_returns_bind hp fun _ _ _ _ => Contract.wp_returns_pure trivial

theorem handle_spec {contentType : String} {bearer : Option JwtPayload} {route : Route}
    {user : Option Users} (huser : ∀ u, user = some u → Bears w bearer u) :
    (backendContract P registry).wp (.http contentType bearer route) i (handle P registry user route)
      (Contract.returns fun _ _ _ => True) answers w := by
  have hrouted : ∀ {u m}, user = some u → Orders P route (some u) m →
      Routed P w (.http contentType bearer route) m := by
    intro u m hu horders
    subst hu
    exact .ordered huser horders
  cases route with
  | getBaseRoute => exact Contract.wp_returns_pure trivial
  | register body =>
    refine wp_checked fun input _ => ?_
    -- the contract of the accounts does not look at the request, so any one will do
    exact wp_reply (wp_accounts (.register .null) (register_informed input) (register_spec input))
  | login body =>
    refine wp_checked fun input _ => ?_
    exact wp_reply (wp_accounts (.register .null) (login_informed input) (login_spec input))
  | changePassword body =>
    refine wp_checked fun input _ => wp_reqUser fun u _ => ?_
    exact wp_reply (wp_accounts (.register .null) (changePassword_informed u.id input)
      (changePassword_spec u.id input))
  | userMe =>
    refine wp_reqUser fun u _ => Contract.wp_await fun w₁ _ _ => ⟨trivial, fun _ found _ _ => ?_⟩
    cases found with
    | none => exact Contract.wp_returns_throw
    | some found => exact Contract.wp_returns_pure trivial
  | findAll page limit =>
    exact Contract.wp_await fun w₁ _ _ => ⟨trivial, fun _ _ _ _ => Contract.wp_returns_pure trivial⟩
  | findUserById id =>
    refine wp_checked fun id _ => Contract.wp_await fun w₁ _ _ => ⟨trivial, fun _ found _ _ => ?_⟩
    cases found with
    | none => exact Contract.wp_returns_throw
    | some found => exact Contract.wp_returns_pure trivial
  | updateUserDetails id body =>
    refine wp_checked fun data _ => wp_checked fun id _ => wp_reqUser fun u _ => ?_
    exact wp_reply (wp_accounts (.register .null) (updateUserDetails_informed u.id id data u.role)
      (updateUserDetails_spec u.id id data u.role))
  | deleteUser id =>
    refine wp_checked fun id _ => wp_reqUser fun u _ => ?_
    exact wp_reply (wp_accounts (.register .null) (deleteUser_informed u.id id u.role)
      (Accounts.deleteUser_spec u.id id u.role))
  | createWallet body =>
    refine wp_checked fun input hinput => wp_reqUser fun u hu => ?_
    exact wp_reply (wp_money (hrouted hu (.createWallet hinput))
      (createWallet_informed u.id u.name input) createWallet_spec)
  | getBalance currency =>
    refine wp_reqUser fun u hu => ?_
    exact wp_reply (wp_money (hrouted hu .getBalance) (getBalance_informed u.id (toUpperCase currency))
      getBalance_spec)
  | deposit body =>
    refine wp_checked fun input hinput => wp_reqUser fun u hu => ?_
    exact wp_reply (wp_money (hrouted hu (.deposit hinput)) (deposit_informed registry u.id input)
      (deposit_spec rfl))
  | handleWebhook signature constructed =>
    exact wp_reply (wp_money (.ordered huser .handleWebhook) (handleWebhook_informed signature constructed)
      (handleWebhook_spec rfl))
  | initiateTransfer body =>
    refine wp_checked fun input hinput => wp_reqUser fun u hu => ?_
    exact wp_reply (wp_money (hrouted hu (.initiateTransfer hinput))
      (initiateTransfer_informed u.id u.email input) (initiateTransfer_spec rfl))

theorem serve_spec (req : Request) :
    (backendContract P registry).wp req i (serve P registry req) (Contract.returns fun _ _ _ => True) []
      w := by
  cases req with
  | http contentType bearer route =>
    refine Contract.wp_returns_bind (guard_spec bearer route) fun answers user w₁ huser => ?_
    exact Contract.wp_check fun _ _ => Contract.wp_check fun _ _ => handle_spec huser
  | userRegistered payload =>
    exact wp_reply (wp_money (.registered payload) (ensureWallet_informed rfl rfl) ensureWallet_spec)

end Calls

/-- Every call keeps the contract; nothing is promised of how it ends. -/
def Post (_ : ℕ) (_ : Request) : List (Answer Ans Exception) → Except Exception Reply → World → Prop :=
  Contract.returns fun _ _ _ => True

theorem backend_meets : (backendContract P registry).Meets Post :=
  fun _ req _ _ => serve_spec req

theorem sound_of_reaches {allowed : State → Label Request Choice → Prop} {s : State} (hinitial : w.Initial P)
    (h : (server P registry).Reaches allowed ⟨w, []⟩ s) : (backendContract P registry).Sound Post s :=
  Contract.sound_reaches backend_meets (Contract.sound_idle hinitial.inv) h

end LiorParisWallet.Backend
