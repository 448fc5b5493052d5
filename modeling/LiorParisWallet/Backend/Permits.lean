import LiorParisWallet.Accounts.Permits
import LiorParisWallet.Backend.Routes
import LiorParisWallet.Money.Permits

/-!
# What a call knows when it acts

The accounts and the money are components of the server, so what their services know the calls of the server
know as well, together with what the guards have been answered.
-/

namespace LiorParisWallet.Backend

open Async Relational Accounts

variable {P : Packages} {registry : PaymentGatewayRegistry}

/-! ## The two components -/

def accountsComponent (P : Packages) (registry : PaymentGatewayRegistry) :
    Component (Accounts.server P) (server P registry) where
  op := .accounts
  answer _ := id
  part w := w.accounts
  perform := by
    intro i o ω w r w' h
    obtain ⟨x, hx, heq⟩ := Option.map_eq_some_iff.mp h
    cases heq
    exact ⟨x.1, ω.accounts, rfl, hx⟩

def moneyComponent (P : Packages) (registry : PaymentGatewayRegistry) :
    Component (LiorParisWallet.server registry) (server P registry) where
  op := .money
  answer _ := id
  part w := w.money
  perform := by
    intro i o ω w r w' h
    obtain ⟨x, hx, heq⟩ := Option.map_eq_some_iff.mp h
    cases heq
    exact ⟨x.1, ω.money, rfl, hx⟩

/-- What an operation can answer, in whatever world. -/
def Truthful (P : Packages) : Answer Ans Exception → Prop
  | ⟨.accounts o, .ok r⟩ => Accounts.Truthful P ⟨o, r⟩
  | ⟨.money o, .ok r⟩ => LiorParisWallet.Truthful ⟨o, r⟩
  | ⟨.findUserByIdWithWallets userId, .ok (some found)⟩ =>
      found.user.id = P.collate userId ∧ ∀ wallet ∈ found.wallets, wallet.userId = P.collate userId
  | _ => True

theorem truthful_of_found {w : World} {userId : String} {found : UserWithWallets}
    (h : w.findUserByIdWithWallets userId = some found) :
    found.user.id = userId ∧ ∀ wallet ∈ found.wallets, wallet.userId = userId := by
  obtain ⟨user, huser, rfl⟩ := Option.map_eq_some_iff.mp h
  have hid : user.id = userId := beq_iff_eq.mp (Table.mem_of_find? huser).2
  refine ⟨hid, fun wallet hwallet => ?_⟩
  have howner := (List.mem_filter.mp hwallet).2
  exact (beq_iff_eq.mp howner).trans hid

theorem truthful_of_perform {i : ℕ} {o : Op} {ω : Choice} {w w' : World} {r : Except Exception (Ans o)}
    (h : (server P registry).perform i o ω w = some (r, w')) : Truthful P ⟨o, r⟩ := by
  cases o with
  | accounts o =>
    obtain ⟨a, ω₀, rfl, h₀⟩ := (accountsComponent P registry).perform h
    exact truthful_of_effect (performs h₀)
  | money o =>
    obtain ⟨a, ω₀, rfl, h₀⟩ := (moneyComponent P registry).perform h
    exact LiorParisWallet.truthful_of_perform h₀
  | findUserByIdWithWallets userId =>
    cases r with
    | error e => trivial
    | ok found =>
      cases hfound : found with
      | none => trivial
      | some found' =>
        obtain ⟨-, hanswer⟩ := World.query_eq_some h
        exact truthful_of_found ((hanswer found rfl).symm.trans hfound)
  | findAll query => trivial

/-! ## What the guards and the pipes have established -/

/-- The token was that of a stored account. -/
def Identified (bearer : Option JwtPayload) (user : Users) (answers : List (Answer Ans Exception)) : Prop :=
  ∃ token, bearer = some token ∧ ⟨.accounts (.findUserByEmail token.email), .ok (.ok (some user))⟩ ∈ answers ∧
    user.email = token.email

/-- The request has passed the guards and the interceptor, and `user` is `req.user`. -/
structure Admitted (contentType : String) (bearer : Option JwtPayload) (route : Route) (user : Option Users)
    (answers : List (Answer Ans Exception)) : Prop where
  identified : ∀ u, user = some u → Identified bearer u answers
  authenticated : route.isPublic = false → user ≠ none
  roles : ∀ roles, route.requiredRoles = some roles → ∃ u, user = some u ∧ u.role ∈ roles
  contentType : route.isPublic = false → route.method = .post ∨ route.method = .patch →
    "application/vnd.api+json".toList <+: contentType.toList

/-- What the handler asks of the accounts. -/
inductive Tasks (P : Packages) : Route → Option Users → Task → Prop where
  | register {body : Json} {user : Option Users} {input : Register} :
      parseBody P (registerDto P) (registerSchema P) body = .ok input →
        Tasks P (.register body) user (.register input)
  | login {body : Json} {user : Option Users} {input : Login} :
      parseBody P (loginDto P) (loginSchema P) body = .ok input →
        Tasks P (.login body) user (.login input)
  | changePassword {body : Json} {user : Users} {input : ChangePassword} :
      parseBody P (changePasswordDto P) changePasswordSchema body = .ok input →
        Tasks P (.changePassword body) (some user) (.changePassword user.id input)
  | updateUserDetails {id : String} {body : Json} {user : Users} {data : UpdateUserDto} :
      parseBody P updateUserDto updateUserSchema body = .ok data →
        Tasks P (.updateUserDetails id body) (some user) (.updateUserDetails user.id id data user.role)
  | deleteUser {id : String} {user : Users} :
      Tasks P (.deleteUser id) (some user) (.deleteUser user.id id user.role)

/-- What the handler asks of the money. -/
inductive Orders (P : Packages) : Route → Option Users → LiorParisWallet.Request → Prop where
  | createWallet {body : Json} {user : Users} {input : CreateWalletDto} :
      parseDto P createWalletDto createWalletInput body = .ok input →
        Orders P (.createWallet body) (some user) (.createWallet user.id user.name input)
  | getBalance {currency : String} {user : Users} :
      Orders P (.getBalance currency) (some user) (.getBalance user.id (toUpperCase currency))
  | deposit {body : Json} {user : Users} {input : DepositDto} :
      parseDto P depositDto depositInput body = .ok input →
        Orders P (.deposit body) (some user) (.deposit user.id input)
  | handleWebhook {signature : Option String} {constructed : Except String StripeWebhookEvent}
      {user : Option Users} :
      Orders P (.handleWebhook signature constructed) user (.handleWebhook signature constructed)
  | initiateTransfer {body : Json} {user : Users} {input : InitiateTransferDto} :
      parseDto P initiateTransferDto initiateTransferInput body = .ok input →
        Orders P (.initiateTransfer body) (some user) (.initiateTransfer user.id user.email input)

/-- What a call has been answered when it awaits the operation. -/
def Permits (P : Packages) (registry : PaymentGatewayRegistry) :
    Request → List (Answer Ans Exception) → Op → Prop
  | .http contentType bearer route, answers, .accounts o =>
      -- the guard, or the handler after it
      (route.isPublic = false ∧ ∃ token, bearer = some token ∧ o = .findUserByEmail token.email) ∨
        ∃ user task answers₀, Admitted contentType bearer route user answers ∧ Tasks P route user task ∧
          (accountsComponent P registry).Reports answers₀ answers ∧ Accounts.Permits task answers₀ o
  | .http contentType bearer route, answers, .money o =>
      ∃ user req answers₀, Admitted contentType bearer route user answers ∧ Orders P route user req ∧
        (moneyComponent P registry).Reports answers₀ answers ∧ LiorParisWallet.Permits req answers₀ o
  | .http contentType bearer route, answers, .findUserByIdWithWallets userId =>
      ∃ user, Admitted contentType bearer route (some user) answers ∧
        (route = .userMe ∧ userId = user.id ∨ route = .findUserById userId)
  | .http contentType bearer route, answers, .findAll _ =>
      ∃ user page limit, Admitted contentType bearer route (some user) answers ∧ route = .findAll page limit
  | .userRegistered payload, answers, .money o =>
      ∃ answers₀, (moneyComponent P registry).Reports answers₀ answers ∧
        LiorParisWallet.Permits (.handleUserRegistered payload) answers₀ o
  | .userRegistered _, _, _ => False

/-- What is known of the rows that an answer shows. -/
structure Shown where
  /-- The row of an account. -/
  user : Users → Prop
  /-- The id is that of the user. -/
  own : Users → String → Prop
  /-- The row of a wallet of the user. -/
  wallet : Users → Wallet → Prop
  page : PaginationQueryDto → PaginatedResultDto UserResource → Prop

/-- What a handler answers. -/
inductive Replies (P : Packages) (contentType : String) (bearer : Option JwtPayload) (K : Shown)
    (answers : List (Answer Ans Exception)) : Route → Reply → Prop where
  | registered {body : Json} {input : Register} {digest id : String} :
      parseBody P (registerDto P) (registerSchema P) body = .ok input →
      ⟨.accounts (.createUser (input.data digest)), .ok (.ok ((input.data digest).create id))⟩ ∈ answers →
      K.user ((input.data digest).create id) →
        Replies P contentType bearer K answers (.register body)
          (.data (resultResource (mapResult ((input.data digest).create id) (some ⟨id, input.email⟩))))
  | signedIn {body : Json} {input : Login} {user : Users} :
      parseBody P (loginDto P) (loginSchema P) body = .ok input →
      ⟨.accounts (.findUserByEmail input.email), .ok (.ok (some user))⟩ ∈ answers →
      ⟨.accounts (.verify user.password input.password.value), .ok (.ok true)⟩ ∈ answers →
      K.user user →
        Replies P contentType bearer K answers (.login body)
          (.data (resultResource (mapResult user (some ⟨user.id, user.email⟩))))
  | updated {id : String} {body : Json} {user row : Users} :
      Admitted contentType bearer (.updateUserDetails id body) (some user) answers → K.user row →
      row.id = P.collate id → K.own user row.id ∨ user.role = .admin →
        Replies P contentType bearer K answers (.updateUserDetails id body)
          (.data (resultResource (mapResult row none)))
  | me {user : Users} {found : UserWithWallets} : Admitted contentType bearer .userMe (some user) answers →
      K.user found.user → K.own user found.user.id → (∀ wallet ∈ found.wallets, K.wallet found.user wallet) →
        Replies P contentType bearer K answers .userMe (.data (walletsResource found))
  | found {id : String} {user : Users} {found : UserWithWallets} :
      Admitted contentType bearer (.findUserById id) (some user) answers → user.role = .admin →
      K.user found.user → found.user.id = P.collate id → (∀ wallet ∈ found.wallets, K.wallet found.user wallet) →
        Replies P contentType bearer K answers (.findUserById id) (.data (walletsResource found))
  | page {page limit : Option ℤ} {user : Users} {result : PaginatedResultDto UserResource} :
      Admitted contentType bearer (.findAll page limit) (some user) answers → user.role = .admin →
      K.page (PaginationQueryDto.new (page.getD 1) (limit.getD 10)) result →
        Replies P contentType bearer K answers (.findAll page limit)
          (pageReply (page.getD 1) (limit.getD 10) result)
  | opened {body : Json} {user : Users} {wallet : Wallet} :
      Admitted contentType bearer (.createWallet body) (some user) answers → K.wallet user wallet →
        Replies P contentType bearer K answers (.createWallet body) (.data (walletResource wallet))
  | balance {currency : String} {user : Users} {wallet : Wallet} :
      Admitted contentType bearer (.getBalance currency) (some user) answers → K.wallet user wallet →
        Replies P contentType bearer K answers (.getBalance currency) (.data (walletResource wallet))
  -- the URL is the one that the provider has opened for this call
  | deposited {body : Json} {user : Users} {result : DepositResult} :
      Admitted contentType bearer (.deposit body) (some user) answers →
      (∀ url, result.checkoutUrl = some url → ∃ amount currency paymentMethod transactionId g,
        g.checkoutUrl = some url ∧
          ⟨.money (.processDeposit amount currency paymentMethod transactionId user.id), .ok (.ok g)⟩ ∈ answers) →
        Replies P contentType bearer K answers (.deposit body) (depositReply result)
  -- the others show nothing of an account
  | baseRoute : Replies P contentType bearer K answers .getBaseRoute (.text "Welcome to Lior-Paris Wallet API!")
  | passwordChanged {body : Json} :
      Replies P contentType bearer K answers (.changePassword body) (.message "Password updated successfully" none)
  | deleted {id : String} : Replies P contentType bearer K answers (.deleteUser id) .noContent
  | received {signature : Option String} {constructed : Except String StripeWebhookEvent} :
      Replies P contentType bearer K answers (.handleWebhook signature constructed) .received
  | transferred {body : Json} :
      Replies P contentType bearer K answers (.initiateTransfer body) (.message "Transfer accepted" none)

/-- The call was answered the row. -/
inductive UserSeen (answers : List (Answer Ans Exception)) : Users → Prop where
  | foundByEmail {email : String} {u : Users} :
      ⟨.accounts (.findUserByEmail email), .ok (.ok (some u))⟩ ∈ answers → UserSeen answers u
  | created {data : UserData} {u : Users} :
      ⟨.accounts (.createUser data), .ok (.ok u)⟩ ∈ answers → UserSeen answers u
  | saved {user u : Users} {updateData : PartialUsers} :
      ⟨.accounts (.applyUpdatesAndSave user updateData), .ok (.ok u)⟩ ∈ answers → UserSeen answers u
  | listed {userId : String} {found : UserWithWallets} :
      ⟨.findUserByIdWithWallets userId, .ok (some found)⟩ ∈ answers → UserSeen answers found.user

/-- The call was answered the row of a wallet of the user, or it has read the wallet in the cache under a key of
    the user of its token. -/
inductive WalletSeen (bearer : Option JwtPayload) (answers : List (Answer Ans Exception)) :
    Users → Wallet → Prop where
  | found {user : Users} {wallet : Wallet} {currency : String} : wallet.userId = user.id →
      ⟨.money (.findByUserIdAndCurrency user.id currency), .ok (.ok (some wallet))⟩ ∈ answers →
        WalletSeen bearer answers user wallet
  | saved {user : Users} {wallet : Wallet} {data : WalletData} : wallet.userId = user.id →
      ⟨.money (.saveWallet data), .ok (.ok wallet)⟩ ∈ answers → WalletSeen bearer answers user wallet
  | cached {user : Users} {wallet : Wallet} {currency : String} : Identified bearer user answers →
      ⟨.money (.cacheGet (balanceCacheKey user.id currency)), .ok (.ok (some wallet))⟩ ∈ answers →
        WalletSeen bearer answers user wallet
  | listed {userId : String} {found : UserWithWallets} {wallet : Wallet} : wallet.userId = found.user.id →
      ⟨.findUserByIdWithWallets userId, .ok (some found)⟩ ∈ answers → wallet ∈ found.wallets →
        WalletSeen bearer answers found.user wallet

/-- What a call knows of the rows that it shows. -/
def seen (P : Packages) (bearer : Option JwtPayload) (answers : List (Answer Ans Exception)) : Shown where
  user := UserSeen answers
  own user id := Identified bearer user answers ∧ id = P.collate user.id
  wallet := WalletSeen bearer answers
  page query result := ⟨.findAll query, .ok result⟩ ∈ answers

/-- What a call answers. -/
def Replied (P : Packages) : Request → Reply → List (Answer Ans Exception) → Prop
  | .http contentType bearer route, reply, answers =>
      Replies P contentType bearer (seen P bearer answers) answers route reply
  | .userRegistered _, _, _ => True

/-! ## The calls are informed -/

section Handlers

variable {contentType : String} {bearer : Option JwtPayload} {route : Route} {user : Option Users}
variable {answers answers' : List (Answer Ans Exception)}

theorem Identified.mono {u : Users} (h : Identified bearer u answers) (hsub : answers ⊆ answers') :
    Identified bearer u answers' :=
  let ⟨token, hbearer, hfound, hemail⟩ := h
  ⟨token, hbearer, hsub hfound, hemail⟩

theorem Admitted.mono (h : Admitted contentType bearer route user answers) (hsub : answers ⊆ answers') :
    Admitted contentType bearer route user answers' :=
  { h with identified := fun u hu => (h.identified u hu).mono hsub }

/-- Where the administrators' role is required, an administrator asks. -/
theorem Admitted.admin (h : Admitted contentType bearer route user answers)
    (hroles : route.requiredRoles = some [.admin]) : ∃ u, user = some u ∧ u.role = .admin := by
  obtain ⟨u, hu, hrole⟩ := h.roles _ hroles
  exact ⟨u, hu, List.mem_singleton.mp hrole⟩

theorem mem_of_reports {answers₀ : List (Answer Accounts.Ans Accounts.Exception)}
    (hreports : (accountsComponent P registry).Reports answers₀ answers)
    {o : Accounts.Op} {r : Except Accounts.Exception (Accounts.Ans o)} (h : ⟨o, r⟩ ∈ answers₀) :
    ⟨.accounts o, .ok r⟩ ∈ answers := by
  obtain ⟨a, ha, heq⟩ := hreports _ h
  cases heq
  exact ha

theorem mem_of_reports_money {answers₀ : List (Answer LiorParisWallet.Ans Err)}
    (hreports : (moneyComponent P registry).Reports answers₀ answers)
    {o : LiorParisWallet.Op} {r : Except Err (LiorParisWallet.Ans o)} (h : ⟨o, r⟩ ∈ answers₀) :
    ⟨.money o, .ok r⟩ ∈ answers := by
  obtain ⟨a, ha, heq⟩ := hreports _ h
  cases heq
  exact ha

theorem walletSeen_of_given {answers₀ : List (Answer LiorParisWallet.Ans Err)}
    (hreports : (moneyComponent P registry).Reports answers₀ answers) {u : Users} {wallet : Wallet}
    (h : Given u.id wallet answers₀) : WalletSeen bearer answers u wallet := by
  obtain ⟨howner, ⟨currency, hfound⟩ | ⟨data, hsaved⟩⟩ := h
  · exact .found howner (mem_of_reports_money hreports hfound)
  · exact .saved howner (mem_of_reports_money hreports hsaved)

/-- A service of the accounts, called by a handler. -/
theorem informed_accounts {α : Type} {p : Accounts.Promise α} {task : Task}
    {Q : α → List (Answer Accounts.Ans Accounts.Exception) → Prop}
    (hadmitted : Admitted contentType bearer route user answers) (htask : Tasks P route user task)
    (hp : p.Informed (Accounts.Truthful P) (Accounts.Permits task) Q []) :
    (accounts p).Informed (Truthful P) (Permits P registry (.http contentType bearer route))
      (fun a answers' => Admitted contentType bearer route user answers' ∧ ∃ answers₀,
        (accountsComponent P registry).Reports answers₀ answers' ∧ Q a answers₀) answers := by
  refine Program.Informed.mono (Component.informed_embed (K := accountsComponent P registry) (f := .accounts) hp
    Component.reports_nil (List.Subset.refl answers) (fun _ _ ha => ha) ?_) fun _ _ h => ⟨hadmitted.mono h.1, h.2⟩
  intro answers₀ answers' o hreports hsub ho
  exact .inr ⟨user, task, answers₀, hadmitted.mono hsub, htask, hreports, ho⟩

/-- A service of the money, called by a handler. -/
theorem informed_money {α : Type} {p : LiorParisWallet.Promise α} {req : LiorParisWallet.Request}
    {Q : α → List (Answer LiorParisWallet.Ans Err) → Prop}
    (hadmitted : Admitted contentType bearer route user answers) (horders : Orders P route user req)
    (hp : p.Informed LiorParisWallet.Truthful (LiorParisWallet.Permits req) Q []) :
    (money p).Informed (Truthful P) (Permits P registry (.http contentType bearer route))
      (fun a answers' => Admitted contentType bearer route user answers' ∧ ∃ answers₀,
        (moneyComponent P registry).Reports answers₀ answers' ∧ Q a answers₀) answers := by
  refine Program.Informed.mono (Component.informed_embed (K := moneyComponent P registry) (f := Exception.money) hp
    Component.reports_nil (List.Subset.refl answers) (fun _ _ ha => ha) ?_) fun _ _ h => ⟨hadmitted.mono h.1, h.2⟩
  intro answers₀ answers' o hreports hsub ho
  exact ⟨user, req, answers₀, hadmitted.mono hsub, horders, hreports, ho⟩

section

variable {α β : Type} {Φ : List (Answer Ans Exception) → Op → Prop} {Q : β → List (Answer Ans Exception) → Prop}

/-- The rest of a handler after a pipe has let the request through. -/
theorem informed_checked {x : Except Accounts.Exception α} {f : α → Promise β}
    (hf : ∀ a, x = .ok a → (f a).Informed (Truthful P) Φ Q answers) :
    (checked x >>= f).Informed (Truthful P) Φ Q answers := by
  cases x with
  | ok a => exact hf a rfl
  | error e => trivial

/-- The rest of a handler that needs `req.user`. -/
theorem informed_reqUser {f : Users → Promise β}
    (hf : ∀ u, user = some u → (f u).Informed (Truthful P) Φ Q answers) :
    (reqUser user >>= f).Informed (Truthful P) Φ Q answers := by
  cases user with
  | some u => exact hf u rfl
  | none => trivial

/-- What a handler makes of the answer of its service. -/
theorem informed_reply {p : Promise α} {f : α → β} {R : α → List (Answer Ans Exception) → Prop}
    (hp : p.Informed (Truthful P) Φ R answers) (hf : ∀ a answers', R a answers' → Q (f a) answers') :
    (do return f (← p)).Informed (Truthful P) Φ Q answers :=
  hp.bind fun a answers' h => hf a answers' h

end

theorem handle_informed (hadmitted : Admitted contentType bearer route user answers) :
    (handle P registry user route).Informed (Truthful P) (Permits P registry (.http contentType bearer route))
      (Replied P (.http contentType bearer route)) answers := by
  cases route with
  | getBaseRoute => exact .baseRoute
  | register body =>
    refine informed_checked fun input hinput => ?_
    refine informed_reply (informed_accounts hadmitted (.register hinput) (register_informed input)) ?_
    intro result answers' ⟨_, answers₀, hreports, digest, id, hcreated, heq⟩
    rw [heq]
    have hcreated := mem_of_reports hreports hcreated
    exact .registered hinput hcreated (.created hcreated)
  | login body =>
    refine informed_checked fun input hinput => ?_
    refine informed_reply (informed_accounts hadmitted (.login hinput) (login_informed input)) ?_
    intro result answers' ⟨_, answers₀, hreports, user, hfound, hverified, heq⟩
    rw [heq]
    have hfound := mem_of_reports hreports hfound
    exact .signedIn hinput hfound (mem_of_reports hreports hverified) (.foundByEmail hfound)
  | changePassword body =>
    refine informed_checked fun input hinput => informed_reqUser fun u hu => ?_
    subst hu
    refine informed_reply (informed_accounts hadmitted (.changePassword hinput)
      (changePassword_informed u.id input)) ?_
    rintro _ _ ⟨_, _, _, rfl⟩
    exact .passwordChanged
  | userMe =>
    refine informed_reqUser fun u hu => Program.informed_await ?_ fun found hfound => ?_
    · subst hu
      exact ⟨u, hadmitted, .inl ⟨rfl, rfl⟩⟩
    · subst hu
      cases found with
      | none => trivial
      | some found =>
        refine .me (hadmitted.mono (List.subset_cons_self _ _)) (.listed List.mem_cons_self)
          ⟨(hadmitted.identified u rfl).mono (List.subset_cons_self _ _), hfound.1⟩ ?_
        intro wallet hwallet
        exact .listed ((hfound.2 wallet hwallet).trans hfound.1.symm) List.mem_cons_self hwallet
  | findAll page limit =>
    obtain ⟨u, rfl, hadmin⟩ := hadmitted.admin rfl
    refine Program.informed_await ⟨u, page, limit, hadmitted, rfl⟩ fun result _ => ?_
    exact .page (hadmitted.mono (List.subset_cons_self _ _)) hadmin List.mem_cons_self
  | findUserById id =>
    obtain ⟨u, rfl, hadmin⟩ := hadmitted.admin rfl
    refine informed_checked fun userId hid => ?_
    cases hid
    refine Program.informed_await ⟨u, hadmitted, .inr rfl⟩ fun found hfound => ?_
    cases found with
    | none => trivial
    | some found =>
      refine .found (hadmitted.mono (List.subset_cons_self _ _)) hadmin (.listed List.mem_cons_self) hfound.1 ?_
      intro wallet hwallet
      exact .listed ((hfound.2 wallet hwallet).trans hfound.1.symm) List.mem_cons_self hwallet
  | updateUserDetails id body =>
    refine informed_checked fun data hdata => informed_checked fun userId hid => ?_
    cases hid
    refine informed_reqUser fun u hu => ?_
    subst hu
    refine informed_reply (informed_accounts hadmitted (.updateUserDetails hdata)
      (updateUserDetails_informed u.id id data u.role)) ?_
    intro result answers' ⟨hadmitted', answers₀, hreports, hallowed, target, updateData, row, hsaved, hid, heq⟩
    rw [heq]
    refine .updated hadmitted' (.saved (mem_of_reports hreports hsaved)) hid (hallowed.imp_left fun hself => ?_)
    exact ⟨hadmitted'.identified u rfl, by rw [hid, hself]⟩
  | deleteUser id =>
    refine informed_checked fun userId hid => ?_
    cases hid
    refine informed_reqUser fun u hu => ?_
    subst hu
    exact informed_reply (informed_accounts hadmitted .deleteUser (deleteUser_informed u.id id u.role))
      fun _ _ _ => .deleted
  | createWallet body =>
    refine informed_checked fun input hinput => informed_reqUser fun u hu => ?_
    subst hu
    refine informed_reply (informed_money hadmitted (.createWallet hinput)
      (createWallet_informed u.id u.name input)) ?_
    intro wallet answers' ⟨hadmitted', answers₀, hreports, hgiven⟩
    exact .opened hadmitted' (walletSeen_of_given hreports hgiven)
  | getBalance currency =>
    refine informed_reqUser fun u hu => ?_
    subst hu
    refine informed_reply (informed_money hadmitted .getBalance
      (getBalance_informed u.id (toUpperCase currency))) ?_
    rintro wallet answers' ⟨hadmitted', answers₀, hreports, hgiven | hcached⟩
    · exact .balance hadmitted' (walletSeen_of_given hreports hgiven)
    · exact .balance hadmitted' (.cached (hadmitted'.identified u rfl) (mem_of_reports_money hreports hcached))
  | deposit body =>
    refine informed_checked fun input hinput => informed_reqUser fun u hu => ?_
    subst hu
    refine informed_reply (informed_money hadmitted (.deposit hinput) (deposit_informed registry u.id input)) ?_
    intro result answers' ⟨hadmitted', answers₀, hreports, hcheckout⟩
    refine .deposited hadmitted' fun url hurl => ?_
    obtain ⟨amount, currency, paymentMethod, transactionId, g, hg, hanswered⟩ := hcheckout url hurl
    exact ⟨amount, currency, paymentMethod, transactionId, g, hg, mem_of_reports_money hreports hanswered⟩
  | handleWebhook signature constructed =>
    exact informed_reply
      (informed_money hadmitted .handleWebhook (handleWebhook_informed signature constructed))
      fun _ _ _ => .received
  | initiateTransfer body =>
    refine informed_checked fun input hinput => informed_reqUser fun u hu => ?_
    subst hu
    exact informed_reply
      (informed_money hadmitted (.initiateTransfer hinput) (initiateTransfer_informed u.id u.email input))
      fun _ _ _ => .transferred

/-- The guard looks up the account of the token, and nothing else. -/
theorem guard_informed (contentType : String) (bearer : Option JwtPayload) (route : Route) :
    (JwtAuthGuard.canActivate route bearer).Informed (Truthful P)
      (Permits P registry (.http contentType bearer route))
      (fun user answers => (∀ u, user = some u → Identified bearer u answers) ∧
        (route.isPublic = false → user ≠ none)) [] := by
  unfold JwtAuthGuard.canActivate
  cases hpublic : route.isPublic with
  | true => exact ⟨fun _ => nofun, fun h => nomatch h⟩
  | false =>
    refine Program.Informed.bind (Component.informed_embed (K := accountsComponent P registry) (f := .accounts)
      (canActivate_informed (P := P) bearer) Component.reports_nil (List.Subset.refl []) (fun _ _ ha => ha) ?_)
      fun user answers h => ?_
    rotate_left
    · obtain ⟨-, answers₀, hreports, token, htoken, hfound, hemail⟩ := h
      refine ⟨fun u hu => ?_, fun _ => nofun⟩
      cases hu
      exact ⟨token, htoken, mem_of_reports hreports hfound, hemail⟩
    · intro answers₀ answers' o _ _ ho
      refine .inl ⟨hpublic, ?_⟩
      cases o with
      | findUserByEmail email =>
        rcases ho with ⟨token, heq, rfl⟩ | ⟨input, heq, -⟩ | ⟨input, heq, -⟩
        · cases heq
          exact ⟨token, rfl, rfl⟩
        · cases heq
        · cases heq
      | _ => simp [Accounts.Permits] at ho

theorem roles_of_canActivate {roles : List UserRole}
    (h : RoleGuard.canActivate (some roles) user = .ok ()) : ∃ u, user = some u ∧ u.role ∈ roles := by
  unfold RoleGuard.canActivate at h
  dsimp only at h
  split at h
  · rename_i hany
    obtain ⟨role, hmem, hcontains⟩ := List.any_eq_true.mp hany
    cases user with
    | none => cases hcontains
    | some u =>
      obtain rfl : role = u.role := by simpa [RoleGuard.normalizeUserRoles] using hcontains
      exact ⟨u, rfl, hmem⟩
  · cases h

theorem contentType_of_intercept (h : JsonApiContentTypeInterceptor.intercept route contentType = .ok ())
    (hprivate : route.isPublic = false) (hmethod : route.method = .post ∨ route.method = .patch) :
    "application/vnd.api+json".toList <+: contentType.toList := by
  unfold JsonApiContentTypeInterceptor.intercept at h
  split at h
  · cases h
  · rename_i hcond
    rw [hprivate] at hcond
    simpa [hmethod] using hcond

theorem serve_informed (req : Request) :
    (serve P registry req).Informed (Truthful P) (Permits P registry req) (Replied P req) [] := by
  cases req with
  | http contentType bearer route =>
    refine Program.Informed.bind (guard_informed contentType bearer route) fun user answers huser => ?_
    refine Program.informed_check fun _ hroles => Program.informed_check fun _ hcontent => ?_
    refine handle_informed ⟨huser.1, huser.2, fun roles heq => ?_, contentType_of_intercept hcontent⟩
    rw [heq] at hroles
    exact roles_of_canActivate hroles
  | userRegistered payload =>
    have hensure : (ensureWallet payload.userId defaultCurrency.value payload.name).Informed
        LiorParisWallet.Truthful (LiorParisWallet.Permits (.handleUserRegistered payload))
        (Given payload.userId) [] :=
      ensureWallet_informed rfl rfl
    refine Program.Informed.bind (Component.informed_embed (K := moneyComponent P registry) (f := Exception.money)
      hensure Component.reports_nil (List.Subset.refl []) (fun _ _ ha => ha) ?_) fun _ _ _ => trivial
    exact fun answers₀ answers' o hreports _ ho => ⟨answers₀, hreports, ho⟩

end Handlers

/-- In every run, every operation was performed by a call that knew what permits it. -/
theorem permits_of_reaches {allowed : State → Label Request Choice → Prop} {w : World} {s : State}
    (h : (server P registry).Reaches allowed ⟨w, []⟩ s) : ∀ c ∈ s.calls,
      Justified (Truthful P) (Permits P registry c.request) c.answers ∧
        c.program.Informed (Truthful P) (Permits P registry c.request) (Replied P c.request) c.answers :=
  h.informed truthful_of_perform serve_informed fun _ hc => absurd hc List.not_mem_nil

end LiorParisWallet.Backend
