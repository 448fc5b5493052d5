import LiorParisWallet.Async.Components
import LiorParisWallet.Backend.Bodies
import LiorParisWallet.Backend.World

/-!
# The routes

A request passes `JwtAuthGuard`, `RoleGuard`, the interceptor and the pipes of its route, in this order, and
then its handler calls a service.  The bodies are as the parsers have left them, and of the headers only those
that are read are kept.
-/

namespace LiorParisWallet.Backend

open Async Accounts

/-- The routes of the controllers, the public ones and the others, with their parameters and their bodies.  The page
    for the administration of the queues, which Bull-Board mounts at `/queues`, is none of them. -/
inductive Route where
  /-- `GET /` -/
  | getBaseRoute
  /-- `POST /auth/register` -/
  | register (body : Json)
  /-- `POST /auth/login` -/
  | login (body : Json)
  /-- `POST /auth/password` -/
  | changePassword (body : Json)
  /-- `GET /users/me` -/
  | userMe
  /-- `GET /users`; a parameter that is not a number is `none`. -/
  | findAll (page limit : Option ℤ)
  /-- `GET /users/:id` -/
  | findUserById (id : String)
  /-- `PATCH /users/:id` -/
  | updateUserDetails (id : String) (body : Json)
  /-- `DELETE /users/:id` -/
  | deleteUser (id : String)
  /-- `POST /wallet` -/
  | createWallet (body : Json)
  /-- `GET /wallet/:currency` -/
  | getBalance (currency : String)
  /-- `POST /wallet/deposit` -/
  | deposit (body : Json)
  /-- `POST /stripe/webhook`; `constructed` is what `constructEvent` makes of the body. -/
  | handleWebhook (signature : Option String) (constructed : Except String StripeWebhookEvent)
  /-- `POST /transfers` -/
  | initiateTransfer (body : Json)

inductive Method where
  | get
  | post
  | patch
  | delete
deriving DecidableEq, Repr

namespace Route

def method : Route → Method
  | .getBaseRoute | .userMe | .findAll _ _ | .findUserById _ | .getBalance _ => .get
  | .updateUserDetails _ _ => .patch
  | .deleteUser _ => .delete
  | _ => .post

/-- `@Public()` -/
def isPublic : Route → Bool
  | .getBaseRoute | .register _ | .login _ | .handleWebhook _ _ => true
  | _ => false

/-- `@Roles(…)` -/
def requiredRoles : Route → Option (List UserRole)
  | .findAll _ _ | .findUserById _ => some [.admin]
  | _ => none

end Route

/-! ## What the routes answer -/

/-- The values of the attributes of a resource; the dates are left out. -/
inductive Attribute where
  | string (s : String)
  | number (n : ℤ)
  | token (payload : JwtPayload)
  | wallets (wallets : List Wallet)
deriving DecidableEq, Repr

structure JsonApiResource where
  type : String
  id : String
  attributes : List (String × Attribute)
deriving DecidableEq, Repr

inductive Reply where
  | text (s : String)
  /-- `jsonApiData(resource)` -/
  | data (resource : JsonApiResource)
  /-- `jsonApiData(resources, { meta, links })` -/
  | page (resources : List JsonApiResource) (total : ℕ) (totalPages : PageCount) (prev next : Option PageLink)
  /-- `jsonApiMeta({ message, checkoutUrl })` -/
  | message (message : String) (checkoutUrl : Option String)
  /-- `{ received: true }` -/
  | received
  | noContent
deriving DecidableEq, Repr

def walletResource (wallet : Wallet) : JsonApiResource where
  type := "wallets"
  id := wallet.id
  attributes :=
    [("balance", .number wallet.balance), ("currency", .string wallet.currency),
      ("walletTag", .string wallet.walletTag)]

/-- The resource of a user, with these attributes after the common ones. -/
def userResource (id name email : String) (role : UserRole) (attributes : List (String × Attribute)) :
    JsonApiResource where
  type := "users"
  id := id
  attributes :=
    [("name", .string name), ("email", .string email), ("role", .string role.value)] ++ attributes

/-- The resource that registering, signing in and updating answer with; `access_token` is left out where it
    is `undefined`. -/
def resultResource (result : UserResultDto) : JsonApiResource :=
  userResource result.id result.name result.email result.role
    (match result.access_token with
      | some token => [("access_token", .token token)]
      | none => [])

def walletsResource (found : UserWithWallets) : JsonApiResource :=
  userResource found.user.id found.user.name found.user.email found.user.role
    [("wallets", .wallets found.wallets)]

/-! ## Guards and interceptors -/

/-- A service of the accounts, called by a handler. -/
def accounts {α : Type} (p : Accounts.Promise α) : Promise α :=
  p.embed .accounts (fun _ => id) .accounts

/-- A service of the money, called by a handler. -/
def money {α : Type} (p : LiorParisWallet.Promise α) : Promise α :=
  p.embed .money (fun _ => id) .money

/-- A pipe of the accounts. -/
def checked {α : Type} (x : Except Accounts.Exception α) : Promise α :=
  .ofExcept (x.mapError .accounts)

/-- `JwtAuthGuard`: a public route is let through, and `req.user` is not set. -/
def JwtAuthGuard.canActivate (route : Route) (bearer : Option JwtPayload) : Promise (Option Users) :=
  if route.isPublic then return none
  else do
    let user ← accounts (Accounts.JwtAuthGuard.canActivate bearer)
    return some user

def RoleGuard.normalizeUserRoles (rawRole : Option UserRole) : List UserRole :=
  rawRole.toList

def RoleGuard.canActivate (requiredRoles : Option (List UserRole)) (user : Option Users) :
    Except Exception Unit :=
  match requiredRoles with
  | none => .ok ()
  | some requiredRoles =>
      let userRoles := normalizeUserRoles (user.map (·.role))
      if requiredRoles.any userRoles.contains then .ok ()
      else .error (.money (.forbidden "You do not have permission to access this resource"))

def JsonApiContentTypeInterceptor.intercept (route : Route) (contentType : String) : Except Exception Unit :=
  if !route.isPublic && (route.method = .post || route.method = .patch) &&
      !"application/vnd.api+json".toList.isPrefixOf contentType.toList then
    .error (.unsupportedMediaType "Content-Type must be application/vnd.api+json")
  else .ok ()

/-! ## Handlers -/

/-- `req.user`; reading a property of it throws where it is not set. -/
def reqUser : Option Users → Promise Users
  | some user => return user
  | none => throw (.money .typeError)

/-- `s.toUpperCase()`, as far as a currency can come of it. -/
def toUpperCase (s : String) : String :=
  String.ofList (s.toList.map fun c => if c = 'ſ' then 'S' else c.toUpper)

/-- `result.checkoutUrl`, where an empty string counts as missing. -/
def depositReply (result : DepositResult) : Reply :=
  match result.checkoutUrl.filter (· ≠ "") with
  | some checkoutUrl => .message "Deposit initiated — complete payment via checkout URL" (some checkoutUrl)
  | none => .message "Deposit accepted" none

/-- The document of `findAll`, made of what the service has answered. -/
def pageReply (pageNumber limitNumber : ℤ) (result : PaginatedResultDto UserResource) : Reply :=
  let totalPages := totalPages result.total limitNumber
  .page (result.data.map fun user => userResource user.id user.name user.email user.role []) result.total
    totalPages (if pageNumber > 1 then some ⟨pageNumber - 1, limitNumber⟩ else none)
    (if totalPages.exceeds pageNumber then some ⟨pageNumber + 1, limitNumber⟩ else none)

def handle (P : Packages) (registry : PaymentGatewayRegistry) (user : Option Users) : Route → Promise Reply
  | .getBaseRoute => return .text "Welcome to Lior-Paris Wallet API!"
  | .register body => do
      let input ← checked (parseBody P (registerDto P) (registerSchema P) body)
      return .data (resultResource (← accounts (AuthService.register input)))
  | .login body => do
      let input ← checked (parseBody P (loginDto P) (loginSchema P) body)
      return .data (resultResource (← accounts (AuthService.login input)))
  | .changePassword body => do
      let input ← checked (parseBody P (changePasswordDto P) changePasswordSchema body)
      let user ← reqUser user
      return .message (← accounts (AuthService.changePassword user.id input)) none
  | .userMe => do
      let user ← reqUser user
      match ← await (.findUserByIdWithWallets user.id) with
      | some found => return .data (walletsResource found)
      -- `mapResult(null)`
      | none => throw (.money .typeError)
  | .findAll page limit => do
      let pageNumber := page.getD 1
      let limitNumber := limit.getD 10
      let result ← await (.findAll (PaginationQueryDto.new pageNumber limitNumber))
      return pageReply pageNumber limitNumber result
  | .findUserById id => do
      let id ← checked (parseId id)
      match ← await (.findUserByIdWithWallets id) with
      | some found => return .data (walletsResource found)
      | none => throw (.accounts (userNotFound id))
  | .updateUserDetails id body => do
      let data ← checked (parseBody P updateUserDto updateUserSchema body)
      let id ← checked (parseId id)
      let user ← reqUser user
      return .data (resultResource
        (← accounts (UsersService.updateUserDetails user.id id data.updateData user.role)))
  | .deleteUser id => do
      let id ← checked (parseId id)
      let user ← reqUser user
      accounts (UsersService.deleteUser user.id id user.role)
      return .noContent
  | .createWallet body => do
      let input ← checked (parseDto P createWalletDto createWalletInput body)
      let user ← reqUser user
      return .data (walletResource (← money (createWallet user.id user.name input)))
  | .getBalance currency => do
      let user ← reqUser user
      return .data (walletResource (← money (getBalance user.id (toUpperCase currency))))
  | .deposit body => do
      let input ← checked (parseDto P depositDto depositInput body)
      let user ← reqUser user
      return depositReply (← money (deposit registry user.id input))
  | .handleWebhook signature constructed => do
      money (handleWebhook signature constructed)
      return .received
  | .initiateTransfer body => do
      let input ← checked (parseDto P initiateTransferDto initiateTransferInput body)
      let user ← reqUser user
      money (initiateTransfer user.id user.email input)
      return .message "Transfer accepted" none

/-! ## The server -/

/-- What is asked of the server: a request with its `Content-Type` and its bearer token, or the listener by
    the event emitter. -/
inductive Request where
  | http (contentType : String) (bearer : Option JwtPayload) (route : Route)
  /-- `WalletEventListener.handleUserRegistered` -/
  | userRegistered (payload : UserRegisteredPayload)

def serve (P : Packages) (registry : PaymentGatewayRegistry) : Request → Promise Reply
  | .http contentType bearer route => do
      let user ← JwtAuthGuard.canActivate route bearer
      .ofExcept (RoleGuard.canActivate route.requiredRoles user)
      .ofExcept (JsonApiContentTypeInterceptor.intercept route contentType)
      handle P registry user route
  | .userRegistered payload => do
      let _ ← money (ensureWallet payload.userId defaultCurrency.value payload.name)
      return .noContent

def server (P : Packages) (registry : PaymentGatewayRegistry) :
    Server Op Ans Exception Request Reply Choice World where
  serve := serve P registry
  perform := perform P

abbrev State := System Op Ans Exception Request Reply World

/-- The listener is called with what has been emitted. -/
def Wired (s : State) : Label Request Choice → Prop
  | .start (.userRegistered payload) => payload ∈ s.world.accounts.emitted
  | _ => True

deriving instance DecidableEq for UserRegisteredPayload

instance (s : State) (l : Label Request Choice) : Decidable (Wired s l) :=
  match l with
  | .start (.userRegistered payload) => inferInstanceAs (Decidable (payload ∈ s.world.accounts.emitted))
  | .start (.http _ _ _) => .isTrue trivial
  | .step _ _ => .isTrue trivial

/-- A state that some run of the server reaches. -/
def Reachable (P : Packages) (registry : PaymentGatewayRegistry) (s : State) : Prop :=
  ∃ w : World, w.Initial P ∧ (server P registry).Reaches Wired ⟨w, []⟩ s

/-! ## A day

Bob registers, and a wallet is opened for him; Ada opens hers.  Bob pays in 50 by card, sends Ada 20, takes a
new password and signs in with it, and Ada looks at her balance.  Then the administrator deletes Bob. -/

def startWorld : World where
  accounts := Accounts.startWorld
  money := .fresh Accounts.startWorld.users
  users := rfl

theorem startWorld_initial : startWorld.Initial plainPackages :=
  ⟨Accounts.startWorld_initial, World.fresh_initial _⟩

def anonymously (route : Route) : Label Request Choice := .start (.http "" none route)

def asked (bearer : JwtPayload) (route : Route) : Label Request Choice :=
  .start (.http "application/vnd.api+json" (some bearer) route)

def steps (i : ℕ) (ωs : List Choice) : List (Label Request Choice) := ωs.map (.step i ·)

/-- The next row gets this id. -/
def uuid (id : String) : Choice where
  accounts := { uuid := id }
  money := { uuid := id }

/-- The provider opens this checkout session. -/
def session (id : String) : Choice where
  money :=
    { gateway := .ok
        { success := true
          providerRef := some id
          checkoutUrl := some id
          requiresWebhook := true } }

def bobToken : JwtPayload := ⟨"bob", "bob@example.com"⟩

def registration : Json :=
  .object [("name", .string "Bob"), ("email", .string "bob@example.com"), ("password", .string "bob00")]

def euroWallet : Json := .object [("currency", .string "EUR")]

def topUp : Json :=
  .object [("amount", .number "50"), ("currency", .string "EUR"), ("paymentMethod", .string "stripe"),
    ("idempotencyKey", .string "topup")]

def rent : Json :=
  .object [("toWalletTag", .string "ada-0000"), ("amount", .number "20"), ("currency", .string "EUR"),
    ("idempotencyKey", .string "rent")]

def passwords : Json := .object [("oldPassword", .string "bob00"), ("newPassword", .string "bob11")]

def credentials : Json := .object [("email", .string "bob@example.com"), ("password", .string "bob11")]

def day : List (Label Request Choice) :=
  anonymously (.register registration) :: steps 0 [{}, {}, uuid "bob", {}] ++
    .start (.userRegistered ⟨"bob", "bob@example.com", "Bob"⟩) :: steps 1 [{}, {}, uuid "w1"] ++
    asked adaToken (.createWallet euroWallet) :: steps 2 [{}, {}, {}, {}, uuid "w2"] ++
    asked bobToken (.deposit topUp) :: steps 3 [{}, {}, {}, uuid "t1", session "cs1", {}] ++
    anonymously (.handleWebhook (some "signature")
      (.ok ⟨"event", "checkout.session.completed", "cs1", some "paid"⟩)) ::
        steps 4 [{}, {}, {}, {}, uuid "e1", {}] ++
    asked bobToken (.initiateTransfer rent) ::
      steps 5 [{}, {}, {}, {}, {}, {}, uuid "x1", {}, uuid "e2", {}, {}] ++
    asked bobToken (.changePassword passwords) :: steps 6 [{}, {}, {}, {}, {}, {}] ++
    anonymously (.login credentials) :: steps 7 [{}, {}] ++
    asked adaToken (.getBalance "eur") :: steps 8 [{}, {}, {}, {}]

def departure : List (Label Request Choice) := asked rootToken (.deleteUser "bob") :: steps 9 [{}, {}, {}]

end LiorParisWallet.Backend
