import LiorParisWallet.Accounts.World
import LiorParisWallet.Services.Users

/-!
# The services of the accounts

`AuthService`, `UsersService` with its policy, `JwtStrategy`, and the routes over them.  A token stands
for its payload: that only tokens which the server has signed and which have not expired get through is
what the JWT package sees to.  `RoleGuard` lets every caller of these routes pass, and the `catch` blocks
log the error and throw it again.
-/

namespace LiorParisWallet.Accounts

open Async

/-- What `createLoginToken` signs. -/
structure JwtPayload where
  userId : String
  email : String
deriving DecidableEq, Repr

structure UserResultDto where
  id : String
  name : String
  email : String
  role : UserRole
  access_token : Option JwtPayload
deriving DecidableEq, Repr

def mapResult (user : Users) (accessToken : Option JwtPayload) : UserResultDto where
  id := user.id
  name := user.name
  email := user.email
  role := user.role
  access_token := accessToken

/-- `User with ID ${userId} not found` -/
def userNotFound (userId : String) : Exception :=
  .other (.notFound ("User with ID " ++ userId ++ " not found"))

def invalidCredentials : Exception := .unauthorized "Invalid credentials provided"

/-! ## `users.policy.ts` -/

namespace UsersPolicy

def ensureCanUpdateUser (requestingUserId targetUserId : String) (role : UserRole) :
    Except Exception Unit :=
  if requestingUserId = targetUserId ∨ role = .admin then .ok ()
  else .error (.other (.forbidden "You do not have permission to update user"))

def ensureCanUpdateRole (role : UserRole) : Except Exception Unit :=
  if role = .admin then .ok ()
  else .error (.other (.forbidden "You do not have permission to update role"))

def ensureCanDeleteUser (requestingUserId targetUserId : String) (role : UserRole) :
    Except Exception Unit :=
  (LiorParisWallet.ensureCanDeleteUser requestingUserId targetUserId role).mapError .other

def sanitizeUpdateData (updateData : PartialUsers) (role : UserRole) : PartialUsers :=
  { updateData with
    password := none
    email := none
    role := if role = .admin then updateData.role else none }

end UsersPolicy

/-! ## `users.repository.ts` and `users.service.ts` -/

def UsersRepository.updateUserDetails (id : String) (updateData : PartialUsers) : Promise Users := do
  match ← await (.findUserById id) with
  | some user => await (.applyUpdatesAndSave user updateData)
  -- `Object.assign(null, updateData)`
  | none => throw (.other .typeError)

namespace UsersService

def updateUserPassword (userId : String) (password : String) : Promise Users :=
  UsersRepository.updateUserDetails userId { password := some password }

def findById (userId : String) : Promise Users := do
  match ← await (.findUserById userId) with
  | some user => return user
  | none => throw (userNotFound userId)

def updateUserDetails (requestingUserId targetUserId : String) (updateData : PartialUsers)
    (role : UserRole) : Promise UserResultDto := do
  let _ ← findById targetUserId
  .ofExcept (UsersPolicy.ensureCanUpdateUser requestingUserId targetUserId role)
  if updateData.role.isSome then
    .ofExcept (UsersPolicy.ensureCanUpdateRole role)
  let updatedUser ← UsersRepository.updateUserDetails targetUserId
    (UsersPolicy.sanitizeUpdateData updateData role)
  return mapResult updatedUser none

def deleteUser (requestingUserId targetUserId : String) (role : UserRole) : Promise Unit := do
  let _ ← findById targetUserId
  .ofExcept (UsersPolicy.ensureCanDeleteUser requestingUserId targetUserId role)
  await (.deleteUser targetUserId)

end UsersService

/-! ## `auth.service.ts` and `jwt.strategy.ts` -/

namespace AuthService

def createLoginToken (userId email : String) : JwtPayload := ⟨userId, email⟩

def checkDuplicateEmail (email : String) : Promise Unit := do
  if (← await (.findUserByEmail email)).isSome then
    throw (.other (.conflict "Email already in use."))

def register (input : Register) : Promise UserResultDto := do
  checkDuplicateEmail input.email
  let hashedPassword ← await (.hash input.password.value)
  let savedUser ← await (.createUser
    { name := input.name
      email := input.email
      password := hashedPassword
      role := .user })
  await (.emit
    { userId := savedUser.id
      email := savedUser.email
      name := savedUser.name })
  return mapResult savedUser (some (createLoginToken savedUser.id savedUser.email))

def login (input : Login) : Promise UserResultDto := do
  match ← await (.findUserByEmail input.email) with
  | none => throw invalidCredentials
  | some user =>
      let isPasswordMatch ← await (.verify user.password input.password.value)
      if isPasswordMatch then
        return mapResult user (some (createLoginToken user.id user.email))
      else throw invalidCredentials

def changePassword (userId : String) (input : ChangePassword) : Promise String := do
  let user ← UsersService.findById userId
  let isPasswordMatch ← await (.verify user.password input.oldPassword.value)
  if isPasswordMatch then
    let hashedPassword ← await (.hash input.newPassword.value)
    let _ ← UsersService.updateUserPassword userId hashedPassword
    return "Password updated successfully"
  else throw invalidCredentials

end AuthService

def JwtStrategy.validate (payload : JwtPayload) : Promise Users := do
  match ← await (.findUserByEmail payload.email) with
  | some user => return user
  | none => throw (.unauthorized "Unauthorized")

/-- `JwtAuthGuard`, for a route that is not public: it sets `req.user`. -/
def JwtAuthGuard.canActivate : Option JwtPayload → Promise Users
  | some payload => JwtStrategy.validate payload
  | none => throw (.unauthorized "Unauthorized")

/-! ## `auth.controller.ts` and `users.controller.ts` -/

/-- A request with its bearer token and its body. -/
inductive Request where
  /-- `POST /auth/register` -/
  | register (body : Json)
  /-- `POST /auth/login` -/
  | login (body : Json)
  /-- `POST /auth/password` -/
  | changePassword (bearer : Option JwtPayload) (body : Json)
  /-- `PATCH /users/:id` -/
  | updateUserDetails (bearer : Option JwtPayload) (id : String) (body : Json)
  /-- `DELETE /users/:id` -/
  | deleteUser (bearer : Option JwtPayload) (id : String)

inductive Reply where
  | user (result : UserResultDto)
  | message (message : String)
  | done
deriving DecidableEq, Repr

/-- The body of `PATCH /users/:id` as a `Partial<Users>`. -/
def UpdateUserDto.updateData (data : UpdateUserDto) : PartialUsers :=
  { name := data.name
    role := data.role }

def serve (P : Packages) : Request → Promise Reply
  | .register body => do
      let input ← .ofExcept (parseBody P (registerDto P) (registerSchema P) body)
      return .user (← AuthService.register input)
  | .login body => do
      let input ← .ofExcept (parseBody P (loginDto P) (loginSchema P) body)
      return .user (← AuthService.login input)
  | .changePassword bearer body => do
      -- the guards come before the pipes
      let user ← JwtAuthGuard.canActivate bearer
      let input ← .ofExcept (parseBody P (changePasswordDto P) changePasswordSchema body)
      return .message (← AuthService.changePassword user.id input)
  | .updateUserDetails bearer id body => do
      let user ← JwtAuthGuard.canActivate bearer
      let data ← .ofExcept (parseBody P updateUserDto updateUserSchema body)
      let id ← .ofExcept (parseId id)
      return .user (← UsersService.updateUserDetails user.id id data.updateData user.role)
  | .deleteUser bearer id => do
      let user ← JwtAuthGuard.canActivate bearer
      let id ← .ofExcept (parseId id)
      UsersService.deleteUser user.id id user.role
      return .done

def server (P : Packages) : Server Op Ans Exception Request Reply Choice World where
  serve := serve P
  perform _ := perform P

theorem performs {P : Packages} {i : ℕ} {o : Op} {ω : Choice} {w w' : World} {r : Except Exception (Ans o)}
    (h : (server P).perform i o ω w = some (r, w')) : Effect P w o r w' :=
  effect_of_perform h

abbrev State := System Op Ans Exception Request Reply World

/-- A world in which nothing has been deleted yet.  It may have users, administrators among them, and
    their ids have been generated. -/
structure World.Initial (P : Packages) (w : World) : Prop where
  deleted : w.deleted = []
  issued : ∀ u ∈ w.users, u.id ∈ w.issued
  spelled : ∀ id ∈ w.issued, P.collate id = id

/-- A state that some run reaches from an initial world. -/
def Reachable (P : Packages) (s : State) : Prop :=
  ∃ w : World, w.Initial P ∧ (server P).Reaches Server.Any ⟨w, []⟩ s

/-! ## Packages and requests to try

A digest is the salt with the password after it, and the database keeps ids in lower case. -/

def plainPackages : Packages where
  hash salt password := salt ++ password
  verify digest password := password.toList.isSuffixOf digest.toList
  plainToInstance := id
  isEmail s := s.toList.contains '@'
  isAlphanumeric s := s.toList.all (·.isAlphanum)
  isLength s min max := decide (min ≤ s.length ∧ s.length ≤ max)
  zodEmail s := s.toList.contains '@'
  collate s := String.ofList (s.toList.map Char.toLower)

def registration (name email password : String) : Request :=
  .register (.object [("name", .string name), ("email", .string email), ("password", .string password)])

/-- In a JSON:API envelope. -/
def signIn (email password : String) : Request :=
  .login (.object [("data", .object [("type", .string "auth"),
    ("attributes", .object [("email", .string email), ("password", .string password)])])])

def newPassword (bearer : JwtPayload) (oldPassword newPassword : String) : Request :=
  .changePassword (some bearer)
    (.object [("oldPassword", .string oldPassword), ("newPassword", .string newPassword)])

def rename (bearer : JwtPayload) (id name : String) : Request :=
  .updateUserDetails (some bearer) id (.object [("name", .string name)])

/-- A call that runs through without interruption. -/
def steps (i : ℕ) (ωs : List Choice) : List (Label Request Choice) :=
  ωs.map (.step i ·)

def root : Users := ⟨"root", "Root", "root@example.com", "salt-toor0", .admin⟩

def ada : Users := ⟨"ada", "Ada", "ada@example.com", "salt-ada00", .user⟩

def rootToken : JwtPayload := ⟨"root", "root@example.com"⟩

def adaToken : JwtPayload := ⟨"ada", "ada@example.com"⟩

/-- The world before a run, with an administrator and a user. -/
def startWorld : World where
  users := ⟨[root, ada], by decide⟩
  deleted := []
  issued := ["root", "ada"]
  emitted := []

theorem startWorld_initial : startWorld.Initial plainPackages where
  deleted := rfl
  issued := by
    show ∀ u ∈ [root, ada], u.id ∈ ["root", "ada"]
    decide
  spelled := by
    show ∀ id ∈ ["root", "ada"], plainPackages.collate id = id
    decide +kernel

end LiorParisWallet.Accounts
