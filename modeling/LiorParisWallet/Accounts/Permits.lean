import LiorParisWallet.Accounts.Identity
import LiorParisWallet.Async.Knowledge

/-!
# What a service knows when it touches an account

`Permits task answers o` is what a service has been answered when it awaits `o`.  An account is created with
the hash of the password that was sent, a password is replaced when the old one was verified, and updates and
deletions have passed the policy.
-/

namespace LiorParisWallet.Accounts

open Async Relational

/-- What is asked of the services. -/
inductive Task where
  | authenticate (bearer : Option JwtPayload)
  | register (input : Register)
  | login (input : Login)
  | changePassword (userId : String) (input : ChangePassword)
  | updateUserDetails (requestingUserId targetUserId : String) (data : UpdateUserDto) (role : UserRole)
  | deleteUser (requestingUserId targetUserId : String) (role : UserRole)

/-- What an operation can answer, in whatever world. -/
def Truthful (P : Packages) : Answer Ans Exception → Prop
  | ⟨.findUserByEmail email, .ok (some u)⟩ => u.email = email
  | ⟨.findUserById userId, .ok (some u)⟩ => u.id = P.collate userId
  | ⟨.createUser data, .ok u⟩ => ∃ id, u = data.create id
  | ⟨.applyUpdatesAndSave user updateData, .ok u⟩ => u = assign user updateData
  | ⟨.hash password, .ok digest⟩ => ∃ salt, digest = P.hash salt password
  | ⟨.verify digest password, .ok isMatch⟩ => isMatch = P.verify digest password
  | _ => True

variable {P : Packages}

theorem truthful_of_effect {w w' : World} {o : Op} {r : Except Exception (Ans o)}
    (h : Effect P w o r w') : Truthful P ⟨o, r⟩ := by
  cases h with
  | failed o e => cases o <;> trivial
  | findUserByEmail email =>
    cases hfound : w.findUserByEmail email with
    | none => trivial
    | some u => exact (mem_of_findUserByEmail hfound).2
  | findUserById userId =>
    cases hfound : w.findUserById (P.collate userId) with
    | none => trivial
    | some u => exact (mem_of_findUserById hfound).2
  | createUser => exact ⟨_, rfl⟩
  | applyUpdatesAndSave => rfl
  | hash password salt => exact ⟨salt, rfl⟩
  | verify => rfl
  | _ => trivial

/-- The columns of the account that `register` creates. -/
def Register.data (input : Register) (digest : String) : UserData where
  name := input.name
  email := input.email
  password := digest
  role := .user

/-- The digest was computed of the password. -/
def Hashed (password digest : String) (answers : List (Answer Ans Exception)) : Prop :=
  ⟨.hash password, .ok digest⟩ ∈ answers

/-- The password was verified against the digest of the user. -/
def Verified (user : Users) (password : String) (answers : List (Answer Ans Exception)) : Prop :=
  ⟨.verify user.password password, .ok true⟩ ∈ answers

def Permits (task : Task) (answers : List (Answer Ans Exception)) : Op → Prop
  | .findUserByEmail email => (∃ token, task = .authenticate (some token) ∧ email = token.email) ∨
      (∃ input, task = .register input ∧ email = input.email) ∨
        ∃ input, task = .login input ∧ email = input.email
  | .findUserById id => (∃ input, task = .changePassword id input) ∨
      (∃ requestingUserId data role, task = .updateUserDetails requestingUserId id data role) ∨
        ∃ requestingUserId role, task = .deleteUser requestingUserId id role
  | .verify digest password => (∃ input user, task = .login input ∧ password = input.password.value ∧
        digest = user.password ∧ ⟨.findUserByEmail input.email, .ok (some user)⟩ ∈ answers) ∨
      ∃ userId input user, task = .changePassword userId input ∧ password = input.oldPassword.value ∧
        digest = user.password ∧ ⟨.findUserById userId, .ok (some user)⟩ ∈ answers
  | .hash password => (∃ input, task = .register input ∧ password = input.password.value) ∨
      ∃ userId input user, task = .changePassword userId input ∧ password = input.newPassword.value ∧
        Verified user input.oldPassword.value answers
  | .createUser data => ∃ input digest, task = .register input ∧ data = input.data digest ∧
      ⟨.findUserByEmail input.email, .ok none⟩ ∈ answers ∧ Hashed input.password.value digest answers
  | .emit payload => ∃ input digest user, task = .register input ∧
      ⟨.createUser (Register.data input digest), .ok user⟩ ∈ answers ∧
        payload = ⟨user.id, user.email, user.name⟩
  -- the row that is saved is one that was read
  | .applyUpdatesAndSave user updateData => ∃ id, ⟨.findUserById id, .ok (some user)⟩ ∈ answers ∧
      ((∃ input old digest, task = .changePassword id input ∧ updateData = { password := some digest } ∧
        ⟨.findUserById id, .ok (some old)⟩ ∈ answers ∧
          Verified old input.oldPassword.value answers ∧ Hashed input.newPassword.value digest answers) ∨
      ∃ requestingUserId data role, task = .updateUserDetails requestingUserId id data role ∧
        (requestingUserId = id ∨ role = .admin) ∧ (data.role.isSome → role = .admin) ∧
          updateData = UsersPolicy.sanitizeUpdateData (UpdateUserDto.updateData data) role)
  | .deleteUser id => ∃ requestingUserId, task = .deleteUser requestingUserId id .admin ∧
      requestingUserId ≠ id

/-- The token was that of a stored account. -/
def Authenticated (bearer : Option JwtPayload) (user : Users) (answers : List (Answer Ans Exception)) : Prop :=
  ∃ token, bearer = some token ∧ ⟨.findUserByEmail token.email, .ok (some user)⟩ ∈ answers ∧
    user.email = token.email

/-- The token of the result was given for an account that has just been created. -/
def Registered (input : Register) (result : UserResultDto) (answers : List (Answer Ans Exception)) : Prop :=
  ∃ digest id, ⟨.createUser (input.data digest), .ok ((input.data digest).create id)⟩ ∈ answers ∧
    result = mapResult ((input.data digest).create id) (some ⟨id, input.email⟩)

/-- The token of the result was given for an account of which the password was verified. -/
def SignedIn (input : Login) (result : UserResultDto) (answers : List (Answer Ans Exception)) : Prop :=
  ∃ user, ⟨.findUserByEmail input.email, .ok (some user)⟩ ∈ answers ∧
    Verified user input.password.value answers ∧ result = mapResult user (some ⟨user.id, user.email⟩)

/-- The result is the row that was saved under the id. -/
def Updated (P : Packages) (id : String) (result : UserResultDto) (answers : List (Answer Ans Exception)) : Prop :=
  ∃ user updateData row, ⟨.applyUpdatesAndSave user updateData, .ok row⟩ ∈ answers ∧ row.id = P.collate id ∧
    result = mapResult row none

section Services

variable {answers : List (Answer Ans Exception)}

theorem canActivate_informed (bearer : Option JwtPayload) :
    (JwtAuthGuard.canActivate bearer).Informed (Truthful P) (Permits (.authenticate bearer))
      (Authenticated bearer) answers := by
  cases bearer with
  | none => trivial
  | some token =>
    refine Program.informed_await (.inl ⟨token, rfl, rfl⟩) fun found hfound => ?_
    cases found with
    | none => trivial
    | some user => exact ⟨token, rfl, List.mem_cons_self, hfound⟩

theorem findById_informed {task : Task} {userId : String} (h : Permits task answers (.findUserById userId)) :
    (UsersService.findById userId).Informed (Truthful P) (Permits task)
      (fun user answers' => answers ⊆ answers' ∧ user.id = P.collate userId ∧
        ⟨.findUserById userId, .ok (some user)⟩ ∈ answers') answers := by
  refine Program.informed_await h fun found hfound => ?_
  cases found with
  | none => trivial
  | some user => exact ⟨List.subset_cons_self _ _, hfound, List.mem_cons_self⟩

/-- The row that is saved is the one that has just been read. -/
theorem saved_informed {task : Task} {id : String} {updateData : PartialUsers}
    (hfind : Permits task answers (.findUserById id))
    (hsave : ∀ user answers', answers ⊆ answers' →
      ⟨.findUserById id, .ok (some user)⟩ ∈ answers' →
        Permits task answers' (.applyUpdatesAndSave user updateData)) :
    (UsersRepository.updateUserDetails id updateData).Informed (Truthful P) (Permits task)
      (fun u answers' => ∃ user, user.id = P.collate id ∧ u = assign user updateData ∧
        ⟨.applyUpdatesAndSave user updateData, .ok u⟩ ∈ answers') answers := by
  refine Program.informed_await hfind fun found hfound => ?_
  cases found with
  | none => trivial
  | some user =>
    exact Program.informed_call (hsave user _ (List.subset_cons_self _ _) List.mem_cons_self)
      fun u hu => ⟨user, hfound, hu, List.mem_cons_self⟩

theorem register_informed (input : Register) :
    (AuthService.register input).Informed (Truthful P) (Permits (.register input)) (Registered input)
      answers := by
  refine Program.Informed.bind (Q := fun _ answers' => ⟨.findUserByEmail input.email, .ok none⟩ ∈ answers')
    ?_ fun _ answers₁ hnone => ?_
  · refine Program.informed_await (.inr (.inl ⟨input, rfl, rfl⟩)) fun found _ => ?_
    cases found with
    | some user => trivial
    | none => exact List.mem_cons_self
  · refine Program.informed_await (.inl ⟨input, rfl, rfl⟩) fun digest _ => ?_
    refine Program.informed_await ?_ fun user huser => ?_
    · exact ⟨input, digest, rfl, rfl, List.mem_cons_of_mem _ hnone, List.mem_cons_self⟩
    · refine Program.informed_await ⟨input, digest, user, rfl, List.mem_cons_self, rfl⟩ fun _ _ => ?_
      obtain ⟨id, rfl⟩ := huser
      exact ⟨digest, id, List.mem_cons_of_mem _ List.mem_cons_self, rfl⟩

theorem login_informed (input : Login) :
    (AuthService.login input).Informed (Truthful P) (Permits (.login input)) (SignedIn input) answers := by
  refine Program.informed_await (.inr (.inr ⟨input, rfl, rfl⟩)) fun found _ => ?_
  cases found with
  | none => trivial
  | some user =>
    refine Program.informed_await (.inl ⟨input, user, rfl, rfl, rfl, List.mem_cons_self⟩)
      fun isPasswordMatch _ => ?_
    cases isPasswordMatch with
    | false => trivial
    | true => exact ⟨user, List.mem_cons_of_mem _ List.mem_cons_self, List.mem_cons_self, rfl⟩

theorem changePassword_informed (userId : String) (input : ChangePassword) :
    (AuthService.changePassword userId input).Informed (Truthful P) (Permits (.changePassword userId input))
      (fun message _ => message = "Password updated successfully") answers := by
  refine Program.Informed.bind (findById_informed (.inl ⟨input, rfl⟩)) fun user answers₁ h₁ => ?_
  obtain ⟨-, -, hfound⟩ := h₁
  refine Program.informed_await (.inr ⟨userId, input, user, rfl, rfl, rfl, hfound⟩) fun isPasswordMatch _ => ?_
  cases isPasswordMatch with
  | false => trivial
  | true =>
    refine Program.informed_await ?_ fun digest _ => ?_
    · exact .inr ⟨userId, input, user, rfl, rfl, List.mem_cons_self⟩
    refine Program.Informed.bind (saved_informed (.inl ⟨input, rfl⟩) fun saved answers₂ hsub hread => ?_)
      fun _ _ _ => rfl
    refine ⟨userId, hread, .inl ?_⟩
    exact ⟨input, user, digest, rfl, rfl,
      hsub (List.mem_cons_of_mem _ (List.mem_cons_of_mem _ hfound)),
      hsub (List.mem_cons_of_mem _ List.mem_cons_self), hsub List.mem_cons_self⟩

theorem ensureCanUpdateUser_eq_ok {requestingUserId targetUserId : String} {role : UserRole}
    (h : UsersPolicy.ensureCanUpdateUser requestingUserId targetUserId role = .ok ()) :
    requestingUserId = targetUserId ∨ role = .admin := by
  unfold UsersPolicy.ensureCanUpdateUser at h
  split at h
  · assumption
  · cases h

theorem ensureCanUpdateRole_eq_ok {role : UserRole} (h : UsersPolicy.ensureCanUpdateRole role = .ok ()) :
    role = .admin := by
  unfold UsersPolicy.ensureCanUpdateRole at h
  split at h
  · assumption
  · cases h

theorem ensureCanDeleteUser_eq_ok {requestingUserId targetUserId : String} {role : UserRole}
    (h : UsersPolicy.ensureCanDeleteUser requestingUserId targetUserId role = .ok ()) :
    requestingUserId ≠ targetUserId ∧ role = .admin := by
  unfold UsersPolicy.ensureCanDeleteUser ensureCanDeleteUser at h
  by_cases hself : requestingUserId = targetUserId
  · rw [if_pos hself] at h
    cases h
  · rw [if_neg hself] at h
    by_cases hrole : role = .admin
    · exact ⟨hself, hrole⟩
    · rw [if_pos hrole] at h
      cases h

theorem updateUserDetails_informed (requestingUserId id : String) (data : UpdateUserDto) (role : UserRole) :
    (UsersService.updateUserDetails requestingUserId id data.updateData role).Informed (Truthful P)
      (Permits (.updateUserDetails requestingUserId id data role))
      (fun result answers' => (requestingUserId = id ∨ role = .admin) ∧ Updated P id result answers') answers := by
  refine Program.Informed.bind
    (findById_informed (.inr (.inl ⟨requestingUserId, data, role, rfl⟩))) fun _ answers₁ _ => ?_
  refine Program.informed_check fun _ hcan => ?_
  have hallowed := ensureCanUpdateUser_eq_ok hcan
  have hsaved : (data.role.isSome → role = .admin) → (do
      let updatedUser ← UsersRepository.updateUserDetails id
        (UsersPolicy.sanitizeUpdateData data.updateData role)
      return mapResult updatedUser none : Promise UserResultDto).Informed (Truthful P)
        (Permits (.updateUserDetails requestingUserId id data role))
        (fun result answers' => (requestingUserId = id ∨ role = .admin) ∧ Updated P id result answers')
          answers₁ := by
    intro hrole
    refine Program.Informed.bind (saved_informed (.inr (.inl ⟨requestingUserId, data, role, rfl⟩))
      fun user answers₂ _ hread => ?_) fun updatedUser _ hupdated => ?_
    · refine ⟨id, hread, .inr ?_⟩
      exact ⟨requestingUserId, data, role, rfl, hallowed, hrole, rfl⟩
    · obtain ⟨user, hid, rfl, hupdated⟩ := hupdated
      exact ⟨hallowed, user, _, _, hupdated, hid, rfl⟩
  show Program.Informed _ _ _ (if data.role.isSome then _ else _) _
  split
  · exact Program.informed_check fun _ hrole => hsaved fun _ => ensureCanUpdateRole_eq_ok hrole
  · rename_i hnone
    exact hsaved fun hsome => absurd hsome hnone

theorem deleteUser_informed (requestingUserId id : String) (role : UserRole) :
    (UsersService.deleteUser requestingUserId id role).Informed (Truthful P)
      (Permits (.deleteUser requestingUserId id role)) (fun _ _ => True) answers := by
  refine Program.Informed.bind
    (findById_informed (.inr (.inr ⟨requestingUserId, role, rfl⟩))) fun _ answers₁ _ => ?_
  refine Program.informed_check fun _ hcan => ?_
  obtain ⟨hself, rfl⟩ := ensureCanDeleteUser_eq_ok hcan
  exact Program.informed_call ⟨requestingUserId, rfl, hself⟩ fun _ _ => trivial

end Services

end LiorParisWallet.Accounts
