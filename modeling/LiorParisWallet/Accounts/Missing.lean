import LiorParisWallet.Accounts.Services
import LiorParisWallet.Money.Missing

/-!
# Accounts that are missing

`findById` throws where there is no account.  An account that it has found may be gone when it is read once more,
to be updated.
-/

namespace LiorParisWallet.Accounts

open Async Relational

def Exception.missesRow : Exception → Bool
  | .other e => e.missesRow
  | _ => false

/-- The operation missed a row, or a row that had been read. -/
inductive Missed : Answer Ans Exception → List (Answer Ans Exception) → Prop where
  | failed {o : Op} {e : Exception} {answers : List (Answer Ans Exception)} : e.missesRow = true →
      Missed ⟨o, .error e⟩ answers
  | vanished {userId : String} {user : Users} {answers : List (Answer Ans Exception)} :
      ⟨.findUserById userId, .ok (some user)⟩ ∈ answers → Missed ⟨.findUserById userId, .ok none⟩ answers

/-- The service misses a row only where an operation has missed one. -/
def Misses {α : Type} (Q : α → List (Answer Ans Exception) → Prop) (p : Promise α)
    (answers : List (Answer Ans Exception)) : Prop :=
  p.Blames (·.missesRow = true) Missed Q answers

section Services

variable {α : Type} {Q : α → List (Answer Ans Exception) → Prop} {answers : List (Answer Ans Exception)}

theorem misses_throw {e : Exception} (he : e.missesRow = false) : Misses Q (throw e) answers := by
  intro h
  rw [he] at h
  cases h

theorem misses_await {o : Op} {f : Ans o → Promise α} (hf : ∀ a, Misses Q (f a) (⟨o, .ok a⟩ :: answers)) :
    Misses Q (await o >>= f) answers :=
  Program.blames_await (fun _ he => .failed he) hf

theorem misses_call (o : Op) : Misses (fun _ _ => True) (await o) answers :=
  Program.blames_call (fun _ he => .failed he) fun _ => trivial

theorem misses_check {x : Except Exception Unit} {f : Unit → Promise α}
    (hx : ∀ e, x = .error e → e.missesRow = false) (hf : Misses Q (f ()) answers) :
    Misses Q (.ofExcept x >>= f) answers := by
  cases x with
  | ok a => exact hf
  | error e => exact misses_throw (hx e rfl)

/-- The rest of a function after `findById` has found the account. -/
theorem misses_findById {userId : String} {f : Users → Promise α}
    (hf : ∀ user, Misses Q (f user) (⟨.findUserById userId, .ok (some user)⟩ :: answers)) :
    Misses Q (UsersService.findById userId >>= f) answers := by
  intro r
  cases r with
  | error e => exact fun he => .inl (.failed he)
  | ok found =>
    cases found with
    | none => exact misses_throw rfl
    | some user => exact hf user

theorem updateDetails_misses {id : String} {user : Users} {updateData : PartialUsers}
    (hfound : ⟨.findUserById id, .ok (some user)⟩ ∈ answers) :
    Misses (fun _ _ => True) (UsersRepository.updateUserDetails id updateData) answers := by
  refine misses_await fun found => ?_
  cases found with
  | none => exact fun _ => .inl (.vanished hfound)
  | some user => exact misses_call _

theorem register_misses (input : Register) : Misses (fun _ _ => True) (AuthService.register input) answers := by
  have hcheck : Misses (fun _ _ => True) (AuthService.checkDuplicateEmail input.email) answers := by
    refine misses_await fun found => ?_
    cases found with
    | none => trivial
    | some user => exact misses_throw rfl
  refine Program.Blames.bind hcheck fun _ _ _ => ?_
  exact misses_await fun _ => misses_await fun _ => misses_await fun _ => trivial

theorem login_misses (input : Login) : Misses (fun _ _ => True) (AuthService.login input) answers := by
  refine misses_await fun user => ?_
  cases user with
  | none => exact misses_throw rfl
  | some user =>
    refine misses_await fun isPasswordMatch => ?_
    cases isPasswordMatch with
    | false => exact misses_throw rfl
    | true => trivial

theorem changePassword_misses (userId : String) (input : ChangePassword) :
    Misses (fun _ _ => True) (AuthService.changePassword userId input) answers := by
  refine misses_findById fun user => misses_await fun isPasswordMatch => ?_
  cases isPasswordMatch with
  | false => exact misses_throw rfl
  | true =>
    refine misses_await fun digest => ?_
    exact Program.Blames.bind (updateDetails_misses (List.mem_cons_of_mem _ (List.mem_cons_of_mem _
      List.mem_cons_self))) fun _ _ _ => trivial

theorem updateUserDetails_misses (requestingUserId targetUserId : String) (updateData : PartialUsers)
    (role : UserRole) : Misses (fun _ _ => True)
      (UsersService.updateUserDetails requestingUserId targetUserId updateData role) answers := by
  refine misses_findById fun user => misses_check ?_ ?_
  · unfold UsersPolicy.ensureCanUpdateUser
    split <;> rintro e ⟨⟩
    rfl
  have hupdate : Misses (fun _ _ => True) (do
      let updatedUser ← UsersRepository.updateUserDetails targetUserId
        (UsersPolicy.sanitizeUpdateData updateData role)
      return mapResult updatedUser none) (⟨.findUserById targetUserId, .ok (some user)⟩ :: answers) :=
    Program.Blames.bind (updateDetails_misses List.mem_cons_self) fun _ _ _ => trivial
  show Misses _ (if updateData.role.isSome then _ else _) _
  split
  · refine misses_check ?_ hupdate
    unfold UsersPolicy.ensureCanUpdateRole
    split <;> rintro e ⟨⟩
    rfl
  · exact hupdate

theorem deleteUser_misses (requestingUserId targetUserId : String) (role : UserRole) :
    Misses (fun _ _ => True) (UsersService.deleteUser requestingUserId targetUserId role) answers := by
  refine misses_findById fun user => misses_check ?_ (misses_call _)
  unfold UsersPolicy.ensureCanDeleteUser ensureCanDeleteUser
  by_cases hself : requestingUserId = targetUserId
  · rw [if_pos hself]
    rintro e ⟨⟩
    rfl
  · rw [if_neg hself]
    by_cases hrole : role = .admin
    · rw [if_neg (not_not_intro hrole)]
      rintro e ⟨⟩
    · rw [if_pos hrole]
      rintro e ⟨⟩
      rfl

/-- The guard has found the account that it sets as `req.user`. -/
theorem canActivate_misses (bearer : Option JwtPayload) :
    Misses (fun user answers => ∃ email, ⟨.findUserByEmail email, .ok (some user)⟩ ∈ answers)
      (JwtAuthGuard.canActivate bearer) answers := by
  cases bearer with
  | none => exact misses_throw rfl
  | some token =>
    refine misses_await fun found => ?_
    cases found with
    | none => exact misses_throw rfl
    | some user => exact ⟨_, List.mem_cons_self⟩

end Services

/-! ## The operations -/

/-- The choice makes up no exception of this kind. -/
def Choice.plain (ω : Choice) : Bool :=
  ω.fault.all (!·.missesRow)

variable {P : Packages} {w w' : World} {ω : Choice} {o : Op} {r : Except Exception (Ans o)}

theorem missesRow_of_settle {result : Except Exception (Ans o × World)} (hω : ω.plain = true)
    (h : some (w.settle ω result) = some (r, w')) (hresult : ∀ e, result = .error e → e.missesRow = false)
    {e : Exception} (he : r = .error e) : e.missesRow = false := by
  have h := Option.some.inj h
  unfold World.settle at h
  split at h
  · rename_i fault _ hfault _
    cases h
    cases he
    unfold Choice.plain at hω
    rw [hfault] at hω
    simpa [Exception.missesRow] using hω
  · rename_i e' _
    cases h
    cases he
    exact hresult e rfl
  · cases h
    cases he

/-- No operation of the accounts misses a row by itself. -/
theorem missesRow_of_perform (hω : ω.plain = true) (h : perform P o ω w = some (r, w')) {e : Exception}
    (he : r = .error e) : e.missesRow = false := by
  cases o with
  | createUser data =>
    refine missesRow_of_settle hω (createUser_eq_some h).2.2 ?_ he
    unfold World.createUser
    split <;> rintro e ⟨⟩
    rfl
  | applyUpdatesAndSave user updateData =>
    refine missesRow_of_settle hω h ?_ he
    unfold World.save
    split <;> rintro e ⟨⟩
    rfl
  | emit payload =>
    cases h
    cases he
  | _ =>
    refine missesRow_of_settle hω h (fun _ heq => ?_) he
    cases heq

end LiorParisWallet.Accounts
