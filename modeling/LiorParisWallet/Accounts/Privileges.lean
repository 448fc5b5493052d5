import LiorParisWallet.Accounts.Identity
import LiorParisWallet.Async.Sequential

/-!
# Privileges

What a request can do to the accounts, one constructor for each kind of change, and from it who can do
what: roles are changed by administrators, passwords by their owners, names by both, accounts are deleted
by administrators, and a request that is rejected changes nothing.  The policy compares the id that an
administrator asks to delete with `===`, and the database under a collation, so an administrator who spells
its own id otherwise deletes itself.
-/

namespace LiorParisWallet.Accounts

open Async Relational

variable {P : Packages} {w w' : World} {i : ℕ}

/-- The user that the bearer token authenticates in this world. -/
def Requester (w : World) (bearer : Option JwtPayload) (user : Users) : Prop :=
  ∃ token, bearer = some token ∧ w.findUserByEmail token.email = some user

/-- The row becomes the entity with the update data. -/
def Saved (w : World) (user : Users) (updateData : PartialUsers) (w' : World) : Prop :=
  ∃ users, (w.users.delete (·.id == (assign user updateData).id)).insert? (assign user updateData) =
    some users ∧ w' = { w with users := users }

/-- The ids of the rows are spelled as the database spells them. -/
def World.Spelled (P : Packages) (w : World) : Prop :=
  ∀ u ∈ w.users, P.collate u.id = u.id

theorem World.Initial.spelledRows (h : w.Initial P) : w.Spelled P :=
  fun u hu => h.spelled u.id (h.issued u hu)

/-- What an answered request has done, in the world `w`. -/
inductive Done (P : Packages) (w : World) : Request → Reply → World → Prop where
  | unchanged (req : Request) (reply : Reply) : Done P w req reply w
  | registered {body : Json} {reply : Reply} {input : Register} {uuid salt : String}
      {users : Table Users} {emitted : List UserRegisteredPayload} :
      parseBody P (registerDto P) (registerSchema P) body = .ok input → P.collate uuid = uuid →
        w.users.insert? ⟨uuid, input.name, input.email, P.hash salt input.password.value, .user⟩ =
            some users →
          Done P w (.register body) reply
            { w with users := users, issued := uuid :: w.issued, emitted := emitted }
  | passwordChanged {bearer : Option JwtPayload} {body : Json} {reply : Reply} {user : Users}
      {input : ChangePassword} {salt : String} {w' : World} :
      Requester w bearer user →
        parseBody P (changePasswordDto P) changePasswordSchema body = .ok input →
        P.verify user.password input.oldPassword.value = true →
        Saved w user { password := some (P.hash salt input.newPassword.value) } w' →
          Done P w (.changePassword bearer body) reply w'
  | updated {bearer : Option JwtPayload} {id : String} {body : Json} {reply : Reply}
      {user target : Users} {data : UpdateUserDto} {w' : World} :
      Requester w bearer user → parseBody P updateUserDto updateUserSchema body = .ok data →
        w.findUserById (P.collate id) = some target → user.id = id ∨ user.role = .admin →
        Saved w target (UsersPolicy.sanitizeUpdateData data.updateData user.role) w' →
          Done P w (.updateUserDetails bearer id body) reply w'
  | deleted {bearer : Option JwtPayload} {id : String} {reply : Reply} {user : Users} :
      Requester w bearer user → user.id ≠ id → user.role = .admin →
        Done P w (.deleteUser bearer id) reply (w.deleteUser (P.collate id))

/-! ## The services -/

/-- An operation that fails leaves the world as it is. -/
theorem yields_await {α : Type} {o : Op} {f : Ans o → Promise α} {Φ : α → World → Prop}
    (h : ∀ a w₁, Effect P w o (.ok a) w₁ → (server P).Yields i w (f a) w₁ Φ) :
    (server P).Yields i w (await o >>= f) w Φ := by
  refine Server.yields_bind (Φ := fun a w₁ => Effect P w o (.ok a) w₁)
    (Server.yields_call fun ω r w' hp => ?_) h
  have he : Effect P w o r w' := performs hp
  cases r with
  | ok a => exact he
  | error e =>
    cases he
    rfl

theorem canActivate_yields (bearer : Option JwtPayload) :
    (server P).Yields i w (JwtAuthGuard.canActivate bearer) w
      fun user w' => w' = w ∧ Requester w bearer user := by
  cases bearer with
  | none => exact Server.yields_throw
  | some token =>
    refine yields_await fun found w₁ he => ?_
    obtain ⟨hfound, rfl⟩ := foundByEmail_of_effect he
    cases found with
    | none => exact Server.yields_throw
    | some user => exact Server.yields_pure ⟨rfl, token, rfl, hfound.symm⟩

theorem findById_yields (userId : String) :
    (server P).Yields i w (UsersService.findById userId) w
      fun user w' => w' = w ∧ w.findUserById (P.collate userId) = some user := by
  refine yields_await fun found w₁ he => ?_
  obtain ⟨hfound, rfl⟩ := found_of_effect he
  cases found with
  | none => exact Server.yields_throw
  | some user => exact Server.yields_pure ⟨rfl, hfound.symm⟩

theorem saved_yields {id : String} {target : Users} {updateData : PartialUsers}
    (hfound : w.findUserById (P.collate id) = some target) :
    (server P).Yields i w (UsersRepository.updateUserDetails id updateData) w
      fun _ w' => Saved w target updateData w' := by
  refine yields_await fun found w₁ he => ?_
  obtain ⟨rfl, rfl⟩ := found_of_effect he
  rw [hfound]
  refine Server.yields_call fun ω r w' hp => ?_
  have he : Effect P w₁ _ r w' := performs hp
  cases he with
  | failed => rfl
  | applyUpdatesAndSave hinsert => exact ⟨_, hinsert, rfl⟩

theorem register_yields {body : Json} {input : Register}
    (hinput : parseBody P (registerDto P) (registerSchema P) body = .ok input) :
    (server P).Yields i w (AuthService.register input) w
      fun result w' => Done P w (.register body) (.user result) w' := by
  refine Server.yields_bind (Φ := fun _ w₁ => w₁ = w) ?_ fun _ w₁ h => ?_
  · refine yields_await fun found w₁ he => ?_
    obtain ⟨-, rfl⟩ := foundByEmail_of_effect he
    show Server.Yields _ _ _ (if found.isSome then _ else _) _ _
    split
    · exact Server.yields_throw
    · exact Server.yields_pure rfl
  · subst h
    refine yields_await fun digest w₂ he => ?_
    cases he
    refine yields_await fun user w₂ he => ?_
    cases he with
    | @createUser data uuid users hfresh hspelled hinsert =>
      -- `emit` does not fail, so nothing is thrown after the row has been inserted
      refine Server.yields_bind (Φ := fun _ w₃ => ∃ emitted,
        w₃ = { w₁ with users := users, issued := uuid :: w₁.issued, emitted := emitted })
        (Server.yields_call fun ω r w₃ hp => ?_) ?_
      · cases hp
        exact ⟨_, rfl⟩
      · rintro _ _ ⟨emitted, rfl⟩
        exact Server.yields_pure (.registered hinput hspelled hinsert)

theorem login_yields (body : Json) (input : Login) :
    (server P).Yields i w (AuthService.login input) w
      fun result w' => Done P w (.login body) (.user result) w' := by
  refine yields_await fun found w₁ he => ?_
  obtain ⟨-, rfl⟩ := foundByEmail_of_effect he
  cases found with
  | none => exact Server.yields_throw
  | some user =>
    refine yields_await fun isPasswordMatch w₂ he => ?_
    cases he
    show Server.Yields _ _ _ (if _ then _ else _) _ _
    split
    · exact Server.yields_pure (.unchanged _ _)
    · exact Server.yields_throw

theorem changePassword_yields {bearer : Option JwtPayload} {body : Json} {user : Users}
    {input : ChangePassword} (hw : w.Spelled P) (hrequester : Requester w bearer user)
    (hinput : parseBody P (changePasswordDto P) changePasswordSchema body = .ok input) :
    (server P).Yields i w (AuthService.changePassword user.id input) w
      fun message w' => Done P w (.changePassword bearer body) (.message message) w' := by
  refine Server.yields_bind (findById_yields user.id) ?_
  rintro user' w ⟨rfl, hfound⟩
  -- the requester is stored, so it is the row with its id
  obtain ⟨token, -, hemail⟩ := id hrequester
  obtain rfl : user' = user := by
    obtain ⟨hmem, hid⟩ := mem_of_findUserById hfound
    have huser := (mem_of_findUserByEmail hemail).1
    exact Users.eq_of_id hmem huser (hid.trans (hw user huser))
  refine yields_await fun isPasswordMatch w₂ he => ?_
  cases he
  show Server.Yields _ _ _ (if _ then _ else _) _ _
  split
  · rename_i hverify
    refine yields_await fun digest w₂ he => ?_
    cases he
    refine Server.yields_bind (saved_yields hfound) fun _ w₂ hsaved => ?_
    exact Server.yields_pure (.passwordChanged hrequester hinput hverify hsaved)
  · exact Server.yields_throw

theorem updateUserDetails_yields {bearer : Option JwtPayload} {id : String} {body : Json}
    {user : Users} {data : UpdateUserDto} (hrequester : Requester w bearer user)
    (hdata : parseBody P updateUserDto updateUserSchema body = .ok data) :
    (server P).Yields i w (UsersService.updateUserDetails user.id id data.updateData user.role) w
      fun result w' => Done P w (.updateUserDetails bearer id body) (.user result) w' := by
  refine Server.yields_bind (findById_yields id) ?_
  rintro target w ⟨rfl, hfound⟩
  refine Server.yields_bind (Φ := fun _ w₁ => w₁ = w ∧ (user.id = id ∨ user.role = .admin))
    (Server.yields_ofExcept fun _ hcan => ⟨rfl, ?_⟩) ?_
  · unfold UsersPolicy.ensureCanUpdateUser at hcan
    split at hcan
    · assumption
    · cases hcan
  · rintro _ w ⟨rfl, hcan⟩
    have hsaved : (server P).Yields i w (do
        let updatedUser ← UsersRepository.updateUserDetails id
          (UsersPolicy.sanitizeUpdateData data.updateData user.role)
        return mapResult updatedUser none) w
        fun result w' => Done P w (.updateUserDetails bearer id body) (.user result) w' := by
      refine Server.yields_bind (saved_yields hfound) fun updatedUser w₁ hsaved => ?_
      exact Server.yields_pure (.updated hrequester hdata hfound hcan hsaved)
    show Server.Yields _ _ _ (if _ then _ else _) _ _
    split
    · refine Server.yields_bind (Φ := fun _ w₁ => w₁ = w) (Server.yields_ofExcept fun _ _ => rfl) ?_
      rintro _ w rfl
      exact hsaved
    · exact hsaved

theorem deleteUser_yields {bearer : Option JwtPayload} {id : String} {user : Users}
    (hrequester : Requester w bearer user) :
    (server P).Yields i w (UsersService.deleteUser user.id id user.role) w
      fun _ w' => Done P w (.deleteUser bearer id) .done w' := by
  refine Server.yields_bind (findById_yields id) ?_
  rintro _ w ⟨rfl, -⟩
  refine Server.yields_bind (Φ := fun _ w₁ => w₁ = w ∧ user.id ≠ id ∧ user.role = .admin)
    (Server.yields_ofExcept fun _ hcan => ⟨rfl, ?_⟩) ?_
  · unfold UsersPolicy.ensureCanDeleteUser ensureCanDeleteUser at hcan
    by_cases hself : user.id = id
    · rw [if_pos hself] at hcan
      cases hcan
    · rw [if_neg hself] at hcan
      by_cases hrole : user.role = .admin
      · exact ⟨hself, hrole⟩
      · rw [if_pos hrole] at hcan
        cases hcan
  · rintro _ w ⟨rfl, hself, hrole⟩
    refine Server.yields_call fun ω r w₁ hp => ?_
    have he : Effect P w (.deleteUser id) r w₁ := performs hp
    cases he with
    | failed => rfl
    | deleteUser => exact .deleted hrequester hself hrole

theorem serve_yields (hw : w.Spelled P) (req : Request) :
    (server P).Yields i w (serve P req) w fun reply w' => Done P w req reply w' := by
  have hcheck : ∀ {α : Type} {x : Except Exception α},
      (server P).Yields i w (.ofExcept x) w fun a w₁ => w₁ = w ∧ x = .ok a :=
    fun {α x} => Server.yields_ofExcept fun a hx => ⟨rfl, hx⟩
  cases req with
  | register body =>
    refine Server.yields_bind hcheck ?_
    rintro input w ⟨rfl, hinput⟩
    exact Server.yields_bind (register_yields hinput) fun _ _ h => Server.yields_pure h
  | login body =>
    refine Server.yields_bind hcheck ?_
    rintro input w ⟨rfl, -⟩
    exact Server.yields_bind (login_yields body input) fun _ _ h => Server.yields_pure h
  | changePassword bearer body =>
    refine Server.yields_bind (canActivate_yields bearer) ?_
    rintro user w ⟨rfl, hrequester⟩
    refine Server.yields_bind hcheck ?_
    rintro input w ⟨rfl, hinput⟩
    exact Server.yields_bind (changePassword_yields hw hrequester hinput) fun _ _ h =>
      Server.yields_pure h
  | updateUserDetails bearer id body =>
    refine Server.yields_bind (canActivate_yields bearer) ?_
    rintro user w ⟨rfl, hrequester⟩
    refine Server.yields_bind hcheck ?_
    rintro data w ⟨rfl, hdata⟩
    refine Server.yields_bind hcheck ?_
    rintro id w ⟨rfl, hid⟩
    cases hid
    exact Server.yields_bind (updateUserDetails_yields hrequester hdata) fun _ _ h => Server.yields_pure h
  | deleteUser bearer id =>
    refine Server.yields_bind (canActivate_yields bearer) ?_
    rintro user w ⟨rfl, hrequester⟩
    refine Server.yields_bind hcheck ?_
    rintro id w ⟨rfl, hid⟩
    cases hid
    exact Server.yields_bind (deleteUser_yields hrequester) fun _ _ h => Server.yields_pure h

/-! ## Rows -/

section Rows

variable {req : Request} {reply : Reply} {u u' target : Users} {updateData : PartialUsers}

theorem Saved.mem (h : Saved w target updateData w') (hid : updateData.id = none) :
    u' ∈ w'.users ↔ u' ∈ w.users ∧ u'.id ≠ target.id ∨ u' = assign target updateData := by
  obtain ⟨users, hinsert, rfl⟩ := h
  have hassign : (assign target updateData).id = target.id := by
    rw [assign, hid]
    rfl
  exact (mem_save hinsert).trans (by rw [hassign])

/-- A save changes the row of its target and no other. -/
theorem Saved.row (h : Saved w target updateData w') (hid : updateData.id = none)
    (htarget : target ∈ w.users) (hu : u ∈ w.users) (hu' : u' ∈ w'.users) (heq : u.id = u'.id) :
    u' = u ∨ u = target ∧ u' = assign u updateData := by
  rcases (h.mem hid).mp hu' with ⟨hu', -⟩ | rfl
  · exact .inl (Users.eq_of_id hu' hu heq.symm)
  · have hassign : (assign target updateData).id = target.id := by
      rw [assign, hid]
      rfl
    obtain rfl := Users.eq_of_id hu htarget (heq.trans hassign)
    exact .inr ⟨rfl, rfl⟩

/-- The accounts are those that there were. -/
theorem Saved.ids (h : Saved w target updateData w') (hid : updateData.id = none)
    (htarget : target ∈ w.users) (id : String) :
    (∃ u ∈ w.users, u.id = id) ↔ ∃ u ∈ w'.users, u.id = id := by
  have hassign : (assign target updateData).id = target.id := by
    rw [assign, hid]
    rfl
  constructor
  · rintro ⟨u, hu, rfl⟩
    by_cases heq : u.id = target.id
    · exact ⟨_, (h.mem hid).mpr (.inr rfl), hassign.trans heq.symm⟩
    · exact ⟨u, (h.mem hid).mpr (.inl ⟨hu, heq⟩), rfl⟩
  · rintro ⟨u, hu, rfl⟩
    rcases (h.mem hid).mp hu with ⟨hu, -⟩ | rfl
    · exact ⟨u, hu, rfl⟩
    · exact ⟨target, htarget, hassign.symm⟩

theorem Requester.mem {bearer : Option JwtPayload} {user : Users} (h : Requester w bearer user) :
    user ∈ w.users :=
  let ⟨_, _, hfound⟩ := h
  (mem_of_findUserByEmail hfound).1

/-- What becomes of the row of an account: it stays as it is, or its owner has given it a new password, or
    its owner or an administrator has updated it. -/
theorem Done.row (hw : w.Spelled P) (h : Done P w req reply w') (hu : u ∈ w.users) (hu' : u' ∈ w'.users)
    (hid : u.id = u'.id) : u' = u ∨
      (∃ bearer body input salt, req = .changePassword bearer body ∧ Requester w bearer u ∧
        parseBody P (changePasswordDto P) changePasswordSchema body = .ok input ∧
        P.verify u.password input.oldPassword.value = true ∧
        u' = { u with password := P.hash salt input.newPassword.value }) ∨
      ∃ bearer id body user data, req = .updateUserDetails bearer id body ∧ P.collate id = u.id ∧
        Requester w bearer user ∧ (user.id = u.id ∨ user.role = .admin) ∧
        u' = assign u (UsersPolicy.sanitizeUpdateData (UpdateUserDto.updateData data) user.role) := by
  cases h with
  | unchanged => exact .inl (Users.eq_of_id hu' hu hid.symm)
  | registered _ _ hinsert =>
    rcases (Table.mem_insert? hinsert).mp hu' with hu' | rfl
    · exact .inl (Users.eq_of_id hu' hu hid.symm)
    · -- a row with the new id would have kept the insert from succeeding
      have hclash := (Table.insert?_eq_some hinsert).1 u hu
      simp [Entity.clash, hid] at hclash
  | passwordChanged hrequester hinput hverify hsaved =>
    rcases hsaved.row rfl hrequester.mem hu hu' hid with heq | ⟨rfl, heq⟩
    · exact .inl heq
    · exact .inr (.inl ⟨_, _, _, _, rfl, hrequester, hinput, hverify, heq⟩)
  | @updated _ id _ _ user _ _ _ hrequester hdata hfound hcan hsaved =>
    obtain ⟨hmem, hspelling⟩ := mem_of_findUserById hfound
    rcases hsaved.row rfl hmem hu hu' hid with heq | ⟨rfl, heq⟩
    · exact .inl heq
    · refine .inr (.inr ⟨_, id, _, user, _, rfl, hspelling.symm, hrequester, hcan.imp_left fun hself => ?_, heq⟩)
      -- the policy has compared the spelling that was sent, and the requester's is the database's
      rw [hspelling, ← hself]
      exact (hw user hrequester.mem).symm
  | deleted => exact .inl (Users.eq_of_id (Table.mem_delete.mp hu').1 hu hid.symm)

theorem Done.registers (h : Done P w req reply w') (hu' : u' ∈ w'.users)
    (hnew : ∀ u ∈ w.users, u.id ≠ u'.id) : (∃ body, req = .register body) ∧ u'.role = .user := by
  have hsaved : ∀ {target updateData w'}, Saved w target updateData w' → updateData.id = none →
      target ∈ w.users → u' ∉ w'.users := by
    intro target updateData w' hsaved hid htarget hu'
    obtain ⟨u, hu, heq⟩ := (hsaved.ids hid htarget u'.id).mpr ⟨u', hu', rfl⟩
    exact hnew u hu heq
  cases h with
  | unchanged => exact absurd rfl (hnew u' hu')
  | registered _ _ hinsert =>
    rcases (Table.mem_insert? hinsert).mp hu' with hu' | rfl
    · exact absurd rfl (hnew u' hu')
    · exact ⟨⟨_, rfl⟩, rfl⟩
  | passwordChanged hrequester _ _ hs => exact absurd hu' (hsaved hs rfl hrequester.mem)
  | updated _ _ hfound _ hs => exact absurd hu' (hsaved hs rfl (mem_of_findUserById hfound).1)
  | deleted => exact absurd rfl (hnew u' (Table.mem_delete.mp hu').1)

theorem Done.deletes (h : Done P w req reply w') (hu : u ∈ w.users)
    (hgone : ∀ u' ∈ w'.users, u'.id ≠ u.id) : ∃ bearer id user, req = .deleteUser bearer id ∧
      P.collate id = u.id ∧ Requester w bearer user ∧ user.role = .admin ∧ user.id ≠ id := by
  have hsaved : ∀ {target updateData w'}, Saved w target updateData w' → updateData.id = none →
      target ∈ w.users → ¬ ∀ u' ∈ w'.users, u'.id ≠ u.id := by
    intro target updateData w' hsaved hid htarget hgone
    obtain ⟨u', hu', heq⟩ := (hsaved.ids hid htarget u.id).mp ⟨u, hu, rfl⟩
    exact hgone u' hu' heq
  cases h with
  | unchanged => exact absurd rfl (hgone u hu)
  | registered _ _ hinsert => exact absurd rfl (hgone u ((Table.mem_insert? hinsert).mpr (.inl hu)))
  | passwordChanged hrequester _ _ hs => exact absurd hgone (hsaved hs rfl hrequester.mem)
  | updated _ _ hfound _ hs => exact absurd hgone (hsaved hs rfl (mem_of_findUserById hfound).1)
  | @deleted bearer id _ user hrequester hself hrole =>
    refine ⟨_, id, user, rfl, ?_, hrequester, hrole, hself⟩
    by_contra hne
    exact hgone u (Table.mem_delete.mpr ⟨hu, beq_eq_false_iff_ne.mpr (Ne.symm hne)⟩) rfl

theorem Done.spelled (h : Done P w req reply w') (hw : w.Spelled P) : w'.Spelled P := by
  have hsaved : ∀ {target updateData w'}, Saved w target updateData w' → updateData.id = none →
      target ∈ w.users → w'.Spelled P := by
    intro target updateData w' hsaved hid htarget u' hu'
    obtain ⟨u, hu, heq⟩ := (hsaved.ids hid htarget u'.id).mpr ⟨u', hu', rfl⟩
    rw [← heq]
    exact hw u hu
  cases h with
  | unchanged => exact hw
  | registered _ hspelled hinsert =>
    intro u' hu'
    rcases (Table.mem_insert? hinsert).mp hu' with hu' | rfl
    · exact hw u' hu'
    · exact hspelled
  | passwordChanged hrequester _ _ hs => exact hsaved hs rfl hrequester.mem
  | updated _ _ hfound _ hs => exact hsaved hs rfl (mem_of_findUserById hfound).1
  | deleted => exact fun u' hu' => hw u' (Table.mem_delete.mp hu').1

end Rows

/-! ## Sessions -/

/-- What an exchange may do to the accounts. -/
structure Lawful (P : Packages) (x : Exchange Exception Request Reply World) : Prop where
  /-- A new account is a registered one, and a user's. -/
  registered : ∀ u' ∈ x.after.users, (∀ u ∈ x.before.users, u.id ≠ u'.id) →
    (∃ body, x.request = .register body) ∧ u'.role = .user
  email : ∀ u ∈ x.before.users, ∀ u' ∈ x.after.users, u.id = u'.id → u'.email = u.email
  role : ∀ u ∈ x.before.users, ∀ u' ∈ x.after.users, u.id = u'.id → u'.role ≠ u.role →
    ∃ bearer id body user, x.request = .updateUserDetails bearer id body ∧ P.collate id = u.id ∧
      Requester x.before bearer user ∧ user.role = .admin
  password : ∀ u ∈ x.before.users, ∀ u' ∈ x.after.users, u.id = u'.id → u'.password ≠ u.password →
    ∃ bearer body input, x.request = .changePassword bearer body ∧ Requester x.before bearer u ∧
      parseBody P (changePasswordDto P) changePasswordSchema body = .ok input ∧
      P.verify u.password input.oldPassword.value = true
  name : ∀ u ∈ x.before.users, ∀ u' ∈ x.after.users, u.id = u'.id → u'.name ≠ u.name →
    ∃ bearer id body user, x.request = .updateUserDetails bearer id body ∧ P.collate id = u.id ∧
      Requester x.before bearer user ∧ (user.id = u.id ∨ user.role = .admin)
  deleted : ∀ u ∈ x.before.users, (∀ u' ∈ x.after.users, u'.id ≠ u.id) →
    ∃ bearer id user, x.request = .deleteUser bearer id ∧ P.collate id = u.id ∧
      Requester x.before bearer user ∧ user.role = .admin ∧ user.id ≠ u.id
  rejected : ∀ e, x.reply = .error e → x.after = x.before

theorem sanitized_role {data : PartialUsers} {role : UserRole} {u : Users}
    (h : (assign u (UsersPolicy.sanitizeUpdateData data role)).role ≠ u.role) : role = .admin := by
  by_contra hrole
  rw [UsersPolicy.sanitizeUpdateData, if_neg hrole] at h
  exact h rfl

/-- An administrator asks to delete its own account, and spells the id otherwise than the database does. -/
def DeletesOneself (P : Packages) (x : Exchange Exception Request Reply World) : Prop :=
  ∃ bearer id user, x.request = .deleteUser bearer id ∧ Requester x.before bearer user ∧ user.role = .admin ∧
    P.collate id = user.id ∧ id ≠ user.id

theorem Done.lawful {req : Request} {reply : Reply} (hw : w.Spelled P) (h : Done P w req reply w')
    (hothers : ¬ DeletesOneself P ⟨req, .ok reply, w, w'⟩) : Lawful P ⟨req, .ok reply, w, w'⟩ where
  registered _ hu' hnew := h.registers hu' hnew
  email u hu u' hu' hid := by
    rcases h.row hw hu hu' hid with rfl | ⟨_, _, _, _, -, -, -, -, rfl⟩ | ⟨_, _, _, _, _, -, -, -, -, rfl⟩ <;> rfl
  role u hu u' hu' hid hne := by
    rcases h.row hw hu hu' hid with rfl | ⟨_, _, _, _, -, -, -, -, rfl⟩ |
      ⟨_, id, _, user, _, hreq, hspelling, hr, -, rfl⟩
    · exact absurd rfl hne
    · exact absurd rfl hne
    · exact ⟨_, id, _, user, hreq, hspelling, hr, sanitized_role hne⟩
  password u hu u' hu' hid hne := by
    rcases h.row hw hu hu' hid with rfl | ⟨_, _, input, _, hreq, hr, hinput, hverify, -⟩ |
      ⟨_, _, _, _, _, -, -, -, -, rfl⟩
    · exact absurd rfl hne
    · exact ⟨_, _, input, hreq, hr, hinput, hverify⟩
    · exact absurd rfl hne
  name u hu u' hu' hid hne := by
    rcases h.row hw hu hu' hid with rfl | ⟨_, _, _, _, -, -, -, -, rfl⟩ |
      ⟨_, id, _, user, _, hreq, hspelling, hr, hcan, -⟩
    · exact absurd rfl hne
    · exact absurd rfl hne
    · exact ⟨_, id, _, user, hreq, hspelling, hr, hcan⟩
  deleted u hu hgone := by
    obtain ⟨bearer, id, user, hreq, hspelling, hr, hrole, hne⟩ := h.deletes hu hgone
    refine ⟨bearer, id, user, hreq, hspelling, hr, hrole, fun hself => ?_⟩
    exact hothers ⟨bearer, id, user, hreq, hr, hrole, hspelling.trans hself.symm, Ne.symm hne⟩
  rejected _ he := nomatch he

theorem lawful_of_runs {req : Request} {r : Except Exception Reply} (hw : w.Spelled P)
    (h : (server P).Runs i (serve P req) w r w') (hothers : ¬ DeletesOneself P ⟨req, r, w, w'⟩) :
    Lawful P ⟨req, r, w, w'⟩ := by
  have hr := serve_yields hw req r w' h
  cases r with
  | ok reply => exact hr.lawful hw hothers
  | error e =>
    -- a request that was rejected has left the world as one that does nothing leaves it
    obtain rfl : w' = w := hr
    have hlawful := (Done.unchanged (P := P) (w := w') req .done).lawful hw hothers
    exact { hlawful with rejected := fun _ _ => rfl }

theorem spelled_of_runs {req : Request} {r : Except Exception Reply}
    (h : (server P).Runs i (serve P req) w r w') (hw : w.Spelled P) : w'.Spelled P := by
  have hr := serve_yields hw req r w' h
  cases r with
  | ok reply => exact hr.spelled hw
  | error e =>
    obtain rfl : w' = w := hr
    exact hw

/-- In every session each exchange is lawful, whoever makes the requests and whatever the bodies are, unless an
    administrator asks to delete itself under another spelling of its id. -/
theorem no_escalation {xs : List (Exchange Exception Request Reply World)} (hinitial : w.Initial P)
    (h : (server P).Session i w xs w') {x : Exchange Exception Request Reply World} (hx : x ∈ xs)
    (hothers : ¬ DeletesOneself P x) : Lawful P x :=
  let ⟨_, hrun⟩ := h.runs hx
  lawful_of_runs ((h.preserves spelled_of_runs hinitial.spelledRows).1 x hx) hrun hothers

/-- Without an administrator at the start there is none at the end. -/
theorem no_admin_appears {xs : List (Exchange Exception Request Reply World)} (hinitial : w.Initial P)
    (h : (server P).Session i w xs w') (hw : ∀ u ∈ w.users, u.role = .user) :
    ∀ u ∈ w'.users, u.role = .user := by
  suffices hkept : w'.Spelled P ∧ ∀ u ∈ w'.users, u.role = .user from hkept.2
  refine (h.preserves (I := fun w => w.Spelled P ∧ ∀ u ∈ w.users, u.role = .user) ?_
    ⟨hinitial.spelledRows, hw⟩).2
  intro j req r w w' hrun ⟨hspelled, hw⟩
  refine ⟨spelled_of_runs hrun hspelled, fun u' hu' => ?_⟩
  have hlawful := lawful_of_runs hspelled hrun fun ⟨_, _, user, _, hrequester, hadmin, _⟩ => by
    rw [hw user hrequester.mem] at hadmin
    cases hadmin
  by_cases hstored : ∃ u ∈ w.users, u.id = u'.id
  · obtain ⟨u, hu, hid⟩ := hstored
    by_contra hne
    obtain ⟨bearer, id, body, user, -, -, hrequester, hadmin⟩ :=
      hlawful.role u hu u' hu' hid (by rw [hw u hu]; exact hne)
    rw [hw user hrequester.mem] at hadmin
    cases hadmin
  · exact (hlawful.registered u' hu' fun u hu hid => hstored ⟨u, hu, hid⟩).2

/-- The administrator makes Ada one too. -/
def promotion : Request :=
  .updateUserDetails (some rootToken) "ada" (.object [("role", .string "ADMIN"), ("email", .string "x")])

theorem no_escalation_promotion : ∃ xs w' x, (server plainPackages).Session 0 startWorld xs w' ∧
    x ∈ xs ∧ x.request = promotion ∧ x.after.users.rows.map (·.role) = [.admin, .admin] ∧
    Lawful plainPackages x := by
  have hrun : ((server plainPackages).execute 0 [{}, {}, {}, {}] (serve plainPackages promotion)
      startWorld).map (fun x => decide (x.2.users.rows.map (·.role) = [.admin, .admin])) =
        some true := by
    decide +kernel
  obtain ⟨⟨r, w'⟩, hexecute, hfacts⟩ := Option.map_eq_some_iff.mp hrun
  have hsession : (server plainPackages).Session 0 startWorld [⟨promotion, r, startWorld, w'⟩] w' :=
    .cons (Server.runs_of_execute hexecute) (.nil _ _)
  exact ⟨_, w', _, hsession, List.mem_singleton_self _, rfl, of_decide_eq_true hfacts,
    no_escalation startWorld_initial hsession (List.mem_singleton_self _)
      fun ⟨_, _, _, heq, _⟩ => by cases heq⟩

/-- The administrator asks to delete its own account, with the id in capitals. -/
def resignation : Request := .deleteUser (some rootToken) "ROOT"

theorem admin_deletes_itself : ∃ xs w' x, startWorld.Initial plainPackages ∧
    (server plainPackages).Session 0 startWorld xs w' ∧ x ∈ xs ∧ x.request = resignation ∧
    Requester x.before (some rootToken) root ∧ x.reply = .ok .done ∧ x.after.users.rows = [ada] ∧
    ¬ Lawful plainPackages x := by
  have hrun : ((server plainPackages).execute 0 [{}, {}, {}] (serve plainPackages resignation)
      startWorld).map (fun x => decide (x.1 = .ok .done ∧ x.2.users.rows = [ada])) = some true := by
    decide +kernel
  obtain ⟨⟨r, w'⟩, hexecute, hfacts⟩ := Option.map_eq_some_iff.mp hrun
  obtain ⟨hreply, hrows⟩ := of_decide_eq_true hfacts
  have hsession : (server plainPackages).Session 0 startWorld [⟨resignation, r, startWorld, w'⟩] w' :=
    .cons (Server.runs_of_execute hexecute) (.nil _ _)
  have hself : startWorld.findUserByEmail rootToken.email = some root := by decide
  refine ⟨_, w', _, startWorld_initial, hsession, List.mem_singleton_self _, rfl, ⟨rootToken, rfl, hself⟩,
    hreply, hrows, fun hlawful => ?_⟩
  have hroot : root ∈ startWorld.users := List.mem_cons_self
  obtain ⟨bearer, id, user, heq, -, ⟨token, hbearer, hfound⟩, -, hne⟩ := hlawful.deleted root hroot
    fun u' hu' => by
      obtain rfl : u' = ada := List.mem_singleton.mp (hrows ▸ hu')
      decide
  cases heq
  cases hbearer
  cases hfound.symm.trans hself
  exact hne rfl

end LiorParisWallet.Accounts
