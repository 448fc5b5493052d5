import LiorParisWallet.Accounts.Services
import LiorParisWallet.Money.Twins

/-!
# Accounts that differ in digests only

The services of the accounts do nothing with a digest but verify passwords against it and store it, so they
cannot tell two worlds apart in which the users are twins.
-/

namespace LiorParisWallet.Accounts

open Async Relational

variable {P : Packages}

/-- The rows are equal but for their digests, which verify the same passwords. -/
abbrev Twins (P : Packages) : Users → Users → Prop := Users.Twin P.verify

structure World.Twin (P : Packages) (w w' : World) : Prop where
  users : Table.Alike (Twins P) w.users w'.users
  deleted : List.Forall₂ (Twins P) w.deleted w'.deleted
  issued : w'.issued = w.issued
  emitted : w'.emitted = w.emitted

/-- The same operation, or one about a twin, with how the answers are related. -/
inductive Op.Twin (P : Packages) : (o o' : Op) → (Ans o → Ans o' → Prop) → Prop where
  | findUserByEmail (email : String) :
      Twin P (.findUserByEmail email) (.findUserByEmail email) (Option.Rel (Twins P))
  | findUserById (userId : String) :
      Twin P (.findUserById userId) (.findUserById userId) (Option.Rel (Twins P))
  | createUser (data : UserData) : Twin P (.createUser data) (.createUser data) Eq
  | applyUpdatesAndSave {user user' : Users} (updateData : PartialUsers) : Twins P user user' →
      Twin P (.applyUpdatesAndSave user updateData) (.applyUpdatesAndSave user' updateData) (Twins P)
  | deleteUser (id : String) : Twin P (.deleteUser id) (.deleteUser id) Eq
  | hash (password : String) : Twin P (.hash password) (.hash password) Eq
  | verify {user user' : Users} (password : String) : Twins P user user' →
      Twin P (.verify user.password password) (.verify user'.password password) Eq
  | emit (payload : UserRegisteredPayload) : Twin P (.emit payload) (.emit payload) Eq

/-! ## Rows -/

theorem twins_refl (u : Users) : Twins P u u := ⟨u.password, rfl, fun _ => rfl⟩

theorem twins_clash {a a' r r' : Users} (ha : Twins P a a') (hr : Twins P r r') :
    Entity.clash a r = Entity.clash a' r' := by
  obtain ⟨_, rfl, -⟩ := ha
  obtain ⟨_, rfl, -⟩ := hr
  rfl

theorem twins_id (id : String) (u u' : Users) (h : Twins P u u') : (u.id == id) = (u'.id == id) := by
  obtain ⟨_, rfl, -⟩ := h
  rfl

theorem twins_assign {u u' : Users} (h : Twins P u u') (updateData : PartialUsers) :
    Twins P (assign u updateData) (assign u' updateData) := by
  obtain ⟨digest, rfl, hverify⟩ := h
  cases hpassword : updateData.password with
  | none =>
    refine ⟨digest, ?_, ?_⟩
    · simp [assign, hpassword]
    · simpa [assign, hpassword] using hverify
  | some password => exact ⟨password, by simp [assign, hpassword], by simp [assign, hpassword]⟩

/-! ## Operations -/

namespace World.Twin

variable {w w' : World} {α α' : Type} {ω : Choice}

/-- How the operation has settled in the two worlds, and what has become of them. -/
abbrev Performed (P : Packages) (R : α → α' → Prop) (x : Except Exception α × World)
    (x' : Except Exception α' × World) : Prop :=
  Settles R x.1 x'.1 ∧ World.Twin P x.2 x'.2

theorem findUserByEmail (h : World.Twin P w w') (email : String) :
    Option.Rel (Twins P) (w.findUserByEmail email) (w'.findUserByEmail email) := by
  refine h.users.find? fun u u' hu => ?_
  obtain ⟨_, rfl, -⟩ := hu
  rfl

theorem findUserById (h : World.Twin P w w') (userId : String) :
    Option.Rel (Twins P) (w.findUserById userId) (w'.findUserById userId) :=
  h.users.find? (twins_id userId)

theorem settle {R : α → α' → Prop} (h : World.Twin P w w') {result : Except Exception (α × World)}
    {result' : Except Exception (α' × World)}
    (hr : Settles (fun x x' => R x.1 x'.1 ∧ World.Twin P x.2 x'.2) result result') :
    Performed P R (w.settle ω result) (w'.settle ω result') := by
  unfold World.settle
  cases ω.fault with
  | some e => exact ⟨.error _, h⟩
  | none =>
    cases hr with
    | error e => exact ⟨.error _, h⟩
    | ok hr => exact ⟨.ok hr.1, hr.2⟩

theorem createUser (h : World.Twin P w w') (u : Users) :
    Settles (fun x x' => x.1 = x'.1 ∧ World.Twin P x.2 x'.2) (w.createUser u) (w'.createUser u) := by
  unfold World.createUser
  have hi := h.users.insert? (twins_refl u) fun a a' ha => twins_clash ha (twins_refl u)
  generalize w.users.insert? u = x at hi ⊢
  generalize w'.users.insert? u = x' at hi ⊢
  cases hi with
  | some hi => exact .ok ⟨rfl, hi, h.deleted, congrArg (u.id :: ·) h.issued, h.emitted⟩
  | none => exact .error _

theorem save (h : World.Twin P w w') {u u' : Users} (hu : Twins P u u') :
    Settles (fun x x' => Twins P x.1 x'.1 ∧ World.Twin P x.2 x'.2) (w.save u) (w'.save u') := by
  unfold World.save
  have hdelete : Table.Alike (Twins P) (w.users.delete (·.id == u.id)) (w'.users.delete (·.id == u'.id)) := by
    refine h.users.delete fun a a' ha => ?_
    rw [hu.id_eq]
    exact twins_id u.id a a' ha
  have hi := hdelete.insert? hu fun a a' ha => twins_clash ha hu
  generalize (w.users.delete (·.id == u.id)).insert? u = x at hi ⊢
  generalize (w'.users.delete (·.id == u'.id)).insert? u' = x' at hi ⊢
  cases hi with
  | some hi => exact .ok ⟨hu, hi, h.deleted, h.issued, h.emitted⟩
  | none => exact .error _

theorem deleteUser (h : World.Twin P w w') (id : String) : World.Twin P (w.deleteUser id) (w'.deleteUser id) where
  users := h.users.delete (twins_id id)
  deleted := List.rel_append (forall₂_filter h.users (twins_id id)) h.deleted
  issued := h.issued
  emitted := h.emitted

/-- Twin worlds stay twins, and answer alike. -/
theorem performed (h : World.Twin P w w') {o o' : Op} {R : Ans o → Ans o' → Prop} (ho : Op.Twin P o o' R) :
    Option.Rel (Performed P R) (perform P o ω w) (perform P o' ω w') := by
  cases ho with
  | findUserByEmail email => exact .some (h.settle (.ok ⟨h.findUserByEmail email, h⟩))
  | findUserById userId => exact .some (h.settle (.ok ⟨h.findUserById (P.collate userId), h⟩))
  | createUser data =>
    show Option.Rel _ (if ω.uuid ∈ w.issued ∨ _ then _ else _) (if ω.uuid ∈ w'.issued ∨ _ then _ else _)
    rw [h.issued]
    split
    · exact .none
    · exact .some (h.settle (h.createUser _))
  | applyUpdatesAndSave updateData huser => exact .some (h.settle (h.save (twins_assign huser updateData)))
  | deleteUser id => exact .some (h.settle (.ok ⟨rfl, h.deleteUser (P.collate id)⟩))
  | hash password => exact .some (h.settle (.ok ⟨rfl, h⟩))
  | verify password huser =>
    obtain ⟨digest, rfl, hverify⟩ := huser
    exact .some (h.settle (.ok ⟨hverify password, h⟩))
  | emit payload =>
    exact .some ⟨.ok rfl, h.users, h.deleted, h.issued, congrArg (· ++ [payload]) h.emitted⟩

end World.Twin

/-! ## Services -/

abbrev Promise.Twin {α : Type} (P : Packages) (Q : α → α → Prop) (p p' : Promise α) : Prop :=
  Related (Op.Twin P) Q p p'

theorem mapResult_eq {u u' : Users} (h : Twins P u u') (accessToken : Option JwtPayload) :
    mapResult u accessToken = mapResult u' accessToken := by
  obtain ⟨_, rfl, -⟩ := h
  rfl

/-- The guard answers twins. -/
theorem canActivate_twin (bearer : Option JwtPayload) :
    Promise.Twin P (Twins P) (JwtAuthGuard.canActivate bearer) (JwtAuthGuard.canActivate bearer) := by
  cases bearer with
  | none => exact .throw _
  | some token =>
    refine .call_bind (.findUserByEmail token.email) fun found found' hfound => ?_
    cases hfound with
    | none => exact .throw _
    | some hfound => exact .pure hfound

theorem findById_twin (userId : String) :
    Promise.Twin P (Twins P) (UsersService.findById userId) (UsersService.findById userId) := by
  refine .call_bind (.findUserById userId) fun found found' hfound => ?_
  cases hfound with
  | none => exact .throw _
  | some hfound => exact .pure hfound

theorem saved_twin (id : String) (updateData : PartialUsers) :
    Promise.Twin P (Twins P) (UsersRepository.updateUserDetails id updateData)
      (UsersRepository.updateUserDetails id updateData) := by
  refine .call_bind (.findUserById id) fun found found' hfound => ?_
  cases hfound with
  | none => exact .throw _
  | some hfound => exact .await (.applyUpdatesAndSave updateData hfound) fun _ _ hr => .ofExcept hr

theorem register_twin (input : Register) :
    Promise.Twin P Eq (AuthService.register input) (AuthService.register input) := by
  refine Related.bind (Q := Eq) ?_ fun _ _ _ => ?_
  · refine .call_bind (.findUserByEmail input.email) fun found found' hfound => ?_
    cases hfound with
    | none => exact .pure rfl
    | some _ => exact .throw _
  · refine .call_bind (.hash input.password.value) fun digest digest' hdigest => ?_
    cases hdigest
    refine .call_bind (.createUser _) fun user user' huser => ?_
    cases huser
    exact .call_bind (.emit _) fun _ _ _ => .pure rfl

theorem login_twin (input : Login) : Promise.Twin P Eq (AuthService.login input) (AuthService.login input) := by
  refine .call_bind (.findUserByEmail input.email) fun found found' hfound => ?_
  cases hfound with
  | none => exact .throw _
  | some huser =>
    refine .call_bind (.verify input.password.value huser) fun isPasswordMatch _ heq => ?_
    cases heq
    obtain ⟨_, rfl, -⟩ := huser
    cases isPasswordMatch with
    | false => exact .throw _
    | true => exact .pure rfl

theorem changePassword_twin (userId : String) (input : ChangePassword) :
    Promise.Twin P Eq (AuthService.changePassword userId input) (AuthService.changePassword userId input) := by
  refine (findById_twin userId).bind fun user user' huser => ?_
  refine .call_bind (.verify input.oldPassword.value huser) fun isPasswordMatch _ heq => ?_
  cases heq
  cases isPasswordMatch with
  | false => exact .throw _
  | true =>
    refine .call_bind (.hash input.newPassword.value) fun digest digest' hdigest => ?_
    cases hdigest
    exact (saved_twin userId _).bind fun _ _ _ => .pure rfl

theorem updateUserDetails_twin (requestingUserId targetUserId : String) (updateData : PartialUsers)
    (role : UserRole) :
    Promise.Twin P Eq (UsersService.updateUserDetails requestingUserId targetUserId updateData role)
      (UsersService.updateUserDetails requestingUserId targetUserId updateData role) := by
  refine (findById_twin targetUserId).bind fun _ _ _ => ?_
  refine Related.bind (.ofExcept (.refl _)) fun _ _ _ => ?_
  have hsaved : Promise.Twin P Eq (do
      let updatedUser ← UsersRepository.updateUserDetails targetUserId
        (UsersPolicy.sanitizeUpdateData updateData role)
      return mapResult updatedUser none : Promise UserResultDto) (do
      let updatedUser ← UsersRepository.updateUserDetails targetUserId
        (UsersPolicy.sanitizeUpdateData updateData role)
      return mapResult updatedUser none) :=
    (saved_twin targetUserId _).bind fun u u' hu => .pure (mapResult_eq hu none)
  dsimp only
  split
  · exact Related.bind (.ofExcept (.refl _)) fun _ _ _ => hsaved
  · exact hsaved

theorem deleteUser_twin (requestingUserId targetUserId : String) (role : UserRole) :
    Promise.Twin P Eq (UsersService.deleteUser requestingUserId targetUserId role)
      (UsersService.deleteUser requestingUserId targetUserId role) := by
  refine (findById_twin targetUserId).bind fun _ _ _ => ?_
  refine Related.bind (.ofExcept (.refl _)) fun _ _ _ => ?_
  exact .await (.deleteUser targetUserId) fun _ _ hr => .ofExcept hr

end LiorParisWallet.Accounts
