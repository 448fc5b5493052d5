import LiorParisWallet.Accounts.Services
import LiorParisWallet.Async.Contract

/-!
# Accounts keep their id and their email

No operation gives an account another id or another email, an id that was once generated is never
generated again, and a call saves only what it has read.  So whatever a call knows of the id and the email
of an account stays true of that account, whether it is stored or deleted.
-/

namespace LiorParisWallet.Accounts

open Async Relational

variable {P : Packages} {w w' : World} {i : ℕ} {req : Request}

/-- There is or was an account with this id and this email. -/
def World.Known (w : World) (id email : String) : Prop :=
  ∃ u, (u ∈ w.users ∨ u ∈ w.deleted) ∧ u.id = id ∧ u.email = email

structure World.Inv (P : Packages) (w : World) : Prop where
  issued : ∀ id email, w.Known id email → id ∈ w.issued
  spelled : ∀ id ∈ w.issued, P.collate id = id
  email : ∀ id email email', w.Known id email → w.Known id email' → email = email'

/-- The update is one of a known account, and it touches neither the id nor the email. -/
structure Saves (w : World) (user : Users) (updateData : PartialUsers) : Prop where
  known : w.Known user.id user.email
  id : updateData.id = none
  email : updateData.email = none

/-- What a call owes when it performs the operation. -/
def Owes (o : Op) (w : World) : Prop :=
  ∀ user updateData, o = .applyUpdatesAndSave user updateData → Saves w user updateData

/-- The operation has created the account with this id and this email. -/
def Creates (w : World) (x : Answer Ans Exception) (id email : String) : Prop :=
  ∃ data, x = ⟨.createUser data, .ok (data.create id)⟩ ∧ data.email = email ∧ id ∉ w.issued

theorem Users.eq_of_id {users : Table Users} {a b : Users} (ha : a ∈ users) (hb : b ∈ users)
    (h : a.id = b.id) : a = b :=
  Table.eq_of_clash ha hb (by simp [Entity.clash, h])

theorem Users.eq_of_email {users : Table Users} {a b : Users} (ha : a ∈ users) (hb : b ∈ users)
    (h : a.email = b.email) : a = b :=
  Table.eq_of_clash ha hb (by simp [Entity.clash, h])

theorem mem_of_findUserById {userId : String} {u : Users} (h : w.findUserById userId = some u) :
    u ∈ w.users ∧ u.id = userId :=
  let ⟨hmem, hid⟩ := Table.mem_of_find? h
  ⟨hmem, beq_iff_eq.mp hid⟩

theorem mem_of_findUserByEmail {email : String} {u : Users} (h : w.findUserByEmail email = some u) :
    u ∈ w.users ∧ u.email = email :=
  let ⟨hmem, hemail⟩ := Table.mem_of_find? h
  ⟨hmem, beq_iff_eq.mp hemail⟩

/-- The row takes the place of the one with its id. -/
theorem mem_save {users users' : Table Users} {u a : Users}
    (h : (users.delete (·.id == u.id)).insert? u = some users') :
    a ∈ users' ↔ a ∈ users ∧ a.id ≠ u.id ∨ a = u := by
  rw [Table.mem_insert? h, Table.mem_delete, beq_eq_false_iff_ne]

theorem World.known_of_mem {u : Users} (h : u ∈ w.users) : w.Known u.id u.email :=
  ⟨u, .inl h, rfl, rfl⟩

/-- The ids of the rows are spelled as the database spells them. -/
theorem World.Inv.collate_id {u : Users} (h : w.Inv P) (hu : u ∈ w.users) : P.collate u.id = u.id :=
  h.spelled u.id (h.issued u.id u.email (World.known_of_mem hu))

theorem Saves.assign_id {user : Users} {updateData : PartialUsers} (h : Saves w user updateData) :
    (assign user updateData).id = user.id := by
  rw [assign, h.id]
  rfl

theorem Saves.assign_email {user : Users} {updateData : PartialUsers} (h : Saves w user updateData) :
    (assign user updateData).email = user.email := by
  rw [assign, h.email]
  rfl

/-- Accounts become known only when they are created. -/
theorem known_of_effect {o : Op} {r : Except Exception (Ans o)} (he : Effect P w o r w')
    (hinv : w.Inv P) (hpre : Owes o w) (id email : String) :
    w'.Known id email ↔ w.Known id email ∨ Creates w ⟨o, r⟩ id email := by
  have hquiet : ∀ x : Answer Ans Exception, (∀ data, x.1 ≠ .createUser data) →
      (w.Known id email ↔ w.Known id email ∨ Creates w x id email) := by
    rintro x hx
    refine (or_iff_left ?_).symm
    rintro ⟨data, rfl, -⟩
    exact hx data rfl
  cases he with
  | failed o e =>
    refine (or_iff_left ?_).symm
    rintro ⟨data, heq, -⟩
    cases heq
  | createUser hfresh _ hinsert =>
    constructor
    · rintro ⟨u, hu | hu, rfl, rfl⟩
      · rcases (Table.mem_insert? hinsert).mp hu with hu | rfl
        · exact .inl ⟨u, .inl hu, rfl, rfl⟩
        · exact .inr ⟨_, rfl, rfl, hfresh⟩
      · exact .inl ⟨u, .inr hu, rfl, rfl⟩
    · rintro (⟨u, hu | hu, rfl, rfl⟩ | ⟨data, heq, rfl, -⟩)
      · exact ⟨u, .inl ((Table.mem_insert? hinsert).mpr (.inl hu)), rfl, rfl⟩
      · exact ⟨u, .inr hu, rfl, rfl⟩
      · cases heq
        exact ⟨_, .inl ((Table.mem_insert? hinsert).mpr (.inr rfl)), rfl, rfl⟩
  | @applyUpdatesAndSave user updateData users hinsert =>
    refine Iff.trans ?_ (hquiet ⟨_, .ok _⟩ fun data => nofun)
    have hsaves := hpre _ _ rfl
    constructor
    · rintro ⟨u, hu | hu, rfl, rfl⟩
      · rcases (mem_save hinsert).mp hu with hu | rfl
        · exact ⟨u, .inl hu.1, rfl, rfl⟩
        · rw [hsaves.assign_id, hsaves.assign_email]
          exact hsaves.known
      · exact ⟨u, .inr hu, rfl, rfl⟩
    · rintro ⟨u, hu | hu, rfl, rfl⟩
      · by_cases hid : u.id = user.id
        · -- the row that is written has the email that the account has always had
          refine ⟨assign user updateData, .inl ((mem_save hinsert).mpr (.inr rfl)), ?_, ?_⟩
          · rw [hsaves.assign_id, hid]
          · rw [hsaves.assign_email]
            exact hinv.email _ _ _ hsaves.known (hid ▸ World.known_of_mem hu)
        · refine ⟨u, .inl ((mem_save hinsert).mpr (.inl ⟨hu, ?_⟩)), rfl, rfl⟩
          rwa [hsaves.assign_id]
      · exact ⟨u, .inr hu, rfl, rfl⟩
  | deleteUser userId =>
    refine Iff.trans ?_ (hquiet ⟨_, .ok _⟩ fun data => nofun)
    constructor
    · rintro ⟨u, hu | hu, rfl, rfl⟩
      · exact ⟨u, .inl (Table.mem_delete.mp hu).1, rfl, rfl⟩
      · rcases List.mem_append.mp hu with hu | hu
        · exact ⟨u, .inl (List.mem_filter.mp hu).1, rfl, rfl⟩
        · exact ⟨u, .inr hu, rfl, rfl⟩
    · rintro ⟨u, hu | hu, rfl, rfl⟩
      · cases hid : u.id == P.collate userId with
        | true => exact ⟨u, .inr (List.mem_append_left _ (List.mem_filter.mpr ⟨hu, hid⟩)), rfl, rfl⟩
        | false => exact ⟨u, .inl (Table.mem_delete.mpr ⟨hu, hid⟩), rfl, rfl⟩
      · exact ⟨u, .inr (List.mem_append_right _ hu), rfl, rfl⟩
  | _ => exact hquiet ⟨_, _⟩ fun data => nofun

theorem World.Inv.effect {o : Op} {r : Except Exception (Ans o)} (hinv : w.Inv P)
    (he : Effect P w o r w') (hpre : Owes o w) : w'.Inv P where
  issued id email hknown := by
    have hissued : ∀ x ∈ w.issued, x ∈ w'.issued := by
      cases he with
      | createUser => exact fun x hx => List.mem_cons_of_mem _ hx
      | _ => exact fun x hx => hx
    rcases (known_of_effect he hinv hpre id email).mp hknown with hknown | ⟨data, heq, -, -⟩
    · exact hissued id (hinv.issued id email hknown)
    · cases heq
      cases he with
      | createUser => exact List.mem_cons_self
  spelled id hissued := by
    cases he with
    | createUser _ hspelled _ =>
      rcases List.mem_cons.mp hissued with rfl | hissued
      · exact hspelled
      · exact hinv.spelled id hissued
    | _ => exact hinv.spelled id hissued
  email id e e' hknown hknown' := by
    rcases (known_of_effect he hinv hpre id e).mp hknown with hknown | ⟨data, heq, rfl, hfresh⟩ <;>
      rcases (known_of_effect he hinv hpre id e').mp hknown' with hknown' | ⟨data', heq', rfl, hfresh'⟩
    · exact hinv.email id e e' hknown hknown'
    · exact absurd (hinv.issued id e hknown) hfresh'
    · exact absurd (hinv.issued id e' hknown') hfresh
    · cases heq
      cases heq'
      rfl

theorem World.Initial.inv (h : w.Initial P) : w.Inv P := by
  have hstored : ∀ id email, w.Known id email → ∃ u ∈ w.users, u.id = id ∧ u.email = email := by
    rintro id email ⟨u, hu | hu, hid, hemail⟩
    · exact ⟨u, hu, hid, hemail⟩
    · rw [h.deleted] at hu
      cases hu
  refine ⟨fun id email hknown => ?_, h.spelled, fun id e e' hknown hknown' => ?_⟩
  · obtain ⟨u, hu, rfl, -⟩ := hstored id email hknown
    exact h.issued u hu
  · obtain ⟨u, hu, hid, rfl⟩ := hstored id e hknown
    obtain ⟨u', hu', hid', rfl⟩ := hstored id e' hknown'
    rw [Users.eq_of_id hu hu' (hid.trans hid'.symm)]

def identityContract (P : Packages) : Contract (server P) where
  Inv := World.Inv P
  Pre _ _ o w := Owes o w
  Rely _ w w' := ∀ id email, w.Known id email → w'.Known id email
  rely_refl _ _ _ _ h := h
  rely_trans h₁ h₂ id email h := h₂ id email (h₁ id email h)
  inv_perform hinv hpre hp := hinv.effect (performs hp) hpre
  rely_perform _ hinv hpre hp id email h :=
    (known_of_effect (performs hp) hinv hpre id email).mpr (.inl h)

/-! ## The routes keep the contract -/

section Routes

variable {answers : List (Answer Ans Exception)}

/-- A token in the result names an account. -/
def Grants (r : Except Exception Reply) (w : World) : Prop :=
  ∀ result token, r = .ok (.user result) → result.access_token = some token →
    w.Known token.userId token.email

theorem owes_of_reads {o : Op} (ho : o.Reads) : Owes o w := by
  rintro user updateData rfl
  cases ho

theorem found_of_effect {userId : String} {found : Option Users}
    (he : Effect P w (.findUserById userId) (.ok found) w') :
    found = w.findUserById (P.collate userId) ∧ w' = w := by
  cases he
  exact ⟨rfl, rfl⟩

theorem foundByEmail_of_effect {email : String} {found : Option Users}
    (he : Effect P w (.findUserByEmail email) (.ok found) w') :
    found = w.findUserByEmail email ∧ w' = w := by
  cases he
  exact ⟨rfl, rfl⟩

/-- Functions that do not write owe nothing. -/
theorem wp_reads {α : Type} {p : Promise α} (hp : p.All Op.Reads) :
    (identityContract P).wp req i p (Contract.returns fun _ _ _ => True) answers w := by
  induction p generalizing answers w with
  | ret a => exact fun _ _ => trivial
  | throw e => exact fun _ h => nomatch h
  | await o next ih =>
    exact fun w₁ _ _ => ⟨owes_of_reads hp.1, fun ω r w₂ _ => ih r (hp.2 r)⟩

theorem canActivate_reads (bearer : Option JwtPayload) :
    (JwtAuthGuard.canActivate bearer).All Op.Reads := by
  cases bearer with
  | none => trivial
  | some payload =>
    refine Program.all_await trivial fun found => ?_
    cases found <;> trivial

theorem findById_reads (userId : String) : (UsersService.findById userId).All Op.Reads := by
  refine Program.all_await trivial fun found => ?_
  cases found <;> trivial

theorem saved_spec {id : String} {updateData : PartialUsers} (hid : updateData.id = none)
    (hemail : updateData.email = none) :
    (identityContract P).wp req i (UsersRepository.updateUserDetails id updateData)
      (Contract.returns fun _ _ _ => True) answers w := by
  refine Contract.wp_await fun w₁ _ _ => ⟨owes_of_reads trivial, fun ω found w₂ hp => ?_⟩
  obtain ⟨hfound, rfl⟩ := found_of_effect (performs hp)
  cases found with
  | none => exact Contract.wp_returns_throw
  | some user =>
    refine Contract.wp_call fun w₃ hrely _ => ⟨?_, fun _ _ _ _ _ _ => trivial⟩
    rintro _ _ heq
    cases heq
    exact ⟨hrely _ _ (World.known_of_mem (mem_of_findUserById hfound.symm).1), hid, hemail⟩

theorem register_spec (input : Register) :
    (identityContract P).wp req i (AuthService.register input)
      (Contract.returns fun _ result w => Grants (.ok (.user result)) w) answers w := by
  refine Contract.wp_returns_bind (wp_reads ?_) fun answers _ w₁ _ => ?_
  · refine Program.all_await trivial fun found => ?_
    show Program.All Op.Reads (if found.isSome then _ else _)
    split <;> trivial
  · refine Contract.wp_await fun w₁ _ _ => ⟨owes_of_reads trivial, fun ω digest w₂ _ => ?_⟩
    refine Contract.wp_await fun w₃ _ hinv => ⟨fun _ _ => nofun, fun ω user w₄ hp => ?_⟩
    have he : Effect P w₃ _ (.ok user) w₄ := performs hp
    have hknown : w₄.Known user.id user.email := by
      cases he with
      | createUser _ _ hinsert =>
        exact ⟨_, .inl ((Table.mem_insert? hinsert).mpr (.inr rfl)), rfl, rfl⟩
    refine Contract.wp_await fun w₅ hrely _ => ⟨fun _ _ => nofun, fun ω _ w₆ hp => ?_⟩
    refine Contract.wp_returns_pure ?_
    rintro _ _ heq htoken
    cases heq
    cases htoken
    have he : Effect P w₅ (.emit _) (.ok ()) w₆ := performs hp
    cases he
    exact hrely _ _ hknown

theorem login_spec (input : Login) :
    (identityContract P).wp req i (AuthService.login input)
      (Contract.returns fun _ result w => Grants (.ok (.user result)) w) answers w := by
  refine Contract.wp_await fun w₁ _ _ => ⟨owes_of_reads trivial, fun ω found w₂ hp => ?_⟩
  obtain ⟨hfound, rfl⟩ := foundByEmail_of_effect (performs hp)
  cases found with
  | none => exact Contract.wp_returns_throw
  | some user =>
    have hknown := World.known_of_mem (mem_of_findUserByEmail hfound.symm).1
    refine Contract.wp_await fun w₃ hrely _ => ⟨owes_of_reads trivial, fun ω isPasswordMatch w₄ hp => ?_⟩
    have he : Effect P w₃ (.verify _ _) (.ok isPasswordMatch) w₄ := performs hp
    cases he
    show Contract.wp _ _ _ (if _ then _ else _) _ _ _
    split
    · refine Contract.wp_returns_pure ?_
      rintro _ _ heq htoken
      cases heq
      cases htoken
      exact hrely _ _ hknown
    · exact Contract.wp_returns_throw

theorem changePassword_spec (userId : String) (input : ChangePassword) :
    (identityContract P).wp req i (AuthService.changePassword userId input)
      (Contract.returns fun _ _ _ => True) answers w := by
  refine Contract.wp_returns_bind (wp_reads (findById_reads _)) fun answers user w₁ _ => ?_
  refine Contract.wp_await fun w₂ _ _ => ⟨owes_of_reads trivial, fun ω isPasswordMatch w₃ _ => ?_⟩
  show Contract.wp _ _ _ (if _ then _ else _) _ _ _
  split
  · refine Contract.wp_await fun w₄ _ _ => ⟨owes_of_reads trivial, fun ω digest w₅ _ => ?_⟩
    exact Contract.wp_returns_bind (saved_spec rfl rfl) fun _ _ _ _ => Contract.wp_returns_pure trivial
  · exact Contract.wp_returns_throw

theorem updateUserDetails_spec (requestingUserId id : String) (data : UpdateUserDto) (role : UserRole) :
    (identityContract P).wp req i
      (UsersService.updateUserDetails requestingUserId id data.updateData role)
      (Contract.returns fun _ result w => Grants (.ok (.user result)) w) answers w := by
  have hsaved : ∀ answers w, (identityContract P).wp req i
      (do
        let updatedUser ← UsersRepository.updateUserDetails id
          (UsersPolicy.sanitizeUpdateData data.updateData role)
        return mapResult updatedUser none)
      (Contract.returns fun _ result w => Grants (.ok (.user result)) w) answers w := by
    refine fun answers w => Contract.wp_returns_bind (saved_spec rfl rfl) fun _ _ _ _ => ?_
    refine Contract.wp_returns_pure ?_
    rintro _ _ heq htoken
    cases heq
    cases htoken
  refine Contract.wp_returns_bind (wp_reads (findById_reads _)) fun answers _ w₁ _ => ?_
  refine Contract.wp_check fun _ _ => ?_
  show Contract.wp _ _ _ (if _ then _ else _) _ _ _
  split
  · exact Contract.wp_check fun _ _ => hsaved answers w₁
  · exact hsaved answers w₁

theorem deleteUser_spec (requestingUserId id : String) (role : UserRole) :
    (identityContract P).wp req i (UsersService.deleteUser requestingUserId id role)
      (Contract.returns fun _ _ _ => True) answers w := by
  refine Contract.wp_returns_bind (wp_reads (findById_reads _)) fun answers _ w₁ _ => ?_
  refine Contract.wp_check fun _ _ => ?_
  exact Contract.wp_call fun w₂ _ _ => ⟨fun _ _ => nofun, fun _ _ _ _ _ _ => trivial⟩

theorem accounts_meet (P : Packages) :
    (identityContract P).Meets fun _ _ _ r w => Grants r w := by
  intro i req w _
  -- what a call returns is what its last service grants
  suffices h : (identityContract P).wp req i (serve P req)
      (Contract.returns fun _ reply w => Grants (.ok reply) w) [] w by
    refine Contract.wp_mono h fun answers r w hr => ?_
    rintro result token rfl
    exact hr _ rfl result token rfl
  cases req with
  | register body =>
    refine Contract.wp_check fun input _ => ?_
    exact Contract.wp_returns_bind (register_spec input) fun _ _ _ h => Contract.wp_returns_pure h
  | login body =>
    refine Contract.wp_check fun input _ => ?_
    exact Contract.wp_returns_bind (login_spec input) fun _ _ _ h => Contract.wp_returns_pure h
  | changePassword bearer body =>
    refine Contract.wp_returns_bind (wp_reads (canActivate_reads bearer)) fun _ user w₁ _ => ?_
    refine Contract.wp_check fun input _ => ?_
    exact Contract.wp_returns_bind (changePassword_spec user.id input) fun _ _ _ _ =>
      Contract.wp_returns_pure nofun
  | updateUserDetails bearer id body =>
    refine Contract.wp_returns_bind (wp_reads (canActivate_reads bearer)) fun _ user w₁ _ => ?_
    refine Contract.wp_check fun data _ => Contract.wp_check fun id _ => ?_
    exact Contract.wp_returns_bind (updateUserDetails_spec user.id id data user.role) fun _ _ _ h =>
      Contract.wp_returns_pure h
  | deleteUser bearer id =>
    refine Contract.wp_returns_bind (wp_reads (canActivate_reads bearer)) fun _ user w₁ _ => ?_
    refine Contract.wp_check fun id _ => ?_
    exact Contract.wp_returns_bind (deleteUser_spec user.id id user.role) fun _ _ _ _ =>
      Contract.wp_returns_pure nofun

end Routes

/-- What every run keeps. -/
theorem Reachable.sound {s : State} (h : Reachable P s) :
    (identityContract P).Sound (fun _ _ _ r w => Grants r w) s :=
  let ⟨_, hw, hr⟩ := h
  Contract.sound_reaches (accounts_meet P) (Contract.sound_idle hw.inv) hr

end LiorParisWallet.Accounts
