import LiorParisWallet.Backend.Refinement

/-!
# Whose passwords and whose roles

Whatever the interleaving, the password of an account is one that was set for it: it was there before the run, it
came with the registration, or the account itself sent it with one that had been set before.  And a role other
than that of a registration was given by an administrator, who was one before the run or was made one in turn.
-/

namespace LiorParisWallet.Backend

open Async Relational Accounts

variable {P : Packages} {registry : PaymentGatewayRegistry} {w : World} {s s' : State}

/-- The digest has been set as the password of the account. -/
inductive PasswordSet (P : Packages) (w : World) (s : State) : String → String → Prop where
  | initial {u : Users} : u ∈ w.accounts.users → PasswordSet P w s u.id u.password
  | registered {c : Call Op Ans Exception Request Reply} {contentType : String} {bearer : Option JwtPayload}
      {body : Json} {input : Register} {salt : String} {u : Users} : c ∈ s.calls →
      c.request = .http contentType bearer (.register body) →
      parseBody P (registerDto P) (registerSchema P) body = .ok input →
      ⟨.accounts (.createUser (input.data (P.hash salt input.password.value))), .ok (.ok u)⟩ ∈ c.answers →
        PasswordSet P w s u.id (P.hash salt input.password.value)
  | changed {c : Call Op Ans Exception Request Reply} {userId : String} {body : Json} {input : ChangePassword}
      {old salt : String} : Sends s c userId (.changePassword body) →
      parseBody P (changePasswordDto P) changePasswordSchema body = .ok input →
      PasswordSet P w s userId old → P.verify old input.oldPassword.value = true →
        PasswordSet P w s userId (P.hash salt input.newPassword.value)

/-- The account has been given the role. -/
inductive RoleSet (P : Packages) (w : World) (s : State) : String → UserRole → Prop where
  | initial {u : Users} : u ∈ w.accounts.users → RoleSet P w s u.id u.role
  | registered {c : Call Op Ans Exception Request Reply} {contentType : String} {bearer : Option JwtPayload}
      {body : Json} {data : UserData} {u : Users} : c ∈ s.calls →
      c.request = .http contentType bearer (.register body) →
      ⟨.accounts (.createUser data), .ok (.ok u)⟩ ∈ c.answers →
        RoleSet P w s u.id .user
  | updated {c : Call Op Ans Exception Request Reply} {id : String} {body : Json} {data : UpdateUserDto}
      {role : UserRole} {admin : Users} : Sends s c admin.id (.updateUserDetails id body) →
      parseBody P updateUserDto updateUserSchema body = .ok data → data.role = some role →
      ⟨.accounts (.findUserByEmail admin.email), .ok (.ok (some admin))⟩ ∈ c.answers →
      admin.role = .admin → RoleSet P w s admin.id .admin →
        RoleSet P w s (P.collate id) role

/-- The row has a password and a role that its account was given. -/
structure Accounted (P : Packages) (w : World) (s : State) (u : Users) : Prop where
  password : PasswordSet P w s u.id u.password
  role : RoleSet P w s u.id u.role

theorem PasswordSet.mono {userId digest : String} (h : PasswordSet P w s userId digest) (hf : Follows s s') :
    PasswordSet P w s' userId digest := by
  induction h with
  | initial hu => exact .initial hu
  | registered hc hreq hinput hcreated =>
    obtain ⟨c', hc', hreq', hanswers⟩ := hf.calls _ hc
    exact .registered hc' (hreq'.trans hreq) hinput (hanswers hcreated)
  | changed hsends hinput _ hverified ih =>
    obtain ⟨c', hsends', -⟩ := hsends.mono hf
    exact .changed hsends' hinput ih hverified

theorem RoleSet.mono {userId : String} {role : UserRole} (h : RoleSet P w s userId role) (hf : Follows s s') :
    RoleSet P w s' userId role := by
  induction h with
  | initial hu => exact .initial hu
  | registered hc hreq hcreated =>
    obtain ⟨c', hc', hreq', hanswers⟩ := hf.calls _ hc
    exact .registered hc' (hreq'.trans hreq) (hanswers hcreated)
  | updated hsends hinput hrole hfound hadmin _ ih =>
    obtain ⟨c', hsends', hanswers⟩ := hsends.mono hf
    exact .updated hsends' hinput hrole (hanswers hfound) hadmin ih

theorem Accounted.mono {u : Users} (h : Accounted P w s u) (hf : Follows s s') : Accounted P w s' u :=
  ⟨h.password.mono hf, h.role.mono hf⟩

/-- The row was read. -/
def Read (answers : List (Answer Ans Exception)) (u : Users) : Prop :=
  (∃ email, ⟨.accounts (.findUserByEmail email), .ok (.ok (some u))⟩ ∈ answers) ∨
    ∃ userId, ⟨.accounts (.findUserById userId), .ok (.ok (some u))⟩ ∈ answers

/-- All rows are accounted for, those that are stored and those that a call has read. -/
structure Custody (P : Packages) (w : World) (s : State) : Prop where
  rows : ∀ u ∈ s.world.accounts.users, Accounted P w s u
  read : ∀ c ∈ s.calls, ∀ u, Read c.answers u → Accounted P w s u

/-! ## One step -/

section Steps

variable {i : ℕ} {c : Call Op Ans Exception Request Reply} {o : Op} {r : Except Exception (Ans o)}
variable {world : World} {c' : Call Op Ans Exception Request Reply}
variable {o₀ : Accounts.Op} {r₀ : Except Exception (Ans (.accounts o₀))}

theorem foundById_of_effect {x x' : Accounts.World} {userId : String} {found : Option Users}
    (he : Accounts.Effect P x (.findUserById userId) (.ok found) x') : found = x.findUserById (P.collate userId) := by
  cases he
  rfl

/-- A row that is read is stored. -/
theorem read_of_effect (he : Effect P i s.world o r world) {u : Users} (h : Read (⟨o, r⟩ :: c.answers) u) :
    Read c.answers u ∨ u ∈ s.world.accounts.users := by
  rcases h with ⟨email, h⟩ | ⟨userId, h⟩
  · rcases List.mem_cons.mp h with heq | h
    · right
      cases he with
      | accounts he =>
        cases heq
        exact (mem_of_findUserByEmail (foundByEmail_of_effect he).1.symm).1
      | money he => cases heq
      | query haccounts =>
        cases heq
        exact absurd rfl (haccounts _)
    · exact .inl (.inl ⟨email, h⟩)
  · rcases List.mem_cons.mp h with heq | h
    · right
      cases he with
      | accounts he =>
        cases heq
        exact (mem_of_findUserById (foundById_of_effect he).symm).1
      | money he => cases heq
      | query haccounts =>
        cases heq
        exact absurd rfl (haccounts _)
    · exact .inl (.inr ⟨userId, h⟩)

/-- What a handler has asked of the accounts, beyond the lookup of the guard. -/
theorem task_of_permits (h : Performed P registry s i c (.accounts o₀) r₀ world)
    (hnot : ∀ email, o₀ ≠ .findUserByEmail email) : ∃ contentType bearer route user task answers₀,
      c.request = .http contentType bearer route ∧ Admitted contentType bearer route user c.answers ∧
        Tasks P route user task ∧ (accountsComponent P registry).Reports answers₀ c.answers ∧
          Accounts.Permits task answers₀ o₀ := by
  have hpermits := h.permits
  cases hreq : c.request with
  | userRegistered payload =>
    rw [hreq] at hpermits
    exact hpermits.elim
  | http contentType bearer route =>
    rw [hreq] at hpermits
    rcases hpermits with ⟨-, token, -, heq⟩ | ⟨user, task, answers₀, hadmitted, htask, hreports, hpermits⟩
    · cases heq
      exact absurd rfl (hnot _)
    · exact ⟨contentType, bearer, route, user, task, answers₀, rfl, hadmitted, htask, hreports, hpermits⟩

/-- The row that registering stores. -/
theorem accounted_of_create {data : UserData} {uuid : String}
    (h : Performed P registry s i c (.accounts (.createUser data)) (.ok (.ok (data.create uuid))) world)
    (hcontinues : Continues s c ⟨.accounts (.createUser data), .ok (.ok (data.create uuid))⟩ c' s') :
    Accounted P w s' (data.create uuid) := by
  obtain ⟨contentType, bearer, route, user, task, answers₀, hreq, -, htask, hreports, input, digest, rfl, rfl, -,
    hhashed⟩ := task_of_permits h fun _ => nofun
  obtain ⟨salt, rfl⟩ := hash_of_reports hreports h.truthful hhashed
  cases htask with
  | register hinput =>
    have hcreated := hcontinues.answers ▸ List.mem_cons_self
    have hreq' := hcontinues.request.trans hreq
    exact ⟨.registered hcontinues.mem hreq' hinput hcreated, .registered hcontinues.mem hreq' hcreated⟩

/-- The row that is stored when an account is changed; the ids that the calls have read are spelled as the
    database spells them. -/
theorem accounted_of_save {user : Users} {updateData : PartialUsers}
    {r₁ : Except Exception (Ans (.accounts (.applyUpdatesAndSave user updateData)))}
    (hspelled : ∀ bearer u, Identified bearer u c.answers → P.collate u.id = u.id)
    (hdocumented : Documented P s) (hcustody : Custody P w s)
    (h : Performed P registry s i c (.accounts (.applyUpdatesAndSave user updateData)) r₁ world) :
    Accounted P w s (assign user updateData) := by
  obtain ⟨contentType, bearer, route, requester, task, answers₀, hreq, hadmitted, htask, hreports, id, hread,
    hpermits⟩ := task_of_permits h fun _ => nofun
  have hread := mem_of_reports hreports hread
  have hid : user.id = P.collate id := h.truthful _ hread
  have hold : Accounted P w s user := hcustody.read c h.call user (.inr ⟨id, hread⟩)
  rcases hpermits with ⟨input, old, digest, rfl, rfl, hfound, hverified, hhashed⟩ | ⟨requestingUserId, data, role,
    rfl, hcan, hrole, rfl⟩
  · -- the password was verified against one that was set before
    obtain ⟨salt, rfl⟩ := hash_of_reports hreports h.truthful hhashed
    have hverified := verify_of_reports hreports h.truthful hverified
    have hfound := mem_of_reports hreports hfound
    have hold_id : old.id = P.collate id := h.truthful _ hfound
    have hset := (hcustody.read c h.call old (.inr ⟨id, hfound⟩)).password
    refine ⟨?_, hold.role⟩
    cases htask with
    | @changePassword body requester _ hinput =>
      have hidentified := hadmitted.identified requester rfl
      have hself := hspelled bearer requester hidentified
      show PasswordSet P w s user.id _
      rw [hid, hself]
      rw [hold_id, hself] at hset
      exact .changed (sends_of_identified hdocumented h.call hreq hidentified) hinput hset hverified
  · -- what is saved of an update keeps the password; a role in it is an administrator's
    refine ⟨hold.password, ?_⟩
    cases htask with
    | @updateUserDetails _ body admin _ hdata =>
      have hrole' : (assign user (UsersPolicy.sanitizeUpdateData data.updateData admin.role)).role =
          (if admin.role = .admin then data.role else none).getD user.role := rfl
      rw [hrole']
      show RoleSet P w s user.id _
      cases hgiven : data.role with
      | none =>
        rw [ite_self]
        exact hold.role
      | some given =>
        have hadmin : admin.role = .admin := hrole (by rw [hgiven]; rfl)
        have hidentified := hadmitted.identified admin rfl
        have hsends := sends_of_identified hdocumented h.call hreq hidentified
        obtain ⟨token, -, hfound, hemail⟩ := hidentified
        rw [← hemail] at hfound
        have hset := (hcustody.read c h.call admin (.inl ⟨_, hfound⟩)).role
        rw [hadmin] at hset
        rw [if_pos hadmin, hid]
        exact .updated hsends hdata hgiven hfound hadmin hset

theorem Custody.arrives {req : Request} (h : Custody P w s) (hf : Follows s s') (harrives : Arrives s req c s') :
    Custody P w s' where
  rows u hu := by
    rw [harrives.world] at hu
    exact (h.rows u hu).mono hf
  read d hd u hread := by
    rw [harrives.calls, List.mem_append, List.mem_singleton] at hd
    rcases hd with hd | rfl
    · exact (h.read d hd u hread).mono hf
    · rw [harrives.answers] at hread
      rcases hread with ⟨email, hmem⟩ | ⟨userId, hmem⟩ <;> cases hmem

/-- A row that is stored is one that was, or it has just been created or changed. -/
theorem Custody.performs (h : Custody P w s) (hdocumented : Documented P s)
    (hspelled : ∀ bearer u, Identified bearer u c.answers → P.collate u.id = u.id) (hf : Follows s s')
    (hperformed : Performed P registry s i c o r s'.world) (hcontinues : Continues s c ⟨o, r⟩ c' s') :
    Custody P w s' where
  rows u hu := by
    have hold : u ∈ s.world.accounts.users → Accounted P w s' u := fun hu => (h.rows u hu).mono hf
    -- only three operations change the table of the users
    have he := hperformed.effect
    generalize s'.world = world at *
    cases he with
    | @accounts o a x he =>
      cases he with
      | createUser fresh _ inserted =>
        rcases (Table.mem_insert? inserted).mp hu with hu | rfl
        · exact hold hu
        · exact accounted_of_create hperformed hcontinues
      | applyUpdatesAndSave inserted =>
        rcases (mem_save inserted).mp hu with ⟨hu, -⟩ | rfl
        · exact hold hu
        · exact (accounted_of_save hspelled hdocumented h hperformed).mono hf
      | deleteUser id => exact hold (Table.mem_delete.mp hu).1
      | _ => exact hold hu
    | @money o a m he =>
      have hkept : (s.world.putMoney m).accounts = s.world.accounts :=
        putMoney_accounts (users_of_effect hperformed.guarantees.1 he)
      exact hold (hkept ▸ hu)
    | query => exact hold hu
  read d hd u hread := by
    rcases hcontinues.others d hd with hd | rfl
    · exact (h.read d hd u hread).mono hf
    · rw [hcontinues.answers] at hread
      rcases read_of_effect hperformed.effect hread with hread | hu
      · exact (h.read c hperformed.call u hread).mono hf
      · exact (h.rows u hu).mono hf

end Steps

theorem custody_of_reaches (hinitial : w.Initial P) (h : (server P registry).Reaches Wired ⟨w, []⟩ s) :
    Custody P w s := by
  refine run_induction hinitial ⟨fun u hu => ⟨.initial hu, .initial hu⟩, ?_⟩ ?_ ?_ h
  · intro c hc
    cases hc
  · intro s s' req c _ hcustody hf harrives
    exact hcustody.arrives hf harrives
  · intro s s' i c o r c' hr hcustody hf hperformed hcontinues
    refine hcustody.performs (documented_of_reaches hinitial hr) (fun bearer u hidentified => ?_) hf hperformed
      hcontinues
    exact hidentified.collate_id hinitial hr hperformed.call

/-- Every stored account has a password that was set for it and a role that it was given. -/
theorem chain_of_custody (hinitial : w.Initial P) (h : (server P registry).Reaches Wired ⟨w, []⟩ s) :
    ∀ u ∈ s.world.accounts.users, Accounted P w s u :=
  (custody_of_reaches hinitial h).rows

theorem chain_of_custody_day : ∃ s, Reachable plainPackages cardPayments s ∧
    s.world.accounts.users.rows.map (·.password) = ["salt-toor0", "salt-ada00", "bob11"] ∧
      ∀ u ∈ s.world.accounts.users, Accounted plainPackages startWorld s u := by
  have hrun : ((server plainPackages cardPayments).runUnder Wired day ⟨startWorld, []⟩).map (fun s =>
      decide (s.world.accounts.users.rows.map (·.password) = ["salt-toor0", "salt-ada00", "bob11"])) =
        some true := by
    decide +kernel
  obtain ⟨s, hs, hfacts⟩ := Option.map_eq_some_iff.mp hrun
  have h := Server.reaches_of_runUnder hs
  exact ⟨s, ⟨_, startWorld_initial, h⟩, of_decide_eq_true hfacts, chain_of_custody startWorld_initial h⟩

end LiorParisWallet.Backend
