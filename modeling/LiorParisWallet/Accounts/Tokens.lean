import LiorParisWallet.Accounts.Identity
import LiorParisWallet.Async.Sequential

/-!
# Tokens

A token names the id and the email of the account that it was issued to, and `JwtStrategy.validate` looks
at the email only.  The email of a deleted account is free again, so the token of a deleted account
authenticates whoever registers the address next.  As long as no such address is taken again, a token
authenticates the account that it was issued to and no other, and nobody once that account is deleted.
-/

namespace LiorParisWallet.Accounts

open Async Relational

variable {P : Packages} {w w' : World} {s s' : State} {token : JwtPayload}

/-- A call of `register` or `login` has returned the token. -/
def Issued (s : State) (token : JwtPayload) : Prop :=
  ∃ i result, s.outcome i = some (.ok (.user result)) ∧ result.access_token = some token

/-- `validate` accepts the token, and this is the user that it returns. -/
def Authenticates (P : Packages) (token : JwtPayload) (w : World) (user : Users) : Prop :=
  ∃ i w', (server P).Runs i (JwtStrategy.validate token) w (.ok user) w'

/-- The email under which the operation inserts a row, if it does. -/
def Op.inserts (w : World) : Op → Option String
  | .createUser data => some data.email
  | .applyUpdatesAndSave user updateData =>
      if (w.findUserById (assign user updateData).id).isSome then none
      else some (assign user updateData).email
  | _ => none

/-- Once the account of the token is deleted, no row is inserted under its email. -/
def NoReuse (token : JwtPayload) (s : State) : Label Request Choice → Prop
  | .start _ => True
  | .step i ω => ∀ o ∈ s.awaits i, ω.fault = none → o.inserts s.world = some token.email →
      token.userId ∉ s.world.deleted.map (·.id)

instance (s : State) (l : Label Request Choice) : Decidable (NoReuse token s l) :=
  match l with
  | .start _ => .isTrue trivial
  | .step i ω => inferInstanceAs (Decidable (∀ o ∈ s.awaits i, ω.fault = none → _))

theorem authenticates_iff {user : Users} :
    Authenticates P token w user ↔ w.findUserByEmail token.email = some user := by
  constructor
  · rintro ⟨i, w', hrun⟩
    obtain ⟨found, w₁, hcall, hrest⟩ := Server.runs_bind_ok.mp hrun
    obtain ⟨ω, hp⟩ := Server.runs_call.mp hcall
    obtain ⟨hfound, rfl⟩ := foundByEmail_of_effect (performs hp)
    cases found with
    | none => cases (Server.runs_throw.mp hrest).1
    | some found =>
      cases (Server.runs_pure.mp hrest).1
      exact hfound.symm
  · intro hfound
    refine ⟨0, w, Server.runs_bind_ok.mpr ⟨some user, w, Server.runs_call.mpr ⟨{}, ?_⟩, ?_⟩⟩
    · show some (Except.ok (w.findUserByEmail token.email), w) = _
      rw [hfound]
    · exact Server.runs_pure.mpr ⟨rfl, rfl⟩

/-- If the account of the token is deleted, nobody is registered under its email. -/
def Retired (token : JwtPayload) (w : World) : Prop :=
  ∀ d ∈ w.deleted, d.id = token.userId → d.email = token.email →
    ∀ u ∈ w.users, u.email ≠ token.email

theorem fault_of_settle {α : Type} {ω : Choice} {result : Except Exception (α × World)} {a : α}
    (h : some (w.settle ω result) = some (.ok a, w')) : ω.fault = none := by
  have h := Option.some.inj h
  unfold World.settle at h
  split at h
  · cases h
  · assumption
  · assumption

theorem Retired.effect {o : Op} {ω : Choice} {r : Except Exception (Ans o)} (h : Retired token w)
    (hinv : w.Inv P) (hpre : Owes o w) (hp : perform P o ω w = some (r, w'))
    (hallowed : ω.fault = none → o.inserts w = some token.email →
      token.userId ∉ w.deleted.map (·.id)) : Retired token w' := by
  have he := effect_of_perform hp
  cases he with
  | @createUser data uuid users hfresh _ hinsert =>
    have hfault : ω.fault = none := fault_of_settle (createUser_eq_some hp).2.2
    intro d hd hid hemail u hu
    rcases (Table.mem_insert? hinsert).mp hu with hu | rfl
    · exact h d hd hid hemail u hu
    · intro heq
      exact hallowed hfault (congrArg some heq) (hid ▸ List.mem_map_of_mem hd)
  | @applyUpdatesAndSave user updateData users hinsert =>
    have hsaves := hpre _ _ rfl
    intro d hd hid hemail u hu
    rcases (mem_save hinsert).mp hu with hu | rfl
    · exact h d hd hid hemail u hu.1
    · cases hfound : w.findUserById (assign user updateData).id with
      | none =>
        intro heq
        refine hallowed (fault_of_settle hp) ?_ (hid ▸ List.mem_map_of_mem hd)
        rw [Op.inserts, hfound, ← heq]
        rfl
      | some stored =>
        -- the row was there with that email before
        obtain ⟨hstored, hstored_id⟩ := mem_of_findUserById hfound
        rw [hsaves.assign_id] at hstored_id
        rw [hsaves.assign_email,
          hinv.email _ _ _ hsaves.known (hstored_id ▸ World.known_of_mem hstored)]
        exact h d hd hid hemail stored hstored
  | deleteUser id =>
    intro d hd hid hemail u hu heq
    obtain ⟨hu, hne⟩ := Table.mem_delete.mp hu
    rcases List.mem_append.mp hd with hd | hd
    · -- the deleted row was the only one with the email
      obtain ⟨hd, hd_id⟩ := List.mem_filter.mp hd
      rw [Users.eq_of_email hu hd (heq.trans hemail.symm), hd_id] at hne
      cases hne
    · exact h d hd hid hemail u hu heq
  | _ => exact h

theorem Retired.reaches (hw : w.Initial P)
    (h : (server P).Reaches (NoReuse token) ⟨w, []⟩ s) : Retired token s.world := by
  refine Contract.reaches_induction (accounts_meet P) (Contract.sound_idle hw.inv) h
    (fun s => Retired token s.world) ?_ (fun s req _ hu => hu) ?_
  · intro d hd
    rw [show w.deleted = [] from hw.deleted] at hd
    cases hd
  · intro s i ω c o next r world hsound hallowed hc hp hpre hperf hu
    exact hu.effect hsound.inv hpre hperf (hallowed o (System.awaits_eq hc hp))

/-- The account of a token that was issued is known for ever after. -/
theorem Issued.known (h : Reachable P s) (hissued : Issued s token) :
    s.world.Known token.userId token.email := by
  obtain ⟨i, result, ho, htoken⟩ := hissued
  obtain ⟨c, hc, hr⟩ := Option.bind_eq_some_iff.mp ho
  have htracks := h.sound.tracks i (List.getElem?_eq_some_iff.mp hc).1
  obtain ⟨w, hrely, hgrants⟩ := htracks.outcome hc hr
  exact hrely _ _ (hgrants result token rfl htoken)

theorem Issued.reaches {allowed : State → Label Request Choice → Prop} (hissued : Issued s token)
    (h : (server P).Reaches allowed s s') : Issued s' token :=
  let ⟨i, result, ho, htoken⟩ := hissued
  ⟨i, result, h.outcome ho, htoken⟩

/-- In every run that inserts no row under the email of the token once its account is deleted, the token
    authenticates only the account that it was issued to, and nobody after that account was deleted. -/
theorem tokens_authenticate_owner {user : Users} (hw : w.Initial P)
    (h₀ : (server P).Reaches (NoReuse token) ⟨w, []⟩ s) (hissued : Issued s token)
    (h : (server P).Reaches (NoReuse token) s s') (hauth : Authenticates P token s'.world user) :
    user.id = token.userId ∧ token.userId ∉ s'.world.deleted.map (·.id) := by
  have hr := h₀.trans h
  have hreach : Reachable P s' := ⟨w, hw, hr.any⟩
  have hinv := hreach.sound.inv
  obtain ⟨huser, hemail⟩ := mem_of_findUserByEmail (authenticates_iff.mp hauth)
  have hknown := (hissued.reaches h).known hreach
  have hlive : token.userId ∉ s'.world.deleted.map (·.id) := by
    intro hdeleted
    obtain ⟨d, hd, hid⟩ := List.mem_map.mp hdeleted
    have hd_email := hinv.email _ _ _ ⟨d, .inr hd, hid, rfl⟩ hknown
    exact Retired.reaches hw hr d hd hid hd_email user huser hemail
  obtain ⟨u, hu | hu, hid, hu_email⟩ := hknown
  · -- the account is stored, so it is the one that is found under its email
    rw [Users.eq_of_email huser hu (hemail.trans hu_email.symm)]
    exact ⟨hid, hlive⟩
  · exact absurd (hid ▸ List.mem_map_of_mem hu) hlive

/-- The row is stored, or another row with its email has kept it out. -/
theorem stored_of_insert? {users users' : Table Users} {u : Users} (hid : ∀ a ∈ users, a.id ≠ u.id)
    (h : users.insert? u = some users' ∨ users.insert? u = none ∧ users' = users) :
    ∃ a ∈ users', a.email = u.email := by
  rcases h with hsome | ⟨hnone, rfl⟩
  · exact ⟨u, (Table.mem_insert? hsome).mpr (.inr rfl), rfl⟩
  · obtain ⟨a, ha⟩ := Table.insert?_eq_none_iff.mp hnone
    obtain ⟨hmem, hclash⟩ := Table.mem_of_find? ha
    rcases Bool.or_eq_true_iff.mp hclash with heq | heq
    · exact absurd (beq_iff_eq.mp heq) (hid a hmem)
    · exact ⟨a, hmem, beq_iff_eq.mp heq⟩

/-- The condition is exact: if a row is inserted under the email of a token whose account is deleted, the
    token is accepted from then on. -/
theorem accepted_of_inserts {o : Op} {ω : Choice} {r : Except Exception (Ans o)} (hinv : w.Inv P)
    (hp : perform P o ω w = some (r, w')) (hfault : ω.fault = none)
    (hinserts : o.inserts w = some token.email) : ∃ user, Authenticates P token w' user := by
  suffices hstored : ∃ u ∈ w'.users, u.email = token.email by
    obtain ⟨u, hu, hemail⟩ := hstored
    refine ⟨u, authenticates_iff.mpr (Table.find?_eq_some hu (beq_iff_eq.mpr hemail) fun b hb => ?_)⟩
    simp [Entity.clash, hemail, beq_iff_eq.mp hb]
  cases o with
  | createUser data =>
    obtain ⟨hfresh, -, hp⟩ := createUser_eq_some hp
    rw [World.settle_of_fault hfault] at hp
    have hid : ∀ a ∈ w.users, a.id ≠ (data.create ω.uuid).id := by
      intro a ha heq
      have hissued := hinv.issued _ _ (World.known_of_mem ha)
      rw [heq] at hissued
      exact hfresh hissued
    rw [← Option.some.inj hinserts]
    cases hinsert : w.users.insert? (data.create ω.uuid) <;>
      rw [World.createUser, hinsert] at hp <;> cases hp
    · exact stored_of_insert? hid (.inr ⟨hinsert, rfl⟩)
    · exact stored_of_insert? hid (.inl hinsert)
  | applyUpdatesAndSave user updateData =>
    cases hfound : w.findUserById (assign user updateData).id with
    | some stored =>
      rw [Op.inserts, hfound] at hinserts
      cases hinserts
    | none =>
      rw [Op.inserts, hfound] at hinserts
      rw [← Option.some.inj hinserts]
      have hid : ∀ a ∈ w.users, (a.id == (assign user updateData).id) = false :=
        Table.find?_eq_none.mp hfound
      -- there is no row to take the place of
      have hdelete : w.users.delete (·.id == (assign user updateData).id) = w.users :=
        Table.ext (List.filter_eq_self.mpr fun a ha =>
          congrArg (!·) (hid a ha))
      have hp : some (w.settle ω (w.save (assign user updateData))) = some (r, w') := hp
      rw [World.settle_of_fault hfault, World.save, hdelete] at hp
      have hid' : ∀ a ∈ w.users, a.id ≠ (assign user updateData).id :=
        fun a ha => beq_eq_false_iff_ne.mp (hid a ha)
      cases hinsert : w.users.insert? (assign user updateData) <;>
        rw [hinsert] at hp <;> cases hp
      · exact stored_of_insert? hid' (.inr ⟨hinsert, rfl⟩)
      · exact stored_of_insert? hid' (.inl hinsert)
  | _ => cases hinserts

/-! ## Runs -/

/-- Ada signs in and is deleted, and Eve registers her address. -/
def reused : List (Label Request Choice) :=
  .start (signIn "ada@example.com" "ada00") :: steps 0 [{}, {}] ++
    .start (.deleteUser (some rootToken) "ada") :: steps 1 [{}, {}, {}] ++
    .start (registration "Eve" "ada@example.com" "eve00") ::
      steps 2 [{}, { salt := "salt-" }, { uuid := "eve" }, {}]

theorem deleted_token_authenticates : ∃ s user, Reachable plainPackages s ∧ Issued s adaToken ∧
    adaToken.userId ∈ s.world.deleted.map (·.id) ∧
    Authenticates plainPackages adaToken s.world user ∧ user.id ≠ adaToken.userId := by
  have hrun : ((server plainPackages).run reused ⟨startWorld, []⟩).map (fun s =>
      decide (s.outcome 0 = some (.ok (.user (mapResult ada (some adaToken)))) ∧
        s.world.deleted = [ada] ∧
        s.world.findUserByEmail "ada@example.com" =
          some ⟨"eve", "Eve", "ada@example.com", "salt-eve00", .user⟩)) = some true := by
    decide +kernel
  obtain ⟨s, hs, hfacts⟩ := Option.map_eq_some_iff.mp hrun
  obtain ⟨ho, hdeleted, hfound⟩ := of_decide_eq_true hfacts
  refine ⟨s, _, ⟨startWorld, startWorld_initial, Server.reaches_of_run hs⟩, ⟨0, _, ho, rfl⟩, ?_,
    authenticates_iff.mpr hfound, by decide⟩
  rw [hdeleted]
  decide

/-- Ada signs in and Eve registers an address of her own. -/
def separate : List (Label Request Choice) :=
  .start (signIn "ada@example.com" "ada00") :: steps 0 [{}, {}] ++
    .start (registration "Eve" "eve@example.com" "eve00") ::
      steps 1 [{}, { salt := "salt-" }, { uuid := "eve" }, {}]

theorem tokens_authenticate_owner_separate : ∃ s user,
    (server plainPackages).Reaches (NoReuse adaToken) ⟨startWorld, []⟩ s ∧ Issued s adaToken ∧
    Authenticates plainPackages adaToken s.world user ∧
    (user.id = adaToken.userId ∧ adaToken.userId ∉ s.world.deleted.map (·.id)) := by
  have hrun : ((server plainPackages).runUnder (NoReuse adaToken) separate ⟨startWorld, []⟩).map
      (fun s => decide (s.outcome 0 = some (.ok (.user (mapResult ada (some adaToken)))) ∧
        s.world.findUserByEmail "ada@example.com" = some ada)) = some true := by
    decide +kernel
  obtain ⟨s, hs, hfacts⟩ := Option.map_eq_some_iff.mp hrun
  obtain ⟨ho, hfound⟩ := of_decide_eq_true hfacts
  have hr := Server.reaches_of_runUnder hs
  have hissued : Issued s adaToken := ⟨0, _, ho, rfl⟩
  have hauth : Authenticates plainPackages adaToken s.world ada := authenticates_iff.mpr hfound
  exact ⟨s, ada, hr, hissued, hauth,
    tokens_authenticate_owner startWorld_initial hr hissued .refl hauth⟩

end LiorParisWallet.Accounts
