import LiorParisWallet.Accounts.Identity
import LiorParisWallet.Async.History

/-!
# Concurrent updates

`UsersRepository.updateUserDetails` reads an entity, merges the update into it and saves the whole of it
later, without a lock or a version.  What was completed in between is written back, and a row that was
deleted in between is inserted again.  Updates keep each other's results exactly when no save meets a row
that has changed, beyond the columns of the update, since the entity was read.
-/

namespace LiorParisWallet.Accounts

open Async Relational

abbrev RecordedWorld : Type := Recorded Op Ans Exception World

abbrev RecordedState : Type := History Op Ans Exception Request Reply World

/-- A state that some recorded run reaches from an initial world. -/
def RecordedReachable (P : Packages) (s : RecordedState) : Prop :=
  ∃ w : World, w.Initial P ∧ (server P).recorded.Reaches Server.Any (System.record ⟨w, []⟩) s

/-- The columns of `users` besides the primary key. -/
inductive Column where
  | name
  | email
  | password
  | role
deriving DecidableEq

/-- What the column of the row holds. -/
def Column.value (c : Column) (u : Users) : String :=
  match c with
  | .name => u.name
  | .email => u.email
  | .password => u.password
  | .role => u.role.value

/-- The update data has a value for the column. -/
def PartialUsers.names (updateData : PartialUsers) : Column → Bool
  | .name => updateData.name.isSome
  | .email => updateData.email.isSome
  | .password => updateData.password.isSome
  | .role => updateData.role.isSome

/-- What is stored in the column of the account. -/
def World.column (w : World) (id : String) (c : Column) : Option String :=
  (w.findUserById id).map c.value

/-- The event has written the column on purpose: it completed an update whose data names it, or the
    deletion of the account. -/
def writes (P : Packages) (id : String) (c : Column) : Event Op Ans Exception World → Bool
  | ⟨_, .applyUpdatesAndSave user updateData, .ok _, _⟩ => user.id == id && updateData.names c
  | ⟨_, .deleteUser id', .ok _, _⟩ => P.collate id' == id
  | _ => false

/-- No result of a call is undone: what a column holds at some moment it holds until an event writes the
    column, and an account that was deleted is not there any more. -/
structure Kept (P : Packages) (w : RecordedWorld) : Prop where
  columns : ∀ m n w₁ w₂ id c v, m ≤ n → w.worlds[m]? = some w₁ → w.worlds[n]? = some w₂ →
    w₁.column id c = some v → (∀ e ∈ (w.log.take n).drop m, writes P id c e = false) →
      w₂.column id c = some v
  deletions : ∀ w₁ ∈ w.worlds, ∀ d ∈ w₁.deleted, w₁.findUserById d.id = none

/-- If the event is a save, it meets the row as the entity has it, but for the columns that the update
    data names. -/
def Current : Event Op Ans Exception World → Prop
  | ⟨_, .applyUpdatesAndSave user updateData, .ok _, w⟩ => ∃ row ∈ w.findUserById user.id,
      ∀ c : Column, updateData.names c = false → c.value row = c.value user
  | _ => True

instance {p : Column → Prop} [DecidablePred p] : Decidable (∀ c, p c) :=
  decidable_of_iff (p .name ∧ p .email ∧ p .password ∧ p .role)
    ⟨fun ⟨h₁, h₂, h₃, h₄⟩ c => by cases c <;> assumption, fun h => ⟨h _, h _, h _, h _⟩⟩

instance (e : Event Op Ans Exception World) : Decidable (Current e) := by
  unfold Current
  split <;> infer_instance

variable {P : Packages} {w w' : World} {s : RecordedState}

theorem findUserById_eq {u : Users} (h : u ∈ w.users) : w.findUserById u.id = some u :=
  Table.find?_eq_some h (beq_self_eq_true _) fun b hb => by simp [Entity.clash, beq_iff_eq.mp hb]

theorem findUserById_of_mem {u : Users} {id : String} (h : u ∈ w.users) (hid : u.id = id) :
    w.findUserById id = some u :=
  hid ▸ findUserById_eq h

/-- The columns that the update data does not name stay those of the entity. -/
theorem value_assign {user : Users} {updateData : PartialUsers} {c : Column}
    (h : updateData.names c = false) : c.value (assign user updateData) = c.value user := by
  cases c <;>
    · simp only [PartialUsers.names, Option.isSome_eq_false_iff, Option.isNone_iff_eq_none] at h
      simp only [Column.value, assign, h, Option.getD_none]

/-! ## One event -/

section Event

variable {i : ℕ} {o : Op} {r : Except Exception (Ans o)} {id : String} {c : Column} {v : String}

theorem column_of_effect (he : Effect P w o r w') (hpre : Owes o w) (hcurrent : Current ⟨i, o, r, w⟩)
    (hv : w.column id c = some v) (hwrites : writes P id c ⟨i, o, r, w⟩ = false) :
    w'.column id c = some v := by
  obtain ⟨u, hfound, rfl⟩ := Option.map_eq_some_iff.mp hv
  obtain ⟨hu, rfl⟩ := mem_of_findUserById hfound
  cases he with
  | createUser hfresh _ hinsert =>
    rw [World.column, findUserById_eq ((Table.mem_insert? hinsert).mpr (.inl hu))]
    rfl
  | @applyUpdatesAndSave user updateData users hinsert =>
    have hsaves := hpre _ _ rfl
    by_cases hid : user.id = u.id
    · -- the row is replaced by the entity, which agrees with it on this column
      have hnames : updateData.names c = false := by
        rwa [writes, beq_iff_eq.mpr hid, Bool.true_and] at hwrites
      obtain ⟨row, hrow, hagree⟩ := hcurrent
      rw [hid] at hrow
      obtain rfl : u = row := Option.some.inj (hfound.symm.trans hrow)
      rw [World.column, findUserById_of_mem ((mem_save hinsert).mpr (.inr rfl))
        (hsaves.assign_id.trans hid), Option.map_some, value_assign hnames, hagree c hnames]
    · have hne : u.id ≠ (assign user updateData).id := by
        rw [hsaves.assign_id]
        exact Ne.symm hid
      rw [World.column, findUserById_eq ((mem_save hinsert).mpr (.inl ⟨hu, hne⟩))]
      rfl
  | deleteUser id' =>
    have hne : (u.id == P.collate id') = false := by
      rw [BEq.comm]
      exact hwrites
    rw [World.column, findUserById_eq (Table.mem_delete.mpr ⟨hu, hne⟩)]
    rfl
  | _ => exact hv

/-- The deleted accounts are not stored. -/
def Gone (w : World) : Prop :=
  ∀ d ∈ w.deleted, ∀ u ∈ w.users, u.id ≠ d.id

theorem gone_of_effect (he : Effect P w o r w') (hinv : w.Inv P) (hpre : Owes o w)
    (hcurrent : Current ⟨i, o, r, w⟩) (h : Gone w) : Gone w' := by
  cases he with
  | createUser hfresh _ hinsert =>
    intro d hd u hu
    rcases (Table.mem_insert? hinsert).mp hu with hu | rfl
    · exact h d hd u hu
    · -- the id of a deleted account is not generated again
      rintro rfl
      exact hfresh (hinv.issued _ _ ⟨d, .inr hd, rfl, rfl⟩)
  | @applyUpdatesAndSave user updateData users hinsert =>
    intro d hd u hu
    rcases (mem_save hinsert).mp hu with hu | rfl
    · exact h d hd u hu.1
    · obtain ⟨row, hrow, -⟩ := hcurrent
      obtain ⟨hmem, hid⟩ := mem_of_findUserById hrow
      rw [(hpre _ _ rfl).assign_id, ← hid]
      exact h d hd row hmem
  | deleteUser id' =>
    intro d hd u hu
    obtain ⟨hu, hne⟩ := Table.mem_delete.mp hu
    rcases List.mem_append.mp hd with hd | hd
    · rw [beq_iff_eq.mp (List.mem_filter.mp hd).2]
      exact beq_eq_false_iff_ne.mp hne
    · exact h d hd u hu
  | _ => exact h

end Event

/-! ## Runs -/

/-- What an event of a run has done. -/
theorem RecordedReachable.event (h : RecordedReachable P s) {k : ℕ} {e : Event Op Ans Exception World}
    (he : s.world.log[k]? = some e) :
    e.world.Inv P ∧ Owes e.op e.world ∧
      ∃ w', s.world.worlds[k + 1]? = some w' ∧ Effect P e.world e.op e.answer w' := by
  obtain ⟨w, hw, hr⟩ := h
  obtain ⟨s₁, ω, w', hr₁, hawaits, hworld, hp, hnext⟩ :=
    (hr.occurs (Nat.zero_le _) he).next_world
  have hsound := Reachable.sound (P := P) ⟨w, hw, hr₁.forget⟩
  obtain ⟨c, hc, ho⟩ := Option.bind_eq_some_iff.mp hawaits
  have htracks := hsound.tracks e.call (List.getElem?_eq_some_iff.mp hc).1
  have hpre : Owes e.op s₁.world.world := by
    cases hprogram : c.program with
    | await o next =>
      rw [hprogram] at ho
      obtain rfl : o = e.op := Option.some.inj ho
      exact htracks.pre hsound.inv hc hprogram
    | _ =>
      rw [hprogram] at ho
      cases ho
  rw [hworld]
  exact ⟨hsound.inv, hpre, w', hnext, hworld ▸ performs hp⟩

theorem kept_of_current (h : RecordedReachable P s) (hcurrent : ∀ e ∈ s.world.log, Current e) :
    Kept P s.world where
  columns m n w₁ w₂ id c v hmn hm hn hv hwrites := by
    refine Recorded.worlds_induction (J := fun w => w.column id c = some v) hmn hm hn hv
      fun k e w' hmk hkn he hw' hv => ?_
    obtain ⟨-, hpre, w'', hnext, heffect⟩ := h.event he
    obtain rfl : w'' = w' := Option.some.inj (hnext.symm.trans hw')
    refine column_of_effect heffect hpre (hcurrent e (List.mem_of_getElem? he)) hv (hwrites e ?_)
    refine List.mem_of_getElem? (i := k - m) ?_
    rw [List.getElem?_drop, List.getElem?_take_of_lt (by omega), Nat.add_sub_cancel' hmk]
    exact he
  deletions := by
    obtain ⟨w, hw, hr⟩ := id h
    have hgone : ∀ w₁ ∈ s.world.worlds, Gone w₁ := by
      intro w₁ hw₁
      obtain ⟨n, hn⟩ := List.getElem?_of_mem hw₁
      refine Recorded.worlds_induction (J := Gone) (Nat.zero_le n) (hr.worlds_zero rfl) hn ?_
        fun k e w' _ _ he hw' hgone => ?_
      · intro d hd
        have hd : d ∈ w.deleted := hd
        rw [hw.deleted] at hd
        cases hd
      · obtain ⟨hinv, hpre, w'', hnext, heffect⟩ := h.event he
        obtain rfl : w'' = w' := Option.some.inj (hnext.symm.trans hw')
        exact gone_of_effect heffect hinv hpre (hcurrent e (List.mem_of_getElem? he)) hgone
    intro w₁ hw₁ d hd
    refine Table.find?_eq_none.mpr fun u hu => beq_eq_false_iff_ne.mpr ?_
    exact hgone w₁ hw₁ d hd u hu

theorem current_of_kept (h : RecordedReachable P s) (hkept : Kept P s.world)
    {e : Event Op Ans Exception World} (he : e ∈ s.world.log) : Current e := by
  obtain ⟨k, hk⟩ := List.getElem?_of_mem he
  obtain ⟨-, hpre, w', hnext, heffect⟩ := h.event hk
  have hw := Recorded.worlds_getElem? hk
  have honly : ∀ e' ∈ (s.world.log.take (k + 1)).drop k, e' = e := by
    intro e' he'
    rw [List.drop_take, Nat.add_sub_cancel_left, List.take_one, List.head?_drop, hk] at he'
    exact List.mem_singleton.mp he'
  obtain ⟨i, o, r, w⟩ := e
  have heffect : Effect P w o r w' := heffect
  cases heffect with
  | failed o e => cases o <;> trivial
  | @applyUpdatesAndSave user updateData users hinsert =>
    have hsaves := hpre _ _ rfl
    have hsaved : World.findUserById { w with users := users } user.id =
        some (assign user updateData) :=
      findUserById_of_mem ((mem_save hinsert).mpr (.inr rfl)) hsaves.assign_id
    obtain ⟨u, hu | hu, hid, -⟩ := hsaves.known
    · have hrow := findUserById_of_mem hu hid
      refine ⟨u, hrow, fun c hnames => ?_⟩
      -- the column was not to be written, so it is what it was
      have hcolumn := hkept.columns k (k + 1) _ _ user.id c (c.value u) (Nat.le_succ k) hw hnext
        (by rw [World.column, hrow]; rfl) ?_
      · rw [World.column, hsaved, Option.map_some, value_assign hnames] at hcolumn
        exact (Option.some.inj hcolumn).symm
      · intro e' he'
        rw [honly e' he', writes, hnames, Bool.and_false]
    · -- the account was deleted, and the save has inserted it again
      have hnone := hkept.deletions _ (List.mem_of_getElem? hnext) u hu
      rw [hid, hsaved] at hnone
      cases hnone
  | _ => trivial

/-- Concurrent updates keep each other's results if and only if every save meets the row as its call has
    read it, but for the columns of the update. -/
theorem updates_kept_iff (h : RecordedReachable P s) :
    Kept P s.world ↔ ∀ e ∈ s.world.log, Current e :=
  ⟨fun hkept _ he => current_of_kept h hkept he, kept_of_current h⟩

/-! ## Overtaken saves -/

/-- Ada changes her name and her password.  The new name is saved last, and with it the old password. -/
def overtaken : List (Label Request Choice) :=
  .start (rename adaToken "ada" "Ada L") :: steps 0 [{}, {}, {}] ++
    .start (newPassword adaToken "ada00" "ada11") :: steps 1 [{}, {}, {}, { salt := "salt-" }, {}, {}] ++
    steps 0 [{}]

theorem password_reverted : ∃ s, RecordedReachable plainPackages s ∧
    s.outcome 1 = some (.ok (.message "Password updated successfully")) ∧
    s.world.world.column "ada" .password = some "salt-ada00" ∧ ¬ Kept plainPackages s.world := by
  have hrun : ((server plainPackages).recorded.run overtaken (System.record ⟨startWorld, []⟩)).map
      (fun s => decide (s.outcome 1 = some (.ok (.message "Password updated successfully")) ∧
        s.world.world.column "ada" .password = some "salt-ada00" ∧
        s.world.log.length = 10 ∧
        s.world.worlds[9]?.bind (·.column "ada" .password) = some "salt-ada11" ∧
        ∀ e ∈ (s.world.log.take 10).drop 9, writes plainPackages "ada" .password e = false)) = some true := by
    decide +kernel
  obtain ⟨s, hs, hfacts⟩ := Option.map_eq_some_iff.mp hrun
  obtain ⟨ho, hnow, hlength, hbefore, hwrites⟩ := of_decide_eq_true hfacts
  refine ⟨s, ⟨startWorld, startWorld_initial, Server.reaches_of_run hs⟩, ho, hnow, fun hkept => ?_⟩
  obtain ⟨w₁, hw₁, hcolumn⟩ := Option.bind_eq_some_iff.mp hbefore
  have hlast := s.world.worlds_getElem?_length
  rw [hlength] at hlast
  have hkeeps := hkept.columns 9 10 w₁ _ "ada" .password _ (by omega) hw₁ hlast hcolumn hwrites
  rw [hnow] at hkeeps
  exact absurd (Option.some.inj hkeeps) (by decide)

/-- Ada changes her name and then her password. -/
def orderly : List (Label Request Choice) :=
  .start (rename adaToken "ada" "Ada L") :: steps 0 [{}, {}, {}, {}] ++
    .start (newPassword adaToken "ada00" "ada11") :: steps 1 [{}, {}, {}, { salt := "salt-" }, {}, {}]

theorem updates_kept_orderly : ∃ s, RecordedReachable plainPackages s ∧
    s.world.world.column "ada" .name = some "Ada L" ∧
    s.world.world.column "ada" .password = some "salt-ada11" ∧ Kept plainPackages s.world := by
  have hrun : ((server plainPackages).recorded.run orderly (System.record ⟨startWorld, []⟩)).map
      (fun s => decide (s.world.world.column "ada" .name = some "Ada L" ∧
        s.world.world.column "ada" .password = some "salt-ada11" ∧
        ∀ e ∈ s.world.log, Current e)) = some true := by
    decide +kernel
  obtain ⟨s, hs, hfacts⟩ := Option.map_eq_some_iff.mp hrun
  obtain ⟨hname, hpassword, hcurrent⟩ := of_decide_eq_true hfacts
  have hr : RecordedReachable plainPackages s :=
    ⟨startWorld, startWorld_initial, Server.reaches_of_run hs⟩
  exact ⟨s, hr, hname, hpassword, (updates_kept_iff hr).mpr hcurrent⟩

end LiorParisWallet.Accounts
