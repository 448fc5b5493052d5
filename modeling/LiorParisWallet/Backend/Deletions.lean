import LiorParisWallet.Backend.Missing

/-!
# What deletions leave behind

Whatever a call has read stays true of an account or a wallet until the account is deleted, and an account is
deleted on the request of an administrator.
-/

namespace LiorParisWallet.Backend

open Async Relational Accounts

variable {P : Packages} {registry : PaymentGatewayRegistry} {w w' : World} {s s' : State} {i : ℕ}
variable {c c' : Call Op Ans Exception Request Reply} {o : Op} {r : Except Exception (Ans o)}

/-- The database, the cache and the provider throw no exception of this kind of their own. -/
def Choice.plain (ω : Choice) : Bool :=
  ω.accounts.plain && ω.money.plain

/-- The listener is called with what has been emitted, and every choice is plain. -/
def Plainly (s : State) : Label Request Choice → Prop
  | .start req => Wired s (.start req)
  | .step _ ω => ω.plain = true

instance (s : State) (l : Label Request Choice) : Decidable (Plainly s l) :=
  match l with
  | .start req => inferInstanceAs (Decidable (Wired s (.start req)))
  | .step _ ω => inferInstanceAs (Decidable (ω.plain = true))

theorem wired_of_plainly (s : State) (l : Label Request Choice) (h : Plainly s l) : Wired s l := by
  cases l with
  | start req => exact h
  | step i ω => trivial

/-- The account was read, or created. -/
def Met (answers : List (Answer Ans Exception)) (u : Users) : Prop :=
  Read answers u ∨ ∃ data, ⟨.accounts (.createUser data), .ok (.ok u)⟩ ∈ answers

/-- The wallet was read. -/
def WalletRead (answers : List (Answer Ans Exception)) (a : Wallet) : Prop :=
  (∃ userId currency, ⟨.money (.findByUserIdAndCurrency userId currency), .ok (.ok (some a))⟩ ∈ answers) ∨
    ∃ walletTag, ⟨.money (.findByWalletTag walletTag), .ok (.ok (some a))⟩ ∈ answers

/-- The call has read the account with this id or one of its wallets, or the listener was called for it. -/
inductive Concerns (c : Call Op Ans Exception Request Reply) : String → Prop where
  | account {u : Users} : Read c.answers u → Concerns c u.id
  | wallet {a : Wallet} : WalletRead c.answers a → Concerns c a.userId
  | registered {payload : UserRegisteredPayload} : c.request = .userRegistered payload →
      Concerns c payload.userId

/-- The account with this id was deleted, and an administrator had asked for it, spelling the id otherwise than its
    own. -/
def Removed (P : Packages) (s : State) (userId : String) : Prop :=
  (∃ u ∈ s.world.accounts.deleted, u.id = userId) ∧ ∃ c admin id, Sends s c admin.id (.deleteUser id) ∧
    P.collate id = userId ∧ ⟨.accounts (.findUserByEmail admin.email), .ok (.ok (some admin))⟩ ∈ c.answers ∧
      admin.role = .admin ∧ admin.id ≠ id

/-- The wallet is stored, or its owner was deleted. -/
def Held (w : World) (a : Wallet) : Prop :=
  (∃ b ∈ w.money.db.wallets, b.id = a.id ∧ b.userId = a.userId) ∨ ∃ u ∈ w.accounts.deleted, u.id = a.userId

/-! ## What stays -/

theorem Concerns.mono {userId : String} (h : Concerns c userId) (hanswers : c.answers ⊆ c'.answers)
    (hreq : c'.request = c.request) : Concerns c' userId := by
  cases h with
  | account h =>
    rcases h with ⟨email, h⟩ | ⟨id, h⟩
    · exact .account (.inl ⟨email, hanswers h⟩)
    · exact .account (.inr ⟨id, hanswers h⟩)
  | wallet h =>
    rcases h with ⟨id, currency, h⟩ | ⟨tag, h⟩
    · exact .wallet (.inl ⟨id, currency, hanswers h⟩)
    · exact .wallet (.inr ⟨tag, hanswers h⟩)
  | registered h => exact .registered (hreq.trans h)

theorem Removed.mono {userId : String} (h : Removed P s userId) (hf : Follows s s')
    (hdeleted : s.world.accounts.deleted ⊆ s'.world.accounts.deleted) : Removed P s' userId := by
  obtain ⟨⟨u, hu, hid⟩, d, admin, id, hsends, hspelling, hfound, hadmin⟩ := h
  obtain ⟨d', hsends', hanswers⟩ := hsends.mono hf
  exact ⟨⟨u, hdeleted hu, hid⟩, d', admin, id, hsends', hspelling, hanswers hfound, hadmin⟩

/-- An account that there was is deleted, if it is not stored. -/
theorem deleted_of_known {x : Accounts.World} {id email : String} (h : x.Known id email)
    (hnone : ∀ u ∈ x.users, u.id ≠ id) : ∃ u ∈ x.deleted, u.id = id := by
  obtain ⟨u, hu | hu, hid, -⟩ := h
  · exact absurd hid (hnone u hu)
  · exact ⟨u, hu, hid⟩

theorem deleted_of_effect (he : Effect P i w o r w') : w.accounts.deleted ⊆ w'.accounts.deleted := by
  cases he with
  | accounts he =>
    cases he with
    | deleteUser id => exact List.subset_append_right _ _
    | _ => exact fun _ h => h
  | _ => exact fun _ h => h

theorem wallet_of_effect {m m' : LiorParisWallet.World} {o : LiorParisWallet.Op} (hkeeps : KeepsUsers o)
    (he : LiorParisWallet.Effect i m o m') {b : Wallet} (hb : b ∈ m.db.wallets) :
    ∃ b' ∈ m'.db.wallets, b'.id = b.id ∧ b'.userId = b.userId := by
  cases he with
  | saveWallet fresh user inserted => exact ⟨b, (Table.mem_insert? inserted).mpr (.inl hb), rfl, rfl⟩
  | settleTransaction fresh wallet_mem enough entry event =>
    exact ⟨_, mem_setBalance.mpr ⟨b, hb, rfl⟩, by split <;> rfl, by split <;> rfl⟩
  | executeTransfer fresh sender_mem receiver_mem enough debit credit event =>
    refine ⟨_, mem_setBalance.mpr ⟨_, mem_setBalance.mpr ⟨b, hb, rfl⟩, rfl⟩, ?_, ?_⟩
    · split <;> split <;> rfl
    · split <;> split <;> rfl
  | deleteUser id => cases hkeeps
  | _ => exact ⟨b, hb, rfl, rfl⟩

theorem Held.step {a : Wallet} (h : Held s.world a) (hf : Follows s s')
    (hperformed : Performed P registry s i c o r s'.world) : Held s'.world a := by
  have he := hperformed.effect
  have hguarantees := hperformed.guarantees
  have hknown := hf.known
  generalize s'.world = world at *
  rcases h with ⟨b, hb, hid, howner⟩ | ⟨u, hu, hid⟩
  · cases he with
    | @accounts o a' x he =>
      by_cases hafter : ∃ u ∈ x.users, u.id = b.userId
      · exact .inl ⟨b, mem_cascade.mpr ⟨hb, fun _ => hafter⟩, hid, howner⟩
      · -- the owner of a stored wallet is stored, until it is deleted
        obtain ⟨u, hu, hu'⟩ := hperformed.inv.owners b hb
        have hnone : ∀ u' ∈ x.users, u'.id ≠ u.id := fun u' hmem heq => hafter ⟨u', hmem, heq.trans hu'⟩
        obtain ⟨u', hmem, heq⟩ := deleted_of_known (hknown _ _ (World.known_of_mem hu)) hnone
        exact .inr ⟨u', hmem, heq.trans (hu'.trans howner)⟩
    | money he =>
      obtain ⟨b', hb', hid', howner'⟩ := wallet_of_effect hguarantees.1 he hb
      exact .inl ⟨b', hb', hid'.trans hid, howner'.trans howner⟩
    | query => exact .inl ⟨b, hb, hid, howner⟩
  · exact .inr ⟨u, deleted_of_effect he hu, hid⟩

/-! ## What a reachable state remembers -/

structure Remembered (P : Packages) (s : State) : Prop where
  met : ∀ c ∈ s.calls, ∀ u, Met c.answers u → ∃ email, s.world.accounts.Known u.id email
  emitted : ∀ payload ∈ s.world.accounts.emitted, ∃ email, s.world.accounts.Known payload.userId email
  held : ∀ c ∈ s.calls, ∀ a, WalletRead c.answers a → Held s.world a
  removed : ∀ u ∈ s.world.accounts.deleted, Removed P s u.id
  missed : ∀ c ∈ s.calls, Blamed Missed c.answers → ∃ userId, Concerns c userId ∧ Removed P s userId

theorem known_of_met (hf : Follows s s') (he : Effect P i s.world o r s'.world) {u : Users}
    (h : Met (⟨o, r⟩ :: c.answers) u) : Met c.answers u ∨ s'.world.accounts.Known u.id u.email := by
  rcases h with hread | ⟨data, h⟩
  · rcases read_of_effect he hread with hread | hu
    · exact .inl (.inl hread)
    · exact .inr (hf.known _ _ (World.known_of_mem hu))
  · rcases List.mem_cons.mp h with heq | h
    · right
      generalize s'.world = world at he
      cases he with
      | accounts he =>
        cases heq
        cases he with
        | createUser fresh _ inserted => exact World.known_of_mem ((Table.mem_insert? inserted).mpr (.inr rfl))
      | money he => cases heq
      | query haccounts =>
        cases heq
        exact absurd rfl (haccounts _)
    · exact .inl (.inr ⟨data, h⟩)

theorem walletRead_of_perform {ω : Choice}
    (hperform : (server P registry).perform i o ω w = some (r, w')) {a : Wallet}
    (h : WalletRead (⟨o, r⟩ :: c.answers) a) : WalletRead c.answers a ∨ a ∈ w.money.db.wallets := by
  rcases h with ⟨userId, currency, h⟩ | ⟨walletTag, h⟩
  · rcases List.mem_cons.mp h with heq | h
    · cases heq
      obtain ⟨x, ω₀, heq, h₀⟩ := (moneyComponent P registry).perform hperform
      cases heq
      obtain ⟨-, hfound⟩ := read_ok h₀
      exact .inr (Table.mem_of_find? hfound.symm).1
    · exact .inl (.inl ⟨userId, currency, h⟩)
  · rcases List.mem_cons.mp h with heq | h
    · cases heq
      obtain ⟨x, ω₀, heq, h₀⟩ := (moneyComponent P registry).perform hperform
      cases heq
      obtain ⟨-, hfound⟩ := read_ok h₀
      exact .inr (Table.mem_of_find? hfound.symm).1
    · exact .inl (.inr ⟨walletTag, h⟩)

theorem Remembered.removed_of_known (hs : Remembered P s) {id email : String} (h : s.world.accounts.Known id email)
    (hnone : ∀ u ∈ s.world.accounts.users, u.id ≠ id) : Removed P s id := by
  obtain ⟨u, hu, rfl⟩ := deleted_of_known h hnone
  exact hs.removed u hu

theorem Remembered.removed_of_read (hs : Remembered P s) (hc : c ∈ s.calls) {u : Users} (h : Read c.answers u)
    (hnone : ∀ u' ∈ s.world.accounts.users, u'.id ≠ u.id) :
    ∃ userId, Concerns c userId ∧ Removed P s userId := by
  obtain ⟨email, hknown⟩ := hs.met c hc u (.inl h)
  exact ⟨u.id, .account h, hs.removed_of_known hknown hnone⟩

theorem Remembered.removed_of_walletRead (hs : Remembered P s) (hc : c ∈ s.calls) {a : Wallet}
    (h : WalletRead c.answers a) (hnone : ¬ ∃ b ∈ s.world.money.db.wallets, b.id = a.id) :
    ∃ userId, Concerns c userId ∧ Removed P s userId := by
  refine ⟨a.userId, .wallet h, ?_⟩
  rcases hs.held c hc a h with ⟨b, hb, hid, -⟩ | ⟨u, hu, hid⟩
  · exact absurd ⟨b, hb, hid⟩ hnone
  · rw [← hid]
    exact hs.removed u hu

/-- A wallet is opened for the account that the guard has found, or for the one that was registered. -/
theorem Remembered.removed_of_unopened (hs : Remembered P s) (hdocumented : Documented P s) (hc : c ∈ s.calls)
    {data : WalletData} (hpermits : Permits P registry c.request c.answers (.money (.saveWallet data)))
    (hnone : ¬ ∃ u ∈ s.world.money.db.users, u.id = data.userId) :
    ∃ userId, Concerns c userId ∧ Removed P s userId := by
  rw [s.world.users] at hnone
  cases hreq : c.request with
  | userRegistered payload =>
    rw [hreq] at hpermits
    obtain ⟨answers₀, -, hpermits⟩ := hpermits
    obtain ⟨huser, -⟩ := Prod.mk.inj (Option.some.inj hpermits.2)
    obtain ⟨email, hknown⟩ := hs.emitted payload (hdocumented.emitted c hc payload hreq)
    refine ⟨payload.userId, .registered hreq, hs.removed_of_known hknown fun u hu hid => hnone ?_⟩
    exact ⟨u, hu, hid.trans huser⟩
  | http contentType bearer route =>
    rw [hreq] at hpermits
    obtain ⟨user, req, answers₀, hadmitted, horders, hreports, hpermits⟩ := hpermits
    cases horders with
    | @createWallet body user input hinput =>
      obtain ⟨huser, -⟩ := Prod.mk.inj (Option.some.inj hpermits.2)
      obtain ⟨token, -, hfound, -⟩ := hadmitted.identified user rfl
      refine hs.removed_of_read hc (.inl ⟨_, hfound⟩) fun u hu hid => hnone ?_
      exact ⟨u, hu, hid.trans huser⟩
    | _ => cases hpermits.2

/-- The wallet of a deposit is read before the deposit is settled. -/
theorem Remembered.removed_of_unsettled (hs : Remembered P s) (hdocumented : Documented P s) (hc : c ∈ s.calls)
    {walletId : String} {t : Transaction} {type : LedgerEntryType} {change : ℤ} {data : OutboxData}
    (hpermits : Permits P registry c.request c.answers (.money (.settleTransaction walletId t type change data)))
    (hnone : ¬ ∃ b ∈ s.world.money.db.wallets, b.id = walletId) :
    ∃ userId, Concerns c userId ∧ Removed P s userId := by
  rcases ordered_of_permits hdocumented hc hpermits with ⟨payload, answers₀, -, ⟨-, -, -, ref, heq, -⟩⟩ |
    ⟨contentType, bearer, route, user, req, answers₀, -, -, -, hreports,
      ⟨-, -, -, ref, -, -, -, -, wallet, hfound, rfl⟩⟩
  · cases heq
  · exact hs.removed_of_walletRead hc (.inl ⟨_, _, mem_of_reports_money hreports hfound⟩) hnone

/-- Both wallets of a transfer are read before the money is moved. -/
theorem Remembered.removed_of_unmoved (hs : Remembered P s) (hdocumented : Documented P s) (hc : c ∈ s.calls)
    {t : Transfer} {fromWalletId toWalletId : String} {data : OutboxData}
    (hpermits : Permits P registry c.request c.answers (.money (.executeTransfer t fromWalletId toWalletId data)))
    (hnone : ¬ ((∃ b ∈ s.world.money.db.wallets, b.id = fromWalletId) ∧
      ∃ b ∈ s.world.money.db.wallets, b.id = toWalletId)) :
    ∃ userId, Concerns c userId ∧ Removed P s userId := by
  rcases ordered_of_permits hdocumented hc hpermits with ⟨payload, answers₀, -, ⟨_, _, _, _, _, _, heq, -⟩⟩ |
    ⟨contentType, bearer, route, user, req, answers₀, -, -, -, hreports,
      ⟨fromUserId, -, input, fromWallet, toWallet, -, -, hchecked, hfrom, -, -, rfl, rfl, -⟩⟩
  · cases heq
  · have hfrom := mem_of_reports_money hreports hfrom
    have hto := mem_of_reports_money hreports hchecked.found
    by_cases hsender : ∃ b ∈ s.world.money.db.wallets, b.id = fromWallet.id
    · exact hs.removed_of_walletRead hc (.inr ⟨_, hto⟩) fun hreceiver => hnone ⟨hsender, hreceiver⟩
    · exact hs.removed_of_walletRead hc (.inl ⟨_, _, hfrom⟩) hsender

/-- An operation of the money needs no other rows than those that were read. -/
theorem Remembered.removed_of_unstored (hs : Remembered P s) (hdocumented : Documented P s) (hc : c ∈ s.calls)
    {o : LiorParisWallet.Op} (hpermits : Permits P registry c.request c.answers (.money o))
    (hnot : ¬ Stored s.world.money.db o) : ∃ userId, Concerns c userId ∧ Removed P s userId := by
  cases o with
  | saveWallet data => exact hs.removed_of_unopened hdocumented hc hpermits hnot
  | settleTransaction walletId t type change data => exact hs.removed_of_unsettled hdocumented hc hpermits hnot
  | executeTransfer t fromWalletId toWalletId data => exact hs.removed_of_unmoved hdocumented hc hpermits hnot
  | _ => exact absurd trivial hnot

theorem ne_of_findUserById {x : Accounts.World} {userId : String} (h : x.findUserById userId = none) :
    ∀ u ∈ x.users, u.id ≠ userId := by
  intro u hu
  simpa using Table.find?_eq_none.mp h u hu

/-- Nothing fails of its own with such an exception. -/
theorem missesRow_of_perform {ω : Choice} {e : Exception} (hω : ω.plain = true)
    (h : (server P registry).perform i o ω w = some (.error e, w')) : e.missesRow = false := by
  have hquery : ∀ {α : Type} {a : α}, w.query ω a = some (.error e, w') → e.missesRow = false := by
    intro α a h
    unfold World.query at h
    split at h <;> cases h
    rename_i fault hfault
    have hplain := (Bool.and_eq_true_iff.mp hω).1
    unfold Accounts.Choice.plain at hplain
    rw [hfault] at hplain
    simpa [Exception.missesRow, Exception.money, Accounts.Exception.missesRow] using hplain
  cases o with
  | accounts o =>
    obtain ⟨_, _, heq⟩ := Option.map_eq_some_iff.mp h
    cases heq
  | money o =>
    obtain ⟨_, _, heq⟩ := Option.map_eq_some_iff.mp h
    cases heq
  | findUserByIdWithWallets userId => exact hquery h
  | findAll query => exact hquery h

/-- An operation misses a row only where a row that was read has been removed. -/
theorem Remembered.removed_of_missed (hs : Remembered P s) (hdocumented : Documented P s)
    (hspelled : ∀ email u, ⟨.accounts (.findUserByEmail email), .ok (.ok (some u))⟩ ∈ c.answers →
      P.collate u.id = u.id)
    (hperformed : Performed P registry s i c o r w') {ω : Choice} (hω : ω.plain = true)
    (hperform : (server P registry).perform i o ω s.world = some (r, w')) (hmissed : Missed ⟨o, r⟩ c.answers) :
    ∃ userId, Concerns c userId ∧ Removed P s userId := by
  obtain ⟨hplain, hplain'⟩ := Bool.and_eq_true_iff.mp hω
  have htruthful := hperformed.truthful
  have hc := hperformed.call
  cases hmissed with
  -- of its own no operation fails in this way, as the choice is plain
  | @failed _ e _ he =>
    rw [missesRow_of_perform hω hperform] at he
    cases he
  | @accounts o e _ he =>
    obtain ⟨⟨_, _⟩, h₀, heq⟩ := Option.map_eq_some_iff.mp hperform
    cases heq
    rw [Accounts.missesRow_of_perform hplain h₀ rfl] at he
    cases he
  | @money o e _ he =>
    obtain ⟨⟨_, _⟩, h₀, heq⟩ := Option.map_eq_some_iff.mp hperform
    cases heq
    refine hs.removed_of_unstored hdocumented hc hperformed.permits fun hstored => ?_
    rw [finds_of_perform hplain' hstored h₀ e rfl] at he
    cases he
  -- the row had been read before, and now it is not found
  | @vanished userId user _ hfound =>
    obtain ⟨_, ω₀, heq, h₀⟩ := (accountsComponent P registry).perform hperform
    cases heq
    have hid : user.id = P.collate userId := htruthful _ hfound
    refine hs.removed_of_read hc (.inr ⟨_, hfound⟩) ?_
    rw [hid]
    exact ne_of_findUserById (foundById_of_effect (performs h₀)).symm
  | @gone email user _ hfound =>
    refine hs.removed_of_read hc (.inl ⟨_, hfound⟩) ?_
    have hnone := (World.query_eq_some hperform).2 _ rfl
    rw [hspelled email user hfound] at hnone
    exact ne_of_findUserById (Option.map_eq_none_iff.mp hnone.symm)

/-! ## Runs -/

theorem known_mono {id : String} (hf : Follows s s') (h : ∃ email, s.world.accounts.Known id email) :
    ∃ email, s'.world.accounts.Known id email :=
  h.imp fun email => hf.known id email

theorem Remembered.arrives {req : Request} (h : Remembered P s) (hf : Follows s s') (harrives : Arrives s req c s') :
    Remembered P s' := by
  have hdeleted : s.world.accounts.deleted ⊆ s'.world.accounts.deleted := by
    rw [harrives.world]
    exact fun _ h => h
  -- the new call has not been answered anything
  have hcalls : ∀ d ∈ s'.calls, d ∈ s.calls ∨ d.answers = [] := by
    intro d hd
    rw [harrives.calls, List.mem_append, List.mem_singleton] at hd
    rcases hd with hd | rfl
    · exact .inl hd
    · exact .inr harrives.answers
  refine ⟨fun d hd u hmet => ?_, fun payload hp => ?_, fun d hd a hread => ?_, fun u hu => ?_, fun d hd hblamed => ?_⟩
  · rcases hcalls d hd with hd | hnone
    · exact known_mono hf (h.met d hd u hmet)
    · rw [hnone] at hmet
      rcases hmet with (⟨_, hmem⟩ | ⟨_, hmem⟩) | ⟨_, hmem⟩ <;> cases hmem
  · rw [harrives.world] at hp ⊢
    exact h.emitted payload hp
  · rw [harrives.world]
    rcases hcalls d hd with hd | hnone
    · exact h.held d hd a hread
    · rw [hnone] at hread
      rcases hread with ⟨_, _, hmem⟩ | ⟨_, hmem⟩ <;> cases hmem
  · rw [harrives.world] at hu
    exact (h.removed u hu).mono hf hdeleted
  · rcases hcalls d hd with hd | hnone
    · obtain ⟨userId, hconcerns, hremoved⟩ := h.missed d hd hblamed
      exact ⟨userId, hconcerns, hremoved.mono hf hdeleted⟩
    · rw [hnone] at hblamed
      exact hblamed.elim

/-- The payload that is emitted is that of the account that has just been created. -/
theorem known_of_emitted (hs : Remembered P s) (hf : Follows s s')
    (hperformed : Performed P registry s i c o r s'.world) :
    ∀ payload ∈ s'.world.accounts.emitted, ∃ email, s'.world.accounts.Known payload.userId email := by
  intro payload hp
  have hold : payload ∈ s.world.accounts.emitted → ∃ email, s'.world.accounts.Known payload.userId email :=
    fun hp => known_mono hf (hs.emitted payload hp)
  have hmet : ∀ u, Met c.answers u → ∃ email, s'.world.accounts.Known u.id email :=
    fun u hu => known_mono hf (hs.met c hperformed.call u hu)
  have he := hperformed.effect
  generalize s'.world = world at *
  cases he with
  | accounts he =>
    cases he with
    | emit new =>
      rcases List.mem_append.mp hp with hp | hp
      · exact hold hp
      · obtain rfl := List.mem_singleton.mp hp
        obtain ⟨_, _, _, _, _, _, _, _, _, hreports, hpermits⟩ := task_of_permits hperformed fun _ => nofun
        obtain ⟨input, digest, user, -, hcreated, rfl⟩ := hpermits
        exact hmet user (.inr ⟨_, mem_of_reports hreports hcreated⟩)
    | _ => exact hold hp
  | _ => exact hold hp

theorem removed_of_deleted (hs : Remembered P s) (hdocumented : Documented P s) (hf : Follows s s')
    (hperformed : Performed P registry s i c o r s'.world) : ∀ u ∈ s'.world.accounts.deleted, Removed P s' u.id := by
  intro u hu
  have hdeleted := deleted_of_effect hperformed.effect
  have hold : u ∈ s.world.accounts.deleted → Removed P s' u.id := fun hu => (hs.removed u hu).mono hf hdeleted
  have hself : (∃ u' ∈ s'.world.accounts.deleted, u'.id = u.id) := ⟨u, hu, rfl⟩
  have he := hperformed.effect
  have hpermits := hperformed.permits
  have hc := hperformed.call
  clear hperformed hdeleted
  generalize hworld : s'.world = world at he hu
  cases he with
  | accounts he =>
    cases he with
    | deleteUser id =>
      rcases List.mem_append.mp hu with hu | hu
      · have hid : u.id = P.collate id := by simpa using (List.mem_filter.mp hu).2
        obtain ⟨admin, hsends, hfound, hrole, hne⟩ := deletion_of_permits hdocumented hc hpermits
        obtain ⟨d', hsends', hanswers⟩ := hsends.mono hf
        exact ⟨hself, d', admin, id, hsends', hid.symm, hanswers hfound, hrole, hne⟩
      · exact hold hu
    | _ => exact hold hu
  | _ => exact hold hu

theorem Remembered.performs (h : Remembered P s) (hdocumented : Documented P s)
    (hspelled : ∀ email u, ⟨.accounts (.findUserByEmail email), .ok (.ok (some u))⟩ ∈ c.answers →
      P.collate u.id = u.id) (hf : Follows s s')
    (hperformed : Performed P registry s i c o r s'.world) (hcontinues : Continues s c ⟨o, r⟩ c' s') {ω : Choice}
    (hω : ω.plain = true) (hperform : (server P registry).perform i o ω s.world = some (r, s'.world)) :
    Remembered P s' := by
  have hc := hperformed.call
  have hdeleted := deleted_of_effect hperformed.effect
  -- one call has one answer more; what the others have read stays known, held or removed
  refine ⟨fun d hd u hmet => ?_, known_of_emitted h hf hperformed, fun d hd a hread => ?_,
    removed_of_deleted h hdocumented hf hperformed, fun d hd hblamed => ?_⟩
  · rcases hcontinues.others d hd with hd | rfl
    · exact known_mono hf (h.met d hd u hmet)
    · rw [hcontinues.answers] at hmet
      rcases known_of_met hf hperformed.effect hmet with hmet | hknown
      · exact known_mono hf (h.met c hc u hmet)
      · exact ⟨_, hknown⟩
  · rcases hcontinues.others d hd with hd | rfl
    · exact (h.held d hd a hread).step hf hperformed
    · rw [hcontinues.answers] at hread
      rcases walletRead_of_perform hperform hread with hread | ha
      · exact (h.held c hc a hread).step hf hperformed
      · exact Held.step (.inl ⟨a, ha, rfl, rfl⟩) hf hperformed
  · have hmono : ∀ d₀ : Call Op Ans Exception Request Reply, d₀.answers ⊆ d.answers → d.request = d₀.request →
        (∃ userId, Concerns d₀ userId ∧ Removed P s userId) → ∃ userId, Concerns d userId ∧ Removed P s' userId := by
      rintro d₀ hanswers hreq ⟨userId, hconcerns, hremoved⟩
      exact ⟨userId, hconcerns.mono hanswers hreq, hremoved.mono hf hdeleted⟩
    rcases hcontinues.others d hd with hd | rfl
    · exact hmono d (fun _ h => h) rfl (h.missed d hd hblamed)
    · rw [hcontinues.answers] at hblamed
      refine hmono c ?_ hcontinues.request ?_
      · rw [hcontinues.answers]
        exact List.subset_cons_self _ _
      · rcases hblamed with hmissed | hblamed
        · exact h.removed_of_missed hdocumented hspelled hperformed hω hperform hmissed
        · exact h.missed c hc hblamed

theorem remembered_of_reaches (hinitial : w.Initial P)
    (hemitted : ∀ payload ∈ w.accounts.emitted, ∃ u ∈ w.accounts.users, u.id = payload.userId)
    (h : (server P registry).Reaches Plainly ⟨w, []⟩ s) : Remembered P s := by
  induction h with
  | refl =>
    refine ⟨fun _ hd => ?_, fun payload hp => ?_, fun _ hd => ?_, fun u hu => ?_, fun _ hd => ?_⟩
    · cases hd
    · obtain ⟨u, hu, hid⟩ := hemitted payload hp
      exact ⟨u.email, hid ▸ World.known_of_mem hu⟩
    · cases hd
    · rw [hinitial.accounts.deleted] at hu
      cases hu
    · cases hd
  | @tail s₁ s₂ l hr hplainly hn ih =>
    have hwired := hr.mono wired_of_plainly
    cases l with
    | start req =>
      obtain ⟨c, hf, harrives⟩ := arrives_of_start hplainly hn
      exact ih.arrives hf harrives
    | step i ω =>
      obtain ⟨c, o, r, c', hperform, hf, hperformed, hcontinues⟩ := performed_of_step hinitial hwired hn
      refine ih.performs (documented_of_reaches hinitial hwired) (fun email u hfound => ?_) hf hperformed hcontinues
        hplainly hperform
      exact (userStored_of_foundByEmail hwired hperformed.call hfound).collate_id hinitial

/-- A request ends with a `TypeError`, or with a foreign key that refers to nothing, only if an administrator has
    deleted an account that it had read, or the owner of a wallet that it had read.  The administrator may have
    deleted itself, under another spelling of its id. -/
theorem missing_rows_were_deleted (hinitial : w.Initial P)
    (hemitted : ∀ payload ∈ w.accounts.emitted, ∃ u ∈ w.accounts.users, u.id = payload.userId)
    (h : (server P registry).Reaches Plainly ⟨w, []⟩ s) (hc : c ∈ s.calls) {e : Exception}
    (hresult : c.program.result? = some (.error e)) (he : e.missesRow = true) :
    ∃ userId, Concerns c userId ∧ Removed P s userId :=
  (remembered_of_reaches hinitial hemitted h).missed c hc (Server.blamed_of_thrown serve_misses h hc hresult he)

/-- Ada's account is deleted after the guard has found it and before it is shown. -/
def interrupted : List (Label Request Choice) :=
  asked adaToken .userMe :: .step 0 {} :: asked rootToken (.deleteUser "ada") :: steps 1 [{}, {}, {}] ++ [.step 0 {}]

theorem missing_rows_were_deleted_interrupted : ∃ s c, (server plainPackages cardPayments).Reaches Plainly
    ⟨startWorld, []⟩ s ∧ c ∈ s.calls ∧ c.program.result? = some (.error (.money .typeError)) ∧
      ∃ userId, Concerns c userId ∧ Removed plainPackages s userId := by
  have hrun : ((server plainPackages cardPayments).runUnder Plainly interrupted ⟨startWorld, []⟩).map (fun s =>
      s.calls[0]?.bind (·.program.result?)) = some (some (.error (.money .typeError))) := by decide +kernel
  obtain ⟨s, hs, houtcome⟩ := Option.map_eq_some_iff.mp hrun
  obtain ⟨c, hc, hresult⟩ := Option.bind_eq_some_iff.mp houtcome
  have h := Server.reaches_of_runUnder hs
  have hmem := List.mem_of_getElem? hc
  refine ⟨s, c, h, hmem, hresult, ?_⟩
  exact missing_rows_were_deleted startWorld_initial (by simp [startWorld, Accounts.startWorld]) h hmem hresult rfl

end LiorParisWallet.Backend
