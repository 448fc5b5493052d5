import LiorParisWallet.Backend.Contract

/-!
# Rows that were stored

A row that a call was answered, of an account or of a wallet, was stored in a state of the run.
-/

namespace LiorParisWallet.Backend

open Async Relational Accounts

variable {P : Packages} {registry : PaymentGatewayRegistry} {w : World} {s s₀ : State}
variable {c : Call Op Ans Exception Request Reply} {u : Users} {wallet : Wallet}

/-- The run from `w` to `s` has passed `s₀`. -/
structure Passes (P : Packages) (registry : PaymentGatewayRegistry) (w : World) (s s₀ : State) : Prop where
  before : (server P registry).Reaches Wired ⟨w, []⟩ s₀
  after : (server P registry).Reaches Wired s₀ s

/-- The row of an account was stored in a state of the run. -/
def UserStored (P : Packages) (registry : PaymentGatewayRegistry) (w : World) (s : State) (u : Users) : Prop :=
  ∃ s₀, Passes P registry w s s₀ ∧ u ∈ s₀.world.accounts.users

/-- The row of a wallet was stored in a state of the run. -/
def WalletStored (P : Packages) (registry : PaymentGatewayRegistry) (w : World) (s : State) (wallet : Wallet) :
    Prop :=
  ∃ s₀, Passes P registry w s s₀ ∧ wallet ∈ s₀.world.money.db.wallets

/-- What a call was answered, an operation has answered between two states of the run. -/
theorem passes_of_answered (h : (server P registry).Reaches Wired ⟨w, []⟩ s) (hc : c ∈ s.calls) {o : Op}
    {r : Except Exception (Ans o)} (ha : ⟨o, r⟩ ∈ c.answers) : ∃ s₀ s₁ i ω, Passes P registry w s s₀ ∧
      Passes P registry w s s₁ ∧ perform P i o ω s₀.world = some (r, s₁.world) := by
  obtain ⟨i, hi⟩ := List.mem_iff_getElem?.mp hc
  -- an idle server has no call `i`, so the answer was given on the way
  obtain ⟨s₀, s₁, ω, hr₀, hwired, -, hstep, hperform, hr₁⟩ := h.answered (List.getElem?_nil) hi ha
  have hnext : (server P registry).next s₀ (.step i ω) = some s₁ := hstep
  refine ⟨s₀, s₁, i, ω, ⟨hr₀, ?_⟩, ⟨hr₀.tail hwired hnext, hr₁⟩, hperform⟩
  exact (Server.Reaches.refl.tail hwired hnext).trans hr₁

/-- What an operation of the accounts has answered, it has done. -/
theorem passes_of_accounts (h : (server P registry).Reaches Wired ⟨w, []⟩ s) (hc : c ∈ s.calls)
    {o : Accounts.Op} {r : Except Accounts.Exception (Accounts.Ans o)}
    (ha : ⟨.accounts o, .ok r⟩ ∈ c.answers) : ∃ s₀ s₁, Passes P registry w s s₀ ∧ Passes P registry w s s₁ ∧
      Accounts.Effect P s₀.world.accounts o r s₁.world.accounts := by
  obtain ⟨s₀, s₁, i, ω, hpasses₀, hpasses₁, hperform⟩ := passes_of_answered h hc ha
  obtain ⟨⟨a, x⟩, hx, heq⟩ := Option.map_eq_some_iff.mp hperform
  obtain ⟨hr, hworld⟩ := Prod.mk.inj heq
  obtain rfl : a = r := Except.ok.inj hr
  refine ⟨s₀, s₁, hpasses₀, hpasses₁, ?_⟩
  rw [← hworld]
  exact Accounts.effect_of_perform hx

/-- What an operation of the money has answered, it was performed for. -/
theorem passes_of_money (h : (server P registry).Reaches Wired ⟨w, []⟩ s) (hc : c ∈ s.calls)
    {o : LiorParisWallet.Op} {r : Except Err (LiorParisWallet.Ans o)}
    (ha : ⟨.money o, .ok r⟩ ∈ c.answers) : ∃ s₀ s₁ i ω, Passes P registry w s s₀ ∧ Passes P registry w s s₁ ∧
      LiorParisWallet.perform i o ω s₀.world.money = some (r, s₁.world.money) := by
  obtain ⟨s₀, s₁, i, ω, hpasses₀, hpasses₁, hperform⟩ := passes_of_answered h hc ha
  obtain ⟨⟨a, m⟩, hm, heq⟩ := Option.map_eq_some_iff.mp hperform
  obtain ⟨hr, hworld⟩ := Prod.mk.inj heq
  obtain rfl : a = r := Except.ok.inj hr
  refine ⟨s₀, s₁, i, ω.money, hpasses₀, hpasses₁, ?_⟩
  rw [← hworld]
  exact hm

theorem userStored_of_foundByEmail (h : (server P registry).Reaches Wired ⟨w, []⟩ s) (hc : c ∈ s.calls)
    {email : String} (ha : ⟨.accounts (.findUserByEmail email), .ok (.ok (some u))⟩ ∈ c.answers) :
    UserStored P registry w s u := by
  obtain ⟨s₀, s₁, hpasses, -, he⟩ := passes_of_accounts h hc ha
  exact ⟨s₀, hpasses, (mem_of_findUserByEmail (foundByEmail_of_effect he).1.symm).1⟩

/-- The query with the wallets has found rows. -/
theorem passes_of_listed (h : (server P registry).Reaches Wired ⟨w, []⟩ s) (hc : c ∈ s.calls)
    {userId : String} {found : UserWithWallets}
    (ha : ⟨.findUserByIdWithWallets userId, .ok (some found)⟩ ∈ c.answers) : ∃ s₀, Passes P registry w s s₀ ∧
      found.user ∈ s₀.world.accounts.users ∧ ∀ wallet ∈ found.wallets, wallet ∈ s₀.world.money.db.wallets := by
  obtain ⟨s₀, s₁, i, ω, hpasses, -, hperform⟩ := passes_of_answered h hc ha
  obtain ⟨-, hanswer⟩ := World.query_eq_some hperform
  obtain ⟨user, huser, heq⟩ := Option.map_eq_some_iff.mp (hanswer _ rfl).symm
  cases heq
  exact ⟨s₀, hpasses, (mem_of_findUserById huser).1, fun wallet hwallet => (List.mem_filter.mp hwallet).1⟩

/-- Whatever row of an account a call has seen was stored. -/
theorem UserSeen.stored (hseen : UserSeen c.answers u) (h : (server P registry).Reaches Wired ⟨w, []⟩ s)
    (hc : c ∈ s.calls) : UserStored P registry w s u := by
  cases hseen with
  | foundByEmail ha => exact userStored_of_foundByEmail h hc ha
  | created ha =>
    -- a row that was inserted is there after the step, not before it
    obtain ⟨s₀, s₁, -, hpasses, he⟩ := passes_of_accounts h hc ha
    refine ⟨s₁, hpasses, ?_⟩
    generalize s₁.world.accounts = x at he
    cases he with
    | createUser _ _ hinsert => exact (Table.mem_insert? hinsert).mpr (.inr rfl)
  | saved ha =>
    obtain ⟨s₀, s₁, -, hpasses, he⟩ := passes_of_accounts h hc ha
    refine ⟨s₁, hpasses, ?_⟩
    generalize s₁.world.accounts = x at he
    cases he with
    | applyUpdatesAndSave hinsert => exact (mem_save hinsert).mpr (.inr rfl)
  | listed ha =>
    obtain ⟨s₀, hpasses, huser, -⟩ := passes_of_listed h hc ha
    exact ⟨s₀, hpasses, huser⟩

theorem walletStored_of_found (h : (server P registry).Reaches Wired ⟨w, []⟩ s) (hc : c ∈ s.calls)
    {userId currency : String}
    (ha : ⟨.money (.findByUserIdAndCurrency userId currency), .ok (.ok (some wallet))⟩ ∈ c.answers) :
    WalletStored P registry w s wallet := by
  obtain ⟨s₀, s₁, i, ω, hpasses, -, hperform⟩ := passes_of_money h hc ha
  obtain ⟨-, hfound⟩ := read_ok hperform
  exact ⟨s₀, hpasses, (Table.mem_of_find? hfound.symm).1⟩

theorem walletStored_of_saved (h : (server P registry).Reaches Wired ⟨w, []⟩ s) (hc : c ∈ s.calls)
    {data : WalletData} (ha : ⟨.money (.saveWallet data), .ok (.ok wallet)⟩ ∈ c.answers) :
    WalletStored P registry w s wallet := by
  obtain ⟨s₀, s₁, i, ω, -, hpasses, hperform⟩ := passes_of_money h hc ha
  refine ⟨s₁, hpasses, ?_⟩
  rcases insert_eq_some hperform with ⟨-, hr⟩ | ⟨a, db, hsaved, hr, -, hm⟩
  -- it was not refused, for the call has been answered the wallet
  · exact absurd rfl (hr wallet)
  · obtain rfl : wallet = a := Except.ok.inj hr
    obtain ⟨rfl, -, wallets, hinsert, rfl⟩ := saveWallet_eq_ok hsaved
    rw [hm]
    exact (Table.mem_insert? hinsert).mpr (.inr rfl)

/-- The ids of the rows are spelled as the database spells them. -/
theorem UserStored.collate_id (hinitial : w.Initial P) (h : UserStored P registry w s u) : P.collate u.id = u.id :=
  let ⟨_, hpasses, hu⟩ := h
  (sound_of_reaches hinitial hpasses.before).inv.accounts.collate_id hu

theorem Identified.collate_id (hinitial : w.Initial P) (h : (server P registry).Reaches Wired ⟨w, []⟩ s)
    (hc : c ∈ s.calls) {bearer : Option JwtPayload} (hidentified : Identified bearer u c.answers) :
    P.collate u.id = u.id :=
  let ⟨_, _, hfound, _⟩ := hidentified
  (userStored_of_foundByEmail h hc hfound).collate_id hinitial

end LiorParisWallet.Backend
