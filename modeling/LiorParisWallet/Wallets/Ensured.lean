import LiorParisWallet.Money.Alone
import LiorParisWallet.Money.Prepared

/-!
# Does `ensureWallet` ensure a wallet?

A call looks the wallet up, and inserts one if there is none.  The insertion is refused when another call has
inserted the wallet in between, or when some wallet has the tag that was drawn, and then the call throws.
-/

namespace LiorParisWallet

open Async Relational

variable {registry : PaymentGatewayRegistry} {s₀ s : State} {w w' : World} {i : ℕ} {o : Op}
variable {userId currency userName : String} {answers : List (Answer Ans Err)}

/-- Every operation gets through, unless an index refuses it, and no user is deleted. -/
def OnlyIndexes (s : State) : Label Request Choice → Prop
  | .start _ => True
  | .step i ω => ω.fault.isNone = true ∧ ∀ o ∈ s.awaits i, o.isDeletion = false

instance (s : State) (l : Label Request Choice) : Decidable (OnlyIndexes s l) :=
  match l with
  | .start _ => .isTrue trivial
  | .step i ω => inferInstanceAs
      (Decidable (ω.fault.isNone = true ∧ ∀ o ∈ s.awaits i, o.isDeletion = false))

theorem OnlyIndexes.faultless {ω : Choice} {r : Except Err (Ans o)} (h : OnlyIndexes s (.step i ω))
    (hperform : perform i o ω w = some (r, w')) : Faultless i o w r w' :=
  ⟨ω, Option.isNone_iff_eq_none.mp h.1, hperform⟩

/-- The requests that lead to `ensureWallet(userId, currency, userName)`. -/
inductive Request.EnsuresWallet : Request → String → String → String → Prop where
  | ensureWallet (userId currency userName : String) :
      EnsuresWallet (.ensureWallet userId currency userName) userId currency userName
  | handleUserRegistered (payload : UserRegisteredPayload) :
      EnsuresWallet (.handleUserRegistered payload) payload.userId defaultCurrency.value payload.name
  | createWallet (userId userName : String) (input : CreateWalletDto) :
      EnsuresWallet (.createWallet userId userName input) userId input.currency.value userName

/-- `createWallet` has found a wallet, and throws without having called `ensureWallet`. -/
def TurnedAway (req : Request) (answers : List (Answer Ans Err)) : Prop :=
  ∃ userId userName input a, req = .createWallet userId userName input ∧
    answers = [⟨.findByUserIdAndCurrency userId input.currency.value, .ok (some a)⟩]

/-- What is replied when `ensureWallet` returns `a`. -/
def Request.reply (a : Wallet) : Request → Reply
  | .handleUserRegistered _ => .done
  | _ => .wallet a

/-- The row that `ensureWallet` inserts. -/
def newWallet (userId currency userName : String) (bytes : UInt8 × UInt8) : WalletData where
  userId := userId
  balance := 0
  currency := currency
  walletTag := generateWalletTag userName bytes

/-- `a` is the only wallet of this user and currency, and the call has returned it, perhaps with the balance
    of an earlier time. -/
structure Ensured (w : World) (userId currency : String) (req : Request) (r : Except Err Reply)
    (a : Wallet) : Prop where
  stored : a ∈ w.db.wallets
  ofUser : a.userId = userId
  ofCurrency : a.currency = currency
  only : ∀ b ∈ w.db.wallets, b.userId = userId → b.currency = currency → b = a
  returned : ∃ b : Wallet, r = .ok (req.reply b) ∧ b.id = a.id ∧ b.userId = a.userId ∧
    b.currency = a.currency

/-- No stored wallet is one of the user in the currency, and none has the tag. -/
def Store.Admits (db : Store) (data : WalletData) : Prop :=
  ∀ a ∈ db.wallets, (a.userId = data.userId → a.currency ≠ data.currency) ∧ a.walletTag ≠ data.walletTag

/-- Whenever call `i` has inserted a wallet on the way to `s`, the store has admitted it. -/
def InsertsAdmitted (registry : PaymentGatewayRegistry) (s : State) (i : ℕ)
    (userId currency userName : String) : Prop :=
  ∀ s₁ bytes r, (server registry).Performed i (.saveWallet (newWallet userId currency userName bytes)) r s₁ s →
    s₁.world.db.Admits (newWallet userId currency userName bytes)

/-! ## What a call is answered -/

def Op.opensWallet : Op → Bool
  | .findByUserIdAndCurrency _ _ | .randomBytes | .saveWallet _ => true
  | _ => false

theorem isDeletion_of_opensWallet (h : o.opensWallet = true) : o.isDeletion = false := by
  cases o with
  | deleteUser id => cases h
  | _ => rfl

/-- How a call of `ensureWallet` has come to its result `r`. -/
structure EnsureOutcome (userId currency userName : String) (r : Except Err Wallet)
    (answers : List (Answer Ans Err)) : Prop where
  saved : ∀ data r', ⟨.saveWallet data, r'⟩ ∈ answers → r' = r
  how : (∃ a, r = .ok a ∧ ⟨.findByUserIdAndCurrency userId currency, .ok (some a)⟩ ∈ answers) ∨
    (∃ bytes, ⟨.saveWallet (newWallet userId currency userName bytes), r⟩ ∈ answers) ∨
    ∃ e, ⟨.findByUserIdAndCurrency userId currency, .error e⟩ ∈ answers ∨ ⟨.randomBytes, .error e⟩ ∈ answers

/-- Nothing was saved yet. -/
def Unsaved (answers : List (Answer Ans Err)) : Prop := ∀ data r, ⟨.saveWallet data, r⟩ ∉ answers

theorem Unsaved.cons {r : Except Err (Ans o)} (h : Unsaved answers) (ho : ∀ data, o ≠ .saveWallet data) :
    Unsaved (⟨o, r⟩ :: answers) := by
  intro data r' hmem
  cases hmem with
  | head => exact ho data rfl
  | tail _ hmem => exact h data r' hmem

theorem wp_ensureWallet_logs (h : Unsaved answers) : (ensureWallet userId currency userName).wp Program.Logs Eq
    (EnsureOutcome userId currency userName) answers := by
  have hfind : ∀ r, Unsaved (⟨.findByUserIdAndCurrency userId currency, r⟩ :: answers) :=
    fun r => h.cons (by simp)
  unfold ensureWallet
  refine Program.wp_await_logs (fun existing => ?_) fun e => ?_
  · cases existing with
    | some a =>
      rintro _ rfl
      exact ⟨fun data r hmem => absurd hmem (hfind _ data r), .inl ⟨a, rfl, .head _⟩⟩
    | none =>
      have hbytes : ∀ r, Unsaved (⟨.randomBytes, r⟩ ::
          ⟨.findByUserIdAndCurrency userId currency, .ok none⟩ :: answers) :=
        fun r => (hfind _).cons (by simp)
      refine Program.wp_await_logs (fun bytes => ?_) fun e => ?_
      · refine Program.wp_call_alone fun r l hl => ?_
        obtain rfl : l = _ := hl
        refine ⟨fun data r' hmem => ?_, .inr (.inl ⟨bytes, .head _⟩)⟩
        cases hmem with
        | head => rfl
        | tail _ hmem => exact absurd hmem (hbytes _ data r')
      · exact ⟨fun data r hmem => absurd hmem (hbytes _ data r), .inr (.inr ⟨e, .inr (.head _)⟩)⟩
  · exact ⟨fun data r hmem => absurd hmem (hfind _ data r), .inr (.inr ⟨e, .inl (.head _)⟩)⟩

theorem wp_createWallet_logs {input : CreateWalletDto} :
    (createWallet userId userName input).wp Program.Logs Eq (fun r answers =>
      (∃ a, answers = [⟨.findByUserIdAndCurrency userId input.currency.value, .ok (some a)⟩]) ∨
        EnsureOutcome userId input.currency.value userName r answers) [] := by
  have hlookup : ∀ r, Unsaved [⟨.findByUserIdAndCurrency userId input.currency.value, r⟩] :=
    fun r => Unsaved.cons nofun (by simp)
  unfold createWallet
  refine Program.wp_await_logs (fun existing => ?_) fun e => ?_
  · cases existing with
    | some a =>
      rintro _ rfl
      exact .inl ⟨a, rfl⟩
    | none => exact Program.wp_mono (wp_ensureWallet_logs (hlookup _)) fun _ _ h => .inr h
  · exact .inr ⟨fun data r hmem => absurd hmem (hlookup _ data r), .inr (.inr ⟨e, .inl (.head _)⟩)⟩

/-- A call that ensures a wallet has called `ensureWallet`, or its caller was turned away. -/
theorem wp_serve_ensures (req : Request) : (serve registry req).wp Program.Logs Eq
    (fun r answers => ∀ userId currency userName, req.EnsuresWallet userId currency userName →
      TurnedAway req answers ∨ ∃ r', r = r'.map req.reply ∧
        EnsureOutcome userId currency userName r' answers) [] := by
  cases req with
  | ensureWallet userId currency userName =>
    refine Program.wp_return_alone (Program.wp_mono (wp_ensureWallet_logs nofun) fun r answers h => ?_)
    rintro _ _ _ ⟨⟩
    exact .inr ⟨r, rfl, h⟩
  | handleUserRegistered payload =>
    refine Program.wp_return_alone (Program.wp_mono (wp_ensureWallet_logs nofun) fun r answers h => ?_)
    rintro _ _ _ ⟨⟩
    exact .inr ⟨r, rfl, h⟩
  | createWallet userId userName input =>
    refine Program.wp_return_alone (Program.wp_mono wp_createWallet_logs fun r answers h => ?_)
    rintro _ _ _ ⟨⟩
    rcases h with ⟨a, h⟩ | h
    · exact .inl ⟨userId, userName, input, a, rfl, h⟩
    · exact .inr ⟨r, rfl, h⟩
  | _ => exact Program.wp_mono Program.wp_true fun _ _ _ _ _ _ => nofun

/-! ## How long a call takes -/

/-- At most `n` answers, and all of them to operations that `ensureWallet` awaits. -/
structure Opening (n : ℕ) (answers : List (Answer Ans Err)) : Prop where
  few : answers.length ≤ n
  ops : ∀ x ∈ answers, x.1.opensWallet = true

theorem Opening.cons {n : ℕ} {r : Except Err (Ans o)} (h : Opening n answers) (ho : o.opensWallet = true) :
    Opening (n + 1) (⟨o, r⟩ :: answers) where
  few := Nat.succ_le_succ h.few
  ops := by
    intro x hx
    cases hx with
    | head => exact ho
    | tail _ hx => exact h.ops x hx

theorem Opening.mono {n m : ℕ} (h : Opening n answers) (hnm : n ≤ m) : Opening m answers :=
  ⟨h.few.trans hnm, h.ops⟩

theorem opening_nil : Opening 0 [] := ⟨le_refl 0, fun _ hx => absurd hx List.not_mem_nil⟩

theorem wp_ensureWallet_opening {n : ℕ} (h : Opening n answers) :
    (ensureWallet userId currency userName).wp Program.Logs Eq (fun _ => Opening (n + 3)) answers := by
  unfold ensureWallet
  refine Program.wp_await_logs (fun existing => ?_) fun e => (h.cons rfl).mono (by omega)
  cases existing with
  | some a =>
    rintro _ rfl
    exact (h.cons rfl).mono (by omega)
  | none =>
    refine Program.wp_await_logs (fun bytes => ?_) fun e => ((h.cons rfl).cons rfl).mono (by omega)
    refine Program.wp_call_alone fun r l hl => ?_
    obtain rfl : l = _ := hl
    exact ((h.cons rfl).cons rfl).cons rfl

theorem wp_createWallet_opening {userName : String} {input : CreateWalletDto} :
    (createWallet userId userName input).wp Program.Logs Eq (fun _ => Opening 4) [] := by
  unfold createWallet
  refine Program.wp_await_logs (fun existing => ?_) fun e => (opening_nil.cons rfl).mono (by omega)
  cases existing with
  | some a =>
    rintro _ rfl
    exact (opening_nil.cons rfl).mono (by omega)
  | none => exact wp_ensureWallet_opening (opening_nil.cons rfl)

/-- A call that ensures a wallet gets four answers at most. -/
theorem wp_serve_opening (req : Request) : (serve registry req).wp Program.Logs Eq
    (fun _ answers => ∀ userId currency userName, req.EnsuresWallet userId currency userName →
      Opening 4 answers) [] := by
  cases req with
  | ensureWallet userId currency userName =>
    exact Program.wp_return_alone (Program.wp_mono (wp_ensureWallet_opening opening_nil)
      fun _ _ h _ _ _ _ => h.mono (by omega))
  | handleUserRegistered payload =>
    exact Program.wp_return_alone (Program.wp_mono (wp_ensureWallet_opening opening_nil)
      fun _ _ h _ _ _ _ => h.mono (by omega))
  | createWallet userId userName input =>
    exact Program.wp_return_alone (Program.wp_mono wp_createWallet_opening fun _ _ h _ _ _ _ => h)
  | _ => exact Program.wp_mono Program.wp_true fun _ _ _ _ _ _ => nofun

/-! ## What the store does -/

section Store

variable {db db' : Store} {data : WalletData} {id : String} {a : Wallet}

theorem clash_create : Entity.clash a (data.create id) = false ↔
    a.id ≠ id ∧ (a.userId = data.userId → a.currency ≠ data.currency) ∧ a.walletTag ≠ data.walletTag := by
  simp [Entity.clash, WalletData.create, and_assoc]

/-- An insertion with a new id is refused by one of the two indexes only. -/
theorem saveWallet_of_admits (huser : db.HasUser data.userId) (hid : ∀ a ∈ db.wallets, a.id ≠ id)
    (h : db.Admits data) : ∃ db', db.saveWallet (data.create id) = .ok (data.create id, db') := by
  obtain ⟨u, hfound, -⟩ := huser.found
  have hfresh : ∀ a ∈ db.wallets, Entity.clash a (data.create id) = false :=
    fun a ha => clash_create.mpr ⟨hid a ha, h a ha⟩
  obtain ⟨wallets, hinsert⟩ := Option.isSome_iff_exists.mp (Table.insert?_isSome.mpr hfresh)
  refine ⟨{ db with wallets := wallets }, ?_⟩
  unfold Store.saveWallet Store.insertInto
  rw [show db.users.find? (·.id == (data.create id).userId) = some u from hfound, hinsert]
  rfl

theorem admits_of_saveWallet (h : db.saveWallet (data.create id) = .ok (a, db')) : db.Admits data := by
  obtain ⟨-, -, wallets, hinsert, -⟩ := saveWallet_eq_ok h
  exact fun b hb => (clash_create.mp ((Table.insert?_eq_some hinsert).1 b hb)).2

end Store

/-! ## What stays -/

/-- The wallet is stored, whatever its balance is by now. -/
def Store.Holds (db : Store) (a : Wallet) : Prop :=
  ∃ b ∈ db.wallets, b.id = a.id ∧ b.userId = a.userId ∧ b.currency = a.currency

theorem Store.Holds.setBalance {db : Store} {a : Wallet} (h : db.Holds a) (id : String) (balance : ℤ) :
    (db.setBalance id balance).Holds a := by
  obtain ⟨b, hb, heq⟩ := h
  refine ⟨_, mem_setBalance.mpr ⟨b, hb, rfl⟩, ?_⟩
  split
  · exact heq
  · exact heq

theorem holds_of_mem {db : Store} {a : Wallet} (ha : a ∈ db.wallets) : db.Holds a := ⟨a, ha, rfl, rfl, rfl⟩

/-- Only a deletion takes a user away. -/
theorem Effect.hasUser (he : Effect i w o w') (ho : o.isDeletion = false) (h : w.db.HasUser userId) :
    w'.db.HasUser userId := by
  cases he with
  | createUser fresh inserted =>
    obtain ⟨u, hu, hid⟩ := h
    exact ⟨u, (Table.mem_insert? inserted).mpr (.inl hu), hid⟩
  | deleteUser id => cases ho
  | _ => exact h

/-- Only a deletion takes a wallet away. -/
theorem Effect.holds {a : Wallet} (he : Effect i w o w') (ho : o.isDeletion = false) (h : w.db.Holds a) :
    w'.db.Holds a := by
  cases he with
  | saveWallet fresh user inserted =>
    obtain ⟨b, hb, heq⟩ := h
    exact ⟨b, (Table.mem_insert? inserted).mpr (.inl hb), heq⟩
  | settleTransaction fresh wallet_mem enough entry event => exact h.setBalance _ _
  | executeTransfer fresh sender_mem receiver_mem enough debit credit event =>
    exact (h.setBalance _ _).setBalance _ _
  | deleteUser id => cases ho
  | _ => exact h

theorem Reachable.keeps_user (hs₀ : Reachable registry s₀) (hr : (server registry).Reaches OnlyIndexes s₀ s)
    (h : s₀.world.db.HasUser userId) : s.world.db.HasUser userId :=
  run_induction hs₀ hr (fun w => w.db.HasUser userId) h
    fun _ _ _ _ o _ _ hallowed _ ho _ he h => he.hasUser (hallowed.2 o ho) h

theorem Reachable.keeps_wallet {a : Wallet} (hs₀ : Reachable registry s₀)
    (hr : (server registry).Reaches OnlyIndexes s₀ s) (h : s₀.world.db.Holds a) : s.world.db.Holds a :=
  run_induction hs₀ hr (fun w => w.db.Holds a) h
    fun _ _ _ _ o _ _ hallowed _ ho _ he h => he.holds (hallowed.2 o ho) h

/-! ## The call -/

section Call

variable {c : Call Op Ans Err Request Reply}

/-- The wallet that a call has found or inserted is the one that was asked for, from then on. -/
theorem ensured_of_holds {req : Request} {a : Wallet} (h : w.db.Holds a) (huser : a.userId = userId)
    (hcurrency : a.currency = currency) :
    ∃ b, Ensured w userId currency req (.ok (req.reply a)) b := by
  obtain ⟨b, hb, hid, hbuser, hbcurrency⟩ := h
  refine ⟨b, hb, hbuser.trans huser, hbcurrency.trans hcurrency, fun b' hb' huser' hcurrency' => ?_, a, rfl,
    hid.symm, hbuser.symm, hbcurrency.symm⟩
  exact Wallet.eq_of_user hb' hb (huser'.trans (hbuser.trans huser).symm)
    (hcurrency'.trans (hbcurrency.trans hcurrency).symm)

/-- A call that has not ended can make a step. -/
theorem step_of_opening (hs : Reachable registry s) (hc : s.calls[i]? = some c)
    (hasks : c.request.EnsuresWallet userId currency userName) (hnone : c.program.result? = none) :
    c.answers.length < 4 ∧ ∃ ω s', OnlyIndexes s (.step i ω) ∧ (server registry).step s i ω = some s' := by
  have hlogged : c.program.wp Program.Logs Eq (fun _ => Opening 4) c.answers :=
    Program.wp_mono (Reachable.logged wp_serve_opening hs (List.mem_of_getElem? hc))
      fun _ _ h => h userId currency userName hasks
  refine ⟨Program.length_lt_of_wp .unavailable (Program.wp_mono hlogged fun _ _ h => h.few) hnone, ?_⟩
  cases hp : c.program with
  | ret a => rw [hp] at hnone; cases hnone
  | throw e => rw [hp] at hnone; cases hnone
  | await o next =>
    obtain ⟨r, w', ω, hfault, hperform⟩ := faultless_total i o s.world
    have hawaits := System.awaits_eq hc hp
    refine ⟨ω, _, ⟨by rw [hfault]; rfl, fun o' ho' => ?_⟩, Server.step_of_await hc hp hperform⟩
    obtain rfl : o = o' := Option.some.inj (hawaits.symm.trans ho')
    -- what is awaited now is answered in the end
    obtain ⟨-, answers', hopening, -, -, hawaited⟩ := Program.wp_cut .unavailable hlogged
    have hopens : o.opensWallet = true := hopening.ops _ (hawaited o (by rw [hp]; rfl))
    exact isDeletion_of_opensWallet hopens

/-- A wallet was inserted because the store admits it, and a call that returns one has not failed to insert. -/
theorem admitted_of_ensured (hc : s.calls[i]? = some c) {r : Except Err Wallet}
    (houtcome : EnsureOutcome userId currency userName r c.answers) (hr : r.isOk = true) :
    InsertsAdmitted registry s i userId currency userName := by
  intro s₁ bytes r' hperformed
  obtain rfl := houtcome.saved _ _ (hperformed.mem_answers hc)
  obtain ⟨-, ω, s₂, -, hperform, -⟩ := hperformed
  rcases insert_eq_some hperform with ⟨-, herror⟩ | ⟨a, db, hsaved, -, -, -⟩
  · cases r' with
    | error e => cases hr
    | ok a => exact absurd rfl (herror a)
  · exact admits_of_saveWallet hsaved

/-- An insertion that the store admits gets through. -/
theorem saved_of_admits (hs : Reachable registry s) {data : WalletData} {r : Except Err Wallet}
    (huser : s.world.db.HasUser data.userId) (hadmits : s.world.db.Admits data)
    (hsave : Faultless i (.saveWallet data) s.world r w') :
    ∃ id, r = .ok (data.create id) ∧ data.create id ∈ w'.db.wallets := by
  have hinsert : ∀ ω, perform i (.saveWallet data) ω s.world =
      s.world.insert i ω (s.world.db.saveWallet (data.create ω.uuid)) := fun _ => rfl
  obtain ⟨ω, hfresh, hend⟩ := faultless_insert hinsert hsave
  have hid : ∀ a ∈ s.world.db.wallets, a.id ≠ ω.uuid :=
    fun a ha heq => hfresh (heq ▸ hs.inv.ids.wallets a ha)
  obtain ⟨db, hsaved⟩ := saveWallet_of_admits huser hid hadmits
  rcases hend with ⟨e, herror, -, -⟩ | ⟨a, db', hok, rfl, rfl⟩
  · cases hsaved.symm.trans herror
  · obtain ⟨rfl, -, wallets, hstored, rfl⟩ := saveWallet_eq_ok hok
    exact ⟨ω.uuid, rfl, (Table.mem_insert? hstored).mpr (.inr rfl)⟩

/-- Where its insertion is admitted, the wallet that `ensureWallet` returns is there from then on. -/
theorem ensured_of_admitted (hs₀ : Reachable registry s₀) (hr : (server registry).Reaches OnlyIndexes s₀ s)
    (hnew : s₀.calls[i]? = none) (hc : s.calls[i]? = some c) (huser : s₀.world.db.HasUser userId)
    {r : Except Err Wallet} (houtcome : EnsureOutcome userId currency userName r c.answers)
    (hadmitted : InsertsAdmitted registry s i userId currency userName) :
    ∃ a, Ensured s.world userId currency c.request (r.map c.request.reply) a := by
  rcases houtcome.how with ⟨a, rfl, hfound⟩ | ⟨bytes, hsaved⟩ | ⟨e, hfailed⟩
  · -- the wallet was there when it was looked up
    obtain ⟨s₁, s₂, ω, hr₁, -, -, hstep, hperform, hr₂⟩ := hr.answered hnew hc hfound
    obtain ⟨hsame, hfind⟩ := read_ok hperform
    obtain ⟨hmem, hindex⟩ := Table.mem_of_find? hfind.symm
    have hs₂ : Reachable registry s₂ := (hs₀.extend hr₁).extend (Server.reaches_of_step hstep)
    have hholds : s₂.world.db.Holds a := hsame ▸ holds_of_mem hmem
    obtain ⟨huserId, hcurrency⟩ : a.userId = userId ∧ a.currency = currency := by simpa using hindex
    exact ensured_of_holds (hs₂.keeps_wallet hr₂ hholds) huserId hcurrency
  · -- the wallet was inserted
    obtain ⟨s₁, s₂, ω, hr₁, hallowed, ho, hstep, hperform, hr₂⟩ := hr.answered hnew hc hsaved
    have hs₁ := hs₀.extend hr₁
    have hs₂ : Reachable registry s₂ := hs₁.extend (Server.reaches_of_step hstep)
    have hadmits := hadmitted s₁ bytes r ⟨ho, ω, s₂, hstep, hperform, hr₂.any⟩
    obtain ⟨id, rfl, hmem⟩ := saved_of_admits hs₁ (hs₀.keeps_user hr₁ huser) hadmits
      (hallowed.faultless hperform)
    exact ensured_of_holds (hs₂.keeps_wallet hr₂ (holds_of_mem hmem)) rfl rfl
  · -- nothing else fails
    rcases hfailed with hfailed | hfailed
    · obtain ⟨s₁, s₂, ω, -, hallowed, -, -, hperform, -⟩ := hr.answered hnew hc hfailed
      have hread : Faultless i (.findByUserIdAndCurrency userId currency) s₁.world (.error e) s₂.world :=
        hallowed.faultless hperform
      obtain ⟨_, heq, -⟩ := faultless_read (fun _ => rfl) hread
      cases heq
    · obtain ⟨s₁, s₂, ω, -, hallowed, -, -, hperform, -⟩ := hr.answered hnew hc hfailed
      have hread : Faultless i .randomBytes s₁.world (.error e) s₂.world :=
        hallowed.faultless hperform
      obtain ⟨_, heq, -⟩ := faultless_read (fun _ => rfl) hread
      cases heq

/-- A call for a user who is there goes on until it has ended, and it ends after four operations at most.
    Unless its caller was turned away, it ensures the wallet exactly when the store admits what it inserts. -/
theorem ensureWallet_ensures_iff (hs₀ : Reachable registry s₀)
    (hr : (server registry).Reaches OnlyIndexes s₀ s) (hnew : s₀.calls[i]? = none) (hc : s.calls[i]? = some c)
    (hasks : c.request.EnsuresWallet userId currency userName) (huser : s₀.world.db.HasUser userId) :
    (c.program.result? = none → c.answers.length < 4 ∧
      ∃ ω s', OnlyIndexes s (.step i ω) ∧ (server registry).step s i ω = some s') ∧
    ∀ r, c.program.result? = some r → ¬ TurnedAway c.request c.answers →
      ((∃ a, Ensured s.world userId currency c.request r a) ↔
        InsertsAdmitted registry s i userId currency userName) := by
  have hs := hs₀.extend hr
  refine ⟨step_of_opening hs hc hasks, fun r hresult hturned => ?_⟩
  have hlogged := Reachable.logged wp_serve_ensures hs (List.mem_of_getElem? hc)
  obtain hfound | ⟨r', rfl, houtcome⟩ :=
    Server.logged_outcome hlogged hresult userId currency userName hasks
  · exact absurd hfound hturned
  · constructor
    · rintro ⟨a, hensured⟩
      obtain ⟨b, hb, -⟩ := hensured.returned
      refine admitted_of_ensured hc houtcome ?_
      cases r' with
      | error e => cases hb
      | ok a => rfl
    · exact ensured_of_admitted hs₀ hr hnew hc huser houtcome

end Call

/-! ## Two users of one name -/

def Request.ensures? : Request → Option (String × String × String)
  | .ensureWallet userId currency userName => some (userId, currency, userName)
  | .handleUserRegistered payload => some (payload.userId, defaultCurrency.value, payload.name)
  | .createWallet userId userName input => some (userId, input.currency.value, userName)
  | _ => none

theorem ensuresWallet_of_ensures? {req : Request} (h : req.ensures? = some (userId, currency, userName)) :
    req.EnsuresWallet userId currency userName := by
  cases req with
  | ensureWallet userId currency userName => cases h; exact .ensureWallet _ _ _
  | handleUserRegistered payload => cases h; exact .handleUserRegistered payload
  | createWallet userId userName input => cases h; exact .createWallet _ _ input
  | _ => cases h

def Request.isCreation : Request → Bool
  | .createWallet _ _ _ => true
  | _ => false

theorem not_turnedAway {req : Request} (h : req.isCreation = false) : ¬ TurnedAway req answers := by
  rintro ⟨userId, userName, input, a, rfl, -⟩
  cases h

theorem ensureWallet_ensures_iff_ada : ∃ (s : State) (c : Call Op Ans Err Request Reply) (r : Except Err Reply),
    s.calls[0]? = some c ∧ c.program.result? = some r ∧
    r = .ok (.wallet ⟨"w1", "u1", 0, "EUR", "ada-0000"⟩) ∧
    ((∃ a, Ensured s.world "u1" "EUR" c.request r a) ↔ InsertsAdmitted cardPayments s 0 "u1" "EUR" "Ada") := by
  have hrun : ((server cardPayments).runUnder OnlyIndexes (openWallet 0 "u1" "Ada" "w1")
      ⟨World.fresh adaAndBob, []⟩).bind (fun s => s.calls[0]?.map fun c =>
        (c.request.ensures?, c.request.isCreation, c.program.result?)) =
      some (some ("u1", "EUR", "Ada"), false, some (.ok (.wallet ⟨"w1", "u1", 0, "EUR", "ada-0000"⟩))) := by
    decide +kernel
  obtain ⟨s, hs, hcall⟩ := Option.bind_eq_some_iff.mp hrun
  obtain ⟨c, hc, hfound⟩ := Option.map_eq_some_iff.mp hcall
  simp only [Prod.mk.injEq] at hfound
  have huser : (World.fresh adaAndBob).db.HasUser "u1" := ⟨_, List.mem_cons_self, rfl⟩
  have h := ensureWallet_ensures_iff (reachable_initial (World.fresh_initial adaAndBob))
    (Server.reaches_of_runUnder hs) rfl hc (ensuresWallet_of_ensures? hfound.1) huser
  exact ⟨s, c, _, hc, hfound.2.2, rfl, h.2 _ hfound.2.2 (not_turnedAway hfound.2.1)⟩

def twoAdas : Table Users :=
  ⟨[⟨"u1", "Ada", "ada@example.com", "", .user⟩, ⟨"u2", "Ada", "ada@example.org", "", .user⟩], by decide⟩

def register (i : ℕ) (userId email walletId : String) : List (Label Request Choice) :=
  [.start (.handleUserRegistered ⟨userId, email, "Ada"⟩), .step i {}, .step i {}, .step i { uuid := walletId }]

/-- The same two bytes are drawn for both users, so that both get one tag. -/
def oneTag : List (Label Request Choice) :=
  register 0 "u1" "ada@example.com" "w1" ++ register 1 "u2" "ada@example.org" "w2"

/-- Two calls for one user look the wallet up, before either of them inserts it. -/
def oneUser : List (Label Request Choice) :=
  [.start (.ensureWallet "u1" "EUR" "Ada"), .start (.ensureWallet "u1" "EUR" "Ada"), .step 0 {}, .step 1 {},
    .step 0 {}, .step 1 { bytes := (0, 1) }, .step 0 { uuid := "w1" }, .step 1 { uuid := "w2" }]

/-- A call for a user who was there from the start has thrown, although its caller was not turned away. -/
def Throws (users : Table Users) (userId currency userName : String) : Prop :=
  ∃ (s : State) (i : ℕ) (c : Call Op Ans Err Request Reply) (r : Except Err Reply),
    (server cardPayments).Reaches OnlyIndexes ⟨World.fresh users, []⟩ s ∧
    (World.fresh users).db.HasUser userId ∧ s.calls[i]? = some c ∧
    c.request.EnsuresWallet userId currency userName ∧ c.program.result? = some r ∧
    ¬ TurnedAway c.request c.answers ∧ ¬ ∃ a, Ensured s.world userId currency c.request r a

theorem throws_of_run {users : Table Users} {ls : List (Label Request Choice)}
    (h : ((server cardPayments).runUnder OnlyIndexes ls ⟨World.fresh users, []⟩).bind (fun s =>
        s.calls[1]?.map fun c => (c.request.ensures?, c.request.isCreation, c.program.result?)) =
      some (some (userId, currency, userName), false, some (.error .duplicateEntry)))
    (huser : (World.fresh users).db.HasUser userId) : Throws users userId currency userName := by
  obtain ⟨s, hs, hcall⟩ := Option.bind_eq_some_iff.mp h
  obtain ⟨c, hc, hfound⟩ := Option.map_eq_some_iff.mp hcall
  simp only [Prod.mk.injEq] at hfound
  refine ⟨s, 1, c, _, Server.reaches_of_runUnder hs, huser, hc, ensuresWallet_of_ensures? hfound.1,
    hfound.2.2, not_turnedAway hfound.2.1, ?_⟩
  rintro ⟨a, hensured⟩
  obtain ⟨b, hb, -⟩ := hensured.returned
  cases hb

/-- The insertion is refused by the index on the tag, or by the one on the user and the currency. -/
theorem twoAdas_throw : Throws twoAdas "u2" "EUR" "Ada" ∧ Throws twoAdas "u1" "EUR" "Ada" := by
  constructor
  · have hrun : ((server cardPayments).runUnder OnlyIndexes oneTag ⟨World.fresh twoAdas, []⟩).bind (fun s =>
          s.calls[1]?.map fun c => (c.request.ensures?, c.request.isCreation, c.program.result?)) =
        some (some ("u2", "EUR", "Ada"), false, some (.error .duplicateEntry)) := by
      decide +kernel
    exact throws_of_run hrun ⟨_, List.mem_cons_of_mem _ List.mem_cons_self, rfl⟩
  · have hrun : ((server cardPayments).runUnder OnlyIndexes oneUser ⟨World.fresh twoAdas, []⟩).bind (fun s =>
          s.calls[1]?.map fun c => (c.request.ensures?, c.request.isCreation, c.program.result?)) =
        some (some ("u1", "EUR", "Ada"), false, some (.error .duplicateEntry)) := by
      decide +kernel
    exact throws_of_run hrun ⟨_, List.mem_cons_self, rfl⟩

end LiorParisWallet
