import LiorParisWallet.Cache.Snapshots

/-!
# Fresh balances

A settlement or a transfer deletes the cache keys of its wallets after the commit.  A reader that was
slower, that is, one that read the wallet before the commit and fills the cache after the deletion, puts
the old balance back.  In runs without such readers whoever asks for a balance after a change of it was
acknowledged gets that change or a later one.
-/

namespace LiorParisWallet

open Async Relational

abbrev Log : Type := List (Event Op Ans Err World)

/-- The operation reads the row of the wallet with this cache key. -/
def Op.reads (key : String) : Op → Bool
  | .findByUserIdAndCurrency userId currency => balanceCacheKey userId currency == key
  | _ => false

/-- The key under which the operation puts a wallet into the cache. -/
def Op.fills? : Op → Option String
  | .cacheSet key _ => some key
  | _ => none

/-- The key was deleted from the cache. -/
def deletes (key : String) : Answer Ans Err → Bool
  | ⟨.cacheDel key', .ok _⟩ => key' == key
  | _ => false

/-- The `k`-th event changed a balance under this key, and its caller has deleted the key since. -/
def Withdrawn (log : Log) (key : String) (k : ℕ) : Prop :=
  ∃ e ∈ log[k]?, key ∈ e.op.cacheKeys ∧
    ∃ e' ∈ log.drop (k + 1), e'.call = e.call ∧ deletes key ⟨e'.op, e'.answer⟩

/-- After call `i` has read the wallet, its balance was changed and its key deleted. -/
def Overtaken (log : Log) (i : ℕ) (key : String) : Prop :=
  ∃ m < log.length, (∃ e ∈ log[m]?, e.call = i ∧ e.op.reads key) ∧
    ∃ k < log.length, m < k ∧ Withdrawn log key k

/-- No call puts into the cache what another call has changed and deleted in the meantime. -/
def NoStaleWrite (s : RecordedState) : Label Request Choice → Prop
  | .start _ => True
  | .step i _ => ∀ o ∈ s.awaits i, ∀ key ∈ o.fills?, ¬ Overtaken s.world.log i key

/-- The `k`-th event was a settlement or a transfer of call `j`, and it has changed the wallet. -/
def Changed (w : RecordedWorld) (j k : ℕ) (userId currency : String) : Prop :=
  ∃ e w₁, w.log[k]? = some e ∧ e.call = j ∧ e.op.cacheKeys ≠ [] ∧ w.worlds[k + 1]? = some w₁ ∧
    w₁.db.findByUserIdAndCurrency userId currency ≠
      e.world.db.findByUserIdAndCurrency userId currency

instance (log : Log) (key : String) (k : ℕ) : Decidable (Withdrawn log key k) :=
  inferInstanceAs (Decidable (∃ _ ∈ _, _))

instance (log : Log) (i : ℕ) (key : String) : Decidable (Overtaken log i key) :=
  inferInstanceAs (Decidable (∃ _, _ ∧ _))

instance (s : RecordedState) (l : Label Request Choice) : Decidable (NoStaleWrite s l) :=
  match l with
  | .start _ => .isTrue trivial
  | .step i _ => inferInstanceAs (Decidable (∀ o ∈ s.awaits i, ∀ key ∈ o.fills?, _))

theorem deletes_iff {key : String} {x : Answer Ans Err} :
    deletes key x ↔ x = ⟨.cacheDel key, .ok ()⟩ := by
  constructor
  · intro h
    unfold deletes at h
    split at h
    · rw [beq_iff_eq.mp h]
    · cases h
  · rintro rfl
    exact beq_self_eq_true key

section Log

variable {log log' : Log} {key : String} {k : ℕ}

theorem Withdrawn.mono (h : Withdrawn log key k) (hlog : log <+: log') : Withdrawn log' key k := by
  obtain ⟨e, he, hkey, e', he', hdeleted⟩ := h
  obtain ⟨l, rfl⟩ := hlog
  have hlt := (List.getElem?_eq_some_iff.mp he).1
  refine ⟨e, ?_, hkey, e', ?_, hdeleted⟩
  · rw [Option.mem_def, List.getElem?_append_left hlt]
    exact he
  · rw [List.drop_append_of_le_length hlt]
    exact List.mem_append_left _ he'

/-- The last event can only complete what it deletes. -/
theorem Withdrawn.init {e₀ : Event Op Ans Err World} (h : Withdrawn (log ++ [e₀]) key k)
    (hne : (⟨e₀.op, e₀.answer⟩ : Answer Ans Err) ≠ ⟨.cacheDel key, .ok ()⟩) : Withdrawn log key k := by
  obtain ⟨e, he, hkey, e', he', hcall, hdeletes⟩ := h
  have hearlier : e' ∈ log.drop (k + 1) := by
    rw [List.drop_append] at he'
    rcases List.mem_append.mp he' with he' | he'
    · exact he'
    · obtain rfl := List.mem_singleton.mp (List.mem_of_mem_drop he')
      exact absurd (deletes_iff.mp hdeletes) hne
  have hlt : k < log.length := by
    have := List.length_pos_of_mem hearlier
    rw [List.length_drop] at this
    omega
  rw [Option.mem_def, List.getElem?_append_left hlt] at he
  exact ⟨e, he, hkey, e', hearlier, hcall, hdeletes⟩

theorem Withdrawn.lt (h : Withdrawn log key k) : k < log.length :=
  let ⟨_, he, _⟩ := h
  (List.getElem?_eq_some_iff.mp he).1

end Log

/-! ## What a change withdraws -/

section Changes

variable {db : Store} {userId currency : String}

theorem find_setBalance (id : String) (balance : ℤ) :
    (db.setBalance id balance).findByUserIdAndCurrency userId currency =
      (db.findByUserIdAndCurrency userId currency).map fun a =>
        if a.id == id then { a with balance := balance } else a := by
  refine Table.find?_update ?_ ?_
  · exact fun _ _ => rfl
  · exact fun _ => rfl

/-- A balance that is set is that of the wallet with the id. -/
theorem find_setBalance_ne {id : String} {balance : ℤ}
    (h : (db.setBalance id balance).findByUserIdAndCurrency userId currency ≠
      db.findByUserIdAndCurrency userId currency) :
    ∃ a ∈ db.wallets, a.id = id ∧ a.userId = userId ∧ a.currency = currency := by
  rw [find_setBalance] at h
  cases hfind : db.findByUserIdAndCurrency userId currency with
  | none =>
    rw [hfind] at h
    exact absurd rfl h
  | some a =>
    obtain ⟨hmem, hof⟩ := Table.mem_of_find? hfind
    refine ⟨a, hmem, ?_, by simpa using hof⟩
    by_contra hid
    rw [hfind, Option.map_some, if_neg (by simpa using hid)] at h
    exact h rfl

/-- A wallet that a settlement or a transfer changes is one whose key the operation names, and the
    operation has succeeded. -/
theorem keys_of_change {req : Request} {i : ℕ} {o : Op} {ω : Choice} {w w' : World}
    {r : Except Err (Ans o)} (hp : perform i o ω w = some (r, w')) (ho : o.cacheKeys ≠ [])
    (hpre : Guarantee req i o w)
    (hne : w'.db.findByUserIdAndCurrency userId currency ≠
      w.db.findByUserIdAndCurrency userId currency) :
    balanceCacheKey userId currency ∈ o.cacheKeys ∧ ∃ a, r = .ok a := by
  cases o with
  | settleTransaction walletId t type change data =>
    rcases insert_eq_some hp with ⟨rfl, -⟩ | ⟨a, db, hresult, rfl, -, rfl⟩
    · exact absurd rfl hne
    · obtain ⟨wallet, -, rfl, -, -, ledger, outbox, -, -, rfl⟩ := settleTransaction_eq_ok.mp hresult
      obtain ⟨b, hb, hid, rfl, rfl⟩ := find_setBalance_ne hne
      obtain ⟨hu, hc⟩ := hpre.wallet.2 b hb hid
      rw [hu, hc]
      exact ⟨List.mem_singleton_self _, a, rfl⟩
  | executeTransfer t fromWalletId toWalletId data =>
    rcases insert_eq_some hp with ⟨rfl, -⟩ | ⟨a, db, hresult, rfl, -, rfl⟩
    · exact absurd rfl hne
    · obtain ⟨sender, receiver, hs, hr, -, ledger₁, ledger, outbox, -, -, -, rfl⟩ :=
        executeTransfer_eq_ok.mp hresult
      obtain ⟨-, rfl⟩ := findWallet_eq_some.mp hs
      obtain ⟨-, rfl⟩ := findWallet_eq_some.mp hr
      refine ⟨?_, a, rfl⟩
      by_cases hsender : (w.db.setBalance sender.id (sender.balance - t.amount)).findByUserIdAndCurrency
          userId currency = w.db.findByUserIdAndCurrency userId currency
      · -- it is the receiver's wallet that has changed
        rw [← hsender] at hne
        obtain ⟨b, hb, hid, rfl, rfl⟩ := find_setBalance_ne hne
        obtain ⟨b', hb', rfl⟩ := mem_setBalance.mp hb
        have hof : b'.userId = t.toUserId ∧ b'.currency = t.currency := by
          refine hpre.receiver.2 b' hb' ?_
          split at hid <;> exact hid
        rw [apply_ite Wallet.userId, apply_ite Wallet.currency, ite_self, ite_self, hof.1, hof.2]
        exact List.mem_cons_of_mem _ (List.mem_singleton_self _)
      · obtain ⟨b, hb, hid, rfl, rfl⟩ := find_setBalance_ne hsender
        obtain ⟨hu, hc⟩ := hpre.sender.2 b hb hid
        rw [hu, hc]
        exact List.mem_cons_self
  | _ => exact absurd rfl ho

end Changes

section Runs

variable {registry : PaymentGatewayRegistry} {w : World} {s s' : RecordedState}
variable {allowed : RecordedState → Label Request Choice → Prop} {i j k : ℕ} {userId currency : String}

/-- What is in a list stays where it is when the list grows. -/
theorem getElem?_of_prefix {α : Type} {l l' : List α} (h : l <+: l') {n : ℕ} {a : α}
    (ha : l[n]? = some a) : l'[n]? = some a := by
  obtain ⟨m, rfl⟩ := h
  rw [List.getElem?_append_left (List.getElem?_eq_some_iff.mp ha).1]
  exact ha

theorem Changed.key (hw : w.Initial) (hr : (server registry).recorded.Reaches allowed ⟨⟨w, []⟩, []⟩ s)
    (h : Changed s.world j k userId currency) : ∃ e, s.world.log[k]? = some e ∧ e.call = j ∧
      balanceCacheKey userId currency ∈ e.op.cacheKeys ∧ ∃ a, e.answer = .ok a := by
  obtain ⟨e, w₁, he, hcall, hop, hw₁, hne⟩ := h
  refine ⟨e, he, hcall, ?_⟩
  obtain ⟨s₁, s₂, ω, hr₁, -, hstep, hr₂, ho, hperform, hworld, hlength⟩ := hr.occurs (Nat.zero_le k) he
  -- the world after the event is the one that the step has left
  have hafter : s.world.worlds[k + 1]? = some s₂.world.world := by
    refine getElem?_of_prefix hr₂.worlds_prefix ?_
    obtain ⟨c, o, next, r, -, -, -, hlog, -⟩ := Server.recorded_step hstep
    have hlength₂ : s₂.world.log.length = k + 1 := by
      rw [hlog, List.length_append, hlength]
      rfl
    rw [← hlength₂]
    exact s₂.world.worlds_getElem?_length
  obtain rfl := Option.some.inj (hw₁.symm.trans hafter)
  rw [hworld] at hne
  have hreachable : Reachable registry s₁.forget := ⟨w, hw, hr₁.forget⟩
  obtain ⟨c, -, hpre, -⟩ := hreachable.effect (Server.next_forget (l := .step e.call ω) hstep) ho
  exact keys_of_change hperform hop hpre hne

/-- A call that has returned has deleted the keys of the wallets that it has changed. -/
theorem withdrawn_of_returned (hr : (server registry).recorded.Reaches allowed ⟨⟨w, []⟩, []⟩ s)
    {e : Event Op Ans Err World} (he : s.world.log[k]? = some e) {a : Ans e.op} (hok : e.answer = .ok a)
    {rep : Reply} (hrep : s.outcome e.call = some (.ok rep)) {key : String}
    (hkey : key ∈ e.op.cacheKeys) : Withdrawn s.world.log key k := by
  obtain ⟨c, hc, hresult⟩ := Option.bind_eq_some_iff.mp hrep
  have hsound := Contract.sound_reaches cache_meets (Contract.sound_idle trivial) hr
  obtain ⟨_, _, hkept⟩ :=
    (hsound.tracks e.call (List.getElem?_eq_some_iff.mp hc).1).outcome hc hresult
  have hinvalidated : Invalidated c.answers := (hkept rep rfl).1
  -- the log before and after the change
  have hlt := (List.getElem?_eq_some_iff.mp he).1
  have hsplit : s.world.log = s.world.log.take k ++ e :: s.world.log.drop (k + 1) := by
    rw [← (List.getElem?_eq_some_iff.mp he).2, ← List.drop_eq_getElem_cons hlt, List.take_append_drop]
  have hanswers : c.answers = s.world.answersOf e.call := by
    rw [hr.answersOf rfl rfl, hc]
    rfl
  rw [Recorded.answersOf, hsplit, List.filterMap_append, List.filterMap_cons, if_pos rfl,
    List.reverse_append, List.reverse_cons, List.append_assoc, hok] at hanswers
  have hdeleted := hinvalidated _ _ a _ hanswers key hkey
  obtain ⟨e', he', hx⟩ := List.mem_filterMap.mp (List.mem_reverse.mp hdeleted)
  split at hx
  · rename_i hcall
    exact ⟨e, he, hkey, e', he', hcall, deletes_iff.mpr (Option.some.inj hx)⟩
  · cases hx

/-- The entry is the row of its wallet at a moment after every change that was withdrawn. -/
def FreshEntry (w : RecordedWorld) (p : String × Wallet) : Prop :=
  ∃ userId currency n w₀, ':' ∉ userId.toList ∧ p.1 = balanceCacheKey userId currency ∧
    w.worlds[n]? = some w₀ ∧ w₀.db.findByUserIdAndCurrency userId currency = some p.2 ∧
    ∀ k, Withdrawn w.log p.1 k → k < n

/-- In runs without stale writes the cache holds fresh entries only. -/
theorem cache_fresh (hcache : w.cache = [])
    (hr : (server registry).recorded.Reaches NoStaleWrite ⟨⟨w, []⟩, []⟩ s) (hcolon : ColonFree s) :
    ∀ p ∈ s.world.world.cache, FreshEntry s.world p := by
  refine Contract.reaches_induction cache_meets (Contract.sound_idle trivial) hr
    (fun s => ColonFree s → ∀ p ∈ s.world.world.cache, FreshEntry s.world p) ?_ ?_ ?_ hcolon
  · intro _ p hp
    rw [hcache] at hp
    cases hp
  · intro s req _ ih hcolon
    exact ih hcolon.of_start
  · intro s i ω c o next r world _ hallowed hc hprogram hpre hperform ih hcolon p hp
    have hstep := Server.reaches_of_step (Server.step_of_await hc hprogram hperform)
    have hs : ColonFree s := hcolon.earlier hstep
    have hlater : s.world.worlds <+: world.worlds := hstep.worlds_prefix
    obtain ⟨hrun, hlog⟩ := Server.recorded_perform.mp hperform
    rcases cache_of_perform hrun hp with rfl | ⟨hp, hkept⟩
    · -- the entry is the row that the call has read, and no change has overtaken it
      obtain ⟨userId, currency, hreq, hkey, e, he, hcall, hanswer, hfind⟩ := hpre p.1 p.2 rfl
      obtain ⟨m, hm⟩ := List.getElem?_of_mem he
      have hm' := (List.getElem?_eq_some_iff.mp hm).1
      have hovertaken : ¬ Overtaken s.world.log i p.1 :=
        hallowed _ (System.awaits_eq hc hprogram) p.1 rfl
      have hread : e.op = .findByUserIdAndCurrency userId currency := (Sigma.mk.inj hanswer).1
      refine ⟨userId, currency, m, e.world, hs i userId currency ⟨c, hc, hreq⟩, hkey,
        getElem?_of_prefix hlater (Recorded.worlds_getElem? hm), hfind, fun k hk => ?_⟩
      rw [hlog] at hk
      have hk := hk.init fun h => nomatch h
      rcases Nat.lt_trichotomy k m with hlt | rfl | hgt
      · exact hlt
      · -- reading a wallet changes none
        obtain ⟨e', he', hmem, -⟩ := hk
        obtain rfl := Option.some.inj (hm.symm.trans he')
        rw [hread] at hmem
        cases hmem
      · refine absurd ⟨m, hm', ⟨e, hm, hcall, ?_⟩, k, hk.lt, hgt, hk⟩ hovertaken
        rw [hread, hkey]
        exact beq_self_eq_true _
    · -- the entry was there before, and its key has not just been deleted
      obtain ⟨userId, currency, n, w₀, hfree, hkey, hw₀, hfind, hfresh⟩ := ih hs p hp
      refine ⟨userId, currency, n, w₀, hfree, hkey, getElem?_of_prefix hlater hw₀, hfind, ?_⟩
      intro k hk
      rw [hlog] at hk
      exact hfresh k (hk.init hkept)

/-- A call for the balance that is made after a change was withdrawn answers with that change or with a
    later one. -/
theorem fresh_of_withdrawn (hcache : w.cache = [])
    (hr : (server registry).recorded.Reaches NoStaleWrite ⟨⟨w, []⟩, []⟩ s)
    (hr' : (server registry).recorded.Reaches NoStaleWrite s s') (hcolon : ColonFree s')
    (hwithdrawn : Withdrawn s.world.log (balanceCacheKey userId currency) k)
    (hnew : s.calls.length ≤ i) (hasked : Asked s'.forget i (.getBalance userId currency)) {rep : Reply}
    (hrep : s'.outcome i = some (.ok rep)) :
    ∃ a n w₀, rep = .wallet a ∧ k < n ∧ s'.world.worlds[n]? = some w₀ ∧
      w₀.db.findByUserIdAndCurrency userId currency = some a := by
  have hfree := hcolon i userId currency hasked
  obtain ⟨c, hc, hreq⟩ := hasked
  obtain ⟨c', hc', hresult⟩ := Option.bind_eq_some_iff.mp hrep
  obtain rfl := Option.some.inj (hc'.symm.trans hc)
  have hsound := Contract.sound_reaches cache_meets (Contract.sound_idle trivial) (hr.trans hr')
  obtain ⟨_, _, hkept⟩ := (hsound.tracks i (List.getElem?_eq_some_iff.mp hc').1).outcome hc' hresult
  obtain ⟨a, rfl, hlooked⟩ := (hkept rep rfl).2 userId currency hreq
  rcases hlooked with hhit | hread
  · -- it was in the cache, after the change was withdrawn
    obtain ⟨s₀, s₁, ω, hr₀, -, -, hstep, hperform, hr₁⟩ :=
      hr'.answered (List.getElem?_eq_none hnew) hc' hhit
    have hlater := (Server.reaches_of_step hstep).trans hr₁.any
    have hentry := cacheGet_hit (i := i) (Server.recorded_perform.mp hperform).1
    obtain ⟨u, cur, n, w₀, hfree', hkey, hw₀, hfind, hfresh⟩ :=
      cache_fresh hcache (hr.trans hr₀) (hcolon.earlier hlater) _ hentry
    obtain ⟨rfl, rfl⟩ := balanceCacheKey_inj hfree hfree' hkey
    exact ⟨a, n, w₀, rfl, hfresh k (hwithdrawn.mono hr₀.log_prefix),
      getElem?_of_prefix hlater.worlds_prefix hw₀, hfind⟩
  · -- it is the row in the store at that moment
    obtain ⟨s₀, s₁, ω, hr₀, -, -, hstep, hperform, hr₁⟩ :=
      hr'.answered (List.getElem?_eq_none hnew) hc' hread
    have hlater := (Server.reaches_of_step hstep).trans hr₁.any
    have hfind := (read_ok (Server.recorded_perform.mp hperform).1).2
    refine ⟨a, s₀.world.log.length, s₀.world.world, rfl, (hwithdrawn.mono hr₀.log_prefix).lt, ?_,
      hfind.symm⟩
    exact getElem?_of_prefix hlater.worlds_prefix s₀.world.worlds_getElem?_length

/-- In a run in which no slow reader puts an old row back: once a call that has changed a wallet has
    returned, whoever asks for its balance gets what that change left or a later one. -/
theorem balance_fresh (registry : PaymentGatewayRegistry) (w : World) (s s' : RecordedState)
    (hw : w.Initial) (hcache : w.cache = [])
    (hr : (server registry).recorded.Reaches NoStaleWrite ⟨⟨w, []⟩, []⟩ s)
    (hr' : (server registry).recorded.Reaches NoStaleWrite s s') (hcolon : ColonFree s') (j k i : ℕ)
    (userId currency : String) (hchanged : Changed s.world j k userId currency) (rep rep' : Reply)
    (hreturned : s.outcome j = some (.ok rep)) (hnew : s.calls.length ≤ i)
    (hasked : Asked s'.forget i (.getBalance userId currency)) (hrep : s'.outcome i = some (.ok rep')) :
    ∃ a n w₀, rep' = .wallet a ∧ k < n ∧ s'.world.worlds[n]? = some w₀ ∧
      w₀.db.findByUserIdAndCurrency userId currency = some a := by
  obtain ⟨e, he, rfl, hkey, a, hok⟩ := hchanged.key hw hr
  have hwithdrawn := withdrawn_of_returned hr he hok hreturned hkey
  exact fresh_of_withdrawn hcache hr hr' hcolon hwithdrawn hnew hasked hrep

end Runs

/-! ## Two runs

Ada has opened her wallet and paid in 50 by card; call 2 asks for her balance, call 3 settles the payment,
and call 4 asks again.  A slow reader puts the balance that it has read before the settlement into the
cache when the settlement is over. -/

def settlePaid : List (Label Request Choice) :=
  [.start (.settleByProviderRef "cs1"), .step 3 {}, .step 3 {}, .step 3 {}, .step 3 {},
    .step 3 { uuid := "e1" }, .step 3 {}]

def slowReader : List (Label Request Choice) :=
  openWallet 0 "u1" "Ada" "w1" ++ payIn 1 "u1" topup "t1" "cs1" ++
    [.start (.getBalance "u1" "EUR"), .step 2 {}, .step 2 {}] ++ settlePaid

def quickReader : List (Label Request Choice) :=
  openWallet 0 "u1" "Ada" "w1" ++ payIn 1 "u1" topup "t1" "cs1" ++
    [.start (.getBalance "u1" "EUR"), .step 2 {}, .step 2 {}, .step 2 {}] ++ settlePaid

def adasWallet (balance : ℤ) : Wallet := ⟨"w1", "u1", balance, "EUR", "ada-0000"⟩

/-- The state after the settlement, as far as it matters here: it was step `k`. -/
def Settled (s : RecordedState) (k : ℕ) : Prop :=
  (s.world.log[k]?.map fun e => (e.call, e.op.cacheKeys, e.world.db.findByUserIdAndCurrency "u1" "EUR")) =
    some (3, ["wallet:balance:u1:EUR"], some (adasWallet 0)) ∧
  (s.world.worlds[k + 1]?.map (·.db.findByUserIdAndCurrency "u1" "EUR")) = some (some (adasWallet 50)) ∧
  s.outcome 3 = some (.ok .done) ∧ s.calls.length = 4

instance (s : RecordedState) (k : ℕ) : Decidable (Settled s k) :=
  inferInstanceAs (Decidable (_ ∧ _))

theorem Settled.changed {s : RecordedState} {k : ℕ} (h : Settled s k) :
    Changed s.world 3 k "u1" "EUR" := by
  obtain ⟨e, he, hevent⟩ := Option.map_eq_some_iff.mp h.1
  obtain ⟨w₁, hw₁, hafter⟩ := Option.map_eq_some_iff.mp h.2.1
  obtain ⟨hcall, hkeys, hbefore⟩ := Prod.mk.inj hevent |>.imp_right Prod.mk.inj
  refine ⟨e, w₁, he, hcall, ?_, hw₁, ?_⟩
  · rw [hkeys]
    exact List.cons_ne_nil _ _
  · rw [hafter, hbefore]
    decide

theorem balance_fresh_quick : ∃ s s' : RecordedState, ∃ w₀ : World,
    (server cardPayments).recorded.Reaches NoStaleWrite ⟨⟨World.fresh adaAndBob, []⟩, []⟩ s ∧
    Settled s 15 ∧ w₀ ∈ s'.world.worlds ∧ s'.outcome 4 = some (.ok (.wallet (adasWallet 50))) ∧
    w₀.db.findByUserIdAndCurrency "u1" "EUR" = some (adasWallet 50) := by
  have hrun : (((server cardPayments).recorded.runUnder NoStaleWrite quickReader
      ⟨⟨World.fresh adaAndBob, []⟩, []⟩).bind fun s => ((server cardPayments).recorded.runUnder
        NoStaleWrite [.start (.getBalance "u1" "EUR"), .step 4 {}, .step 4 {}, .step 4 {}] s).map fun s' =>
      decide (Settled s 15 ∧ s'.outcome 4 = some (.ok (.wallet (adasWallet 50))) ∧
        s'.calls.filterMap (·.request.balanceOf?) = [("u1", "EUR"), ("u1", "EUR")] ∧
        s'.calls[4]?.bind (·.request.balanceOf?) = some ("u1", "EUR"))) = some true := by
    decide +kernel
  obtain ⟨s, hs, hrun⟩ := Option.bind_eq_some_iff.mp hrun
  obtain ⟨s', hs', hrun⟩ := Option.map_eq_some_iff.mp hrun
  obtain ⟨hsettled, houtcome, husers, hasked⟩ := of_decide_eq_true hrun
  have hr := Server.reaches_of_runUnder hs
  have hcolon : ColonFree s' := colonFree_of_users (by rw [husers]; decide)
  obtain ⟨a, n, w₀, ha, -, hw₀, hfind⟩ := balance_fresh cardPayments _ s s'
    (World.fresh_initial adaAndBob) rfl hr (Server.reaches_of_runUnder hs') hcolon 3 15 4 "u1" "EUR"
    hsettled.changed .done _ hsettled.2.2.1 hsettled.2.2.2.le (asked_of_balanceOf hasked) houtcome
  cases ha
  exact ⟨s, s', w₀, hr, hsettled, List.mem_of_getElem? hw₀, houtcome, hfind⟩

/-- The settlement has been acknowledged, and still the next call answers with the balance of before, which
    the wallet has had at no later moment. -/
theorem stale_balance_returned : ∃ s s' : RecordedState,
    (server cardPayments).recorded.run slowReader ⟨⟨World.fresh adaAndBob, []⟩, []⟩ = some s ∧
    (server cardPayments).recorded.run [.step 2 {}, .start (.getBalance "u1" "EUR"), .step 4 {}] s =
      some s' ∧ Settled s 14 ∧ Changed s.world 3 14 "u1" "EUR" ∧ Asked s'.forget 4 (.getBalance "u1" "EUR") ∧
    s'.outcome 4 = some (.ok (.wallet (adasWallet 0))) ∧
    ∀ n w₀, 14 < n → s'.world.worlds[n]? = some w₀ →
      w₀.db.findByUserIdAndCurrency "u1" "EUR" = some (adasWallet 50) := by
  have hrun : (((server cardPayments).recorded.run slowReader
      ⟨⟨World.fresh adaAndBob, []⟩, []⟩).bind fun s => ((server cardPayments).recorded.run
        [.step 2 {}, .start (.getBalance "u1" "EUR"), .step 4 {}] s).map fun s' =>
      decide (Settled s 14 ∧ s'.outcome 4 = some (.ok (.wallet (adasWallet 0))) ∧
        s'.calls[4]?.bind (·.request.balanceOf?) = some ("u1", "EUR") ∧
        (s'.world.worlds.drop 15).map (·.db.findByUserIdAndCurrency "u1" "EUR") =
          List.replicate 4 (some (adasWallet 50)))) = some true := by
    decide +kernel
  obtain ⟨s, hs, hrun⟩ := Option.bind_eq_some_iff.mp hrun
  obtain ⟨s', hs', hrun⟩ := Option.map_eq_some_iff.mp hrun
  obtain ⟨hsettled, houtcome, hasked, hbalances⟩ := of_decide_eq_true hrun
  refine ⟨s, s', hs, hs', hsettled, hsettled.changed,
    asked_of_balanceOf hasked, houtcome, fun n w₀ hn hw₀ => ?_⟩
  have hmem : w₀ ∈ s'.world.worlds.drop 15 :=
    List.mem_of_getElem? (i := n - 15) (by rwa [List.getElem?_drop, Nat.add_sub_cancel' hn])
  have hbalance := List.mem_map_of_mem (f := (·.db.findByUserIdAndCurrency "u1" "EUR")) hmem
  rw [hbalances] at hbalance
  exact List.eq_of_mem_replicate hbalance

end LiorParisWallet
