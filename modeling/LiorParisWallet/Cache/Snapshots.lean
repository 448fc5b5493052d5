import LiorParisWallet.Cache.Contract

/-!
# The cache never mixes wallets

Whatever is in the cache under the key of a wallet, and whatever `getBalance` returns, is a row that this
wallet really had.
-/

namespace LiorParisWallet

open Async Relational

/-- No one has asked for the balance of a user whose id contains a colon.  The currency is the client's. -/
def ColonFree (s : RecordedState) : Prop :=
  ∀ i userId currency, Asked s.forget i (.getBalance userId currency) → ':' ∉ userId.toList

/-- The entry is a snapshot of the wallet whose key it has. -/
def OfItsWallet (w : RecordedWorld) (p : String × Wallet) : Prop :=
  ∃ userId currency, ':' ∉ userId.toList ∧ p.1 = balanceCacheKey userId currency ∧
    Snapshot w userId currency p.2

theorem split_at_first {α : Type} {a : α} {l₁ l₂ m₁ m₂ : List α} (h₁ : a ∉ l₁) (h₂ : a ∉ l₂)
    (h : l₁ ++ a :: m₁ = l₂ ++ a :: m₂) : l₁ = l₂ ∧ m₁ = m₂ := by
  rcases List.append_eq_append_iff.mp h with ⟨l, rfl, hl⟩ | ⟨l, rfl, hl⟩
  · cases l with
    | nil => exact ⟨(List.append_nil _).symm, (List.cons.inj hl).2⟩
    | cons b l =>
      obtain ⟨rfl, -⟩ := List.cons.inj hl
      exact absurd (List.mem_append_right _ List.mem_cons_self) h₂
  · cases l with
    | nil => exact ⟨List.append_nil _, (List.cons.inj hl).2.symm⟩
    | cons b l =>
      obtain ⟨rfl, -⟩ := List.cons.inj hl
      exact absurd (List.mem_append_right _ List.mem_cons_self) h₁

theorem toList_append_four (s₁ s₂ s₃ s₄ : String) :
    (s₁ ++ s₂ ++ s₃ ++ s₄).toList = s₁.toList ++ (s₂.toList ++ (s₃.toList ++ s₄.toList)) := by
  simp only [String.toList_append, List.append_assoc]

/-- The user is what stands between the prefix and the next colon. -/
theorem balanceCacheKey_inj {u u' c c' : String} (hu : ':' ∉ u.toList) (hu' : ':' ∉ u'.toList)
    (h : balanceCacheKey u c = balanceCacheKey u' c') : u = u' ∧ c = c' := by
  have hlist := congrArg String.toList h
  unfold balanceCacheKey at hlist
  rw [toList_append_four, toList_append_four] at hlist
  obtain ⟨huser, hcurrency⟩ := split_at_first hu hu' (List.append_cancel_left hlist)
  exact ⟨String.toList_inj.mp huser, String.toList_inj.mp hcurrency⟩

section Perform

variable {i : ℕ} {o : Op} {ω : Choice} {w w' : World} {r : Except Err (Ans o)} {p : String × Wallet}

theorem mem_cacheDel {key : String} {cache : List (String × Wallet)} :
    p ∈ cache.filter (·.1 != key) ↔ p ∈ cache ∧ p.1 ≠ key := by
  rw [List.mem_filter, bne_iff_ne]

/-- An entry has just been set, or it was there before and has not been deleted. -/
theorem cache_of_perform (h : perform i o ω w = some (r, w')) (hp : p ∈ w'.cache) :
    o = .cacheSet p.1 p.2 ∨
      p ∈ w.cache ∧ (⟨o, r⟩ : Answer Ans Err) ≠ ⟨.cacheDel p.1, .ok ()⟩ := by
  cases o with
  | cacheGet key =>
    refine .inr ⟨?_, fun h => nomatch h⟩
    rw [perform_cacheGet] at h
    split at h
    · rcases write_eq_some h with ⟨rfl, -⟩ | ⟨rfl, -⟩
      · exact hp
      · exact (mem_cacheDel.mp hp).1
    · rwa [(read_eq_some h).1] at hp
  | cacheSet key a =>
    rcases write_eq_some h with ⟨rfl, -⟩ | ⟨rfl, -⟩
    · exact .inr ⟨hp, fun h => nomatch h⟩
    · rcases List.mem_cons.mp hp with rfl | hp
      · exact .inl rfl
      · exact .inr ⟨(mem_cacheDel.mp hp).1, fun h => nomatch h⟩
  | cacheDel key =>
    rcases write_eq_some h with ⟨rfl, hr⟩ | ⟨rfl, -⟩
    · refine .inr ⟨hp, fun heq => ?_⟩
      cases heq
      exact hr () rfl
    · obtain ⟨hp, hne⟩ := mem_cacheDel.mp hp
      refine .inr ⟨hp, fun heq => ?_⟩
      cases heq
      exact hne rfl
  -- the other operations do not touch the cache
  | findByUserIdAndCurrency | findByWalletTag | findTransactionByIdempotencyKey
  | findTransactionByProviderRef | findTransferByIdempotencyKey | findUserById | randomBytes | newDate =>
    rw [(read_eq_some h).1] at hp
    exact .inr ⟨hp, fun h => nomatch h⟩
  | updateTransactionProviderRef | failTransaction | deleteUser =>
    refine .inr ⟨?_, fun h => nomatch h⟩
    rcases write_eq_some h with ⟨rfl, -⟩ | ⟨rfl, -⟩ <;> exact hp
  | saveWallet | createTransaction | createTransfer | createUser | settleTransaction | executeTransfer =>
    refine .inr ⟨?_, fun h => nomatch h⟩
    rcases insert_eq_some h with ⟨rfl, -⟩ | ⟨_, _, _, _, _, rfl⟩ <;> exact hp
  | processDeposit =>
    obtain ⟨-, -, rfl⟩ := pay_eq_some h
    exact .inr ⟨hp, fun h => nomatch h⟩

/-- What the cache answers is in the cache. -/
theorem cacheGet_hit {key : String} {a : Wallet}
    (h : perform i (.cacheGet key) ω w = some (.ok (some a), w')) : (key, a) ∈ w.cache := by
  rw [perform_cacheGet] at h
  split at h
  · rcases write_eq_some h with ⟨-, hne⟩ | ⟨-, heq⟩
    · exact absurd rfl (hne _)
    · cases heq
  · have hlookup : w.cache.lookup key = some a := (read_ok h).2.symm
    obtain ⟨l₁, l₂, hcache, -⟩ := List.lookup_eq_some_iff.mp hlookup
    exact hcache ▸ List.mem_append_right _ List.mem_cons_self

end Perform

section Runs

variable {registry : PaymentGatewayRegistry} {w : World} {s s' : RecordedState}
variable {allowed : RecordedState → Label Request Choice → Prop}

theorem OfItsWallet.mono {w w' : RecordedWorld} {p : String × Wallet} (h : OfItsWallet w p)
    (hw : w.worlds <+: w'.worlds) : OfItsWallet w' p :=
  let ⟨userId, currency, hcolon, hkey, hsnapshot⟩ := h
  ⟨userId, currency, hcolon, hkey, hsnapshot.mono hw⟩

theorem OfItsWallet.snapshot {w : RecordedWorld} {userId currency : String} {a : Wallet}
    (h : OfItsWallet w (balanceCacheKey userId currency, a)) (hcolon : ':' ∉ userId.toList) :
    Snapshot w userId currency a := by
  obtain ⟨userId', currency', hcolon', hkey, hsnapshot⟩ := h
  obtain ⟨rfl, rfl⟩ := balanceCacheKey_inj hcolon hcolon' hkey
  exact hsnapshot

/-- Calls are never forgotten. -/
theorem ColonFree.earlier (h : ColonFree s') (hr : (server registry).recorded.Reaches allowed s s') :
    ColonFree s := by
  induction hr with
  | refl => exact h
  | tail _ _ hn ih =>
    exact ih fun i userId currency hasked => h i userId currency (hasked.next (Server.next_forget hn))

theorem ColonFree.of_start {req : Request}
    (h : ColonFree ⟨s.world, s.calls ++ [⟨req, [], serve registry req⟩]⟩) : ColonFree s := by
  have hr : (server registry).recorded.Reaches Server.Any s
      ⟨s.world, s.calls ++ [⟨req, [], serve registry req⟩]⟩ :=
    .tail (l := .start req) .refl trivial rfl
  exact h.earlier hr

/-- Every interleaving keeps the cache free of anything but snapshots. -/
theorem cache_unmixed (hcache : w.cache = [])
    (hr : (server registry).recorded.Reaches allowed ⟨⟨w, []⟩, []⟩ s) (hcolon : ColonFree s) :
    ∀ p ∈ s.world.world.cache, OfItsWallet s.world p := by
  refine Contract.reaches_induction cache_meets (Contract.sound_idle trivial) hr
    (fun s => ColonFree s → ∀ p ∈ s.world.world.cache, OfItsWallet s.world p) ?_ ?_ ?_ hcolon
  · intro _ p hp
    rw [hcache] at hp
    cases hp
  · intro s req _ ih hcolon
    exact ih hcolon.of_start
  · intro s i ω c o next r world _ _ hc hprogram hpre hperform ih hcolon p hp
    have hstep := Server.reaches_of_step (Server.step_of_await hc hprogram hperform)
    have hs : ColonFree s := hcolon.earlier hstep
    have hlater : s.world.worlds <+: world.worlds := hstep.worlds_prefix
    rcases cache_of_perform (Server.recorded_perform.mp hperform).1 hp with rfl | ⟨hp, -⟩
    · -- the entry has just been put there by a call for the balance
      obtain ⟨userId, currency, hreq, hkey, hfetched⟩ := hpre p.1 p.2 rfl
      exact ⟨userId, currency, hs i userId currency ⟨c, hc, hreq⟩, hkey,
        hfetched.snapshot.mono hlater⟩
    · exact (ih hs p hp).mono hlater

/-- What `getBalance` has returned was, at some moment of the run, the row of the wallet. -/
theorem returned_snapshot (hcache : w.cache = [])
    (hr : (server registry).recorded.Reaches Server.Any ⟨⟨w, []⟩, []⟩ s) (hcolon : ColonFree s) {i : ℕ}
    {userId currency : String} (hasked : Asked s.forget i (.getBalance userId currency)) {rep : Reply}
    (hrep : s.outcome i = some (.ok rep)) :
    ∃ a, rep = .wallet a ∧ Snapshot s.world userId currency a := by
  have hfree := hcolon i userId currency hasked
  obtain ⟨c, hc, hreq⟩ := hasked
  obtain ⟨c', hc', hresult⟩ := Option.bind_eq_some_iff.mp hrep
  obtain rfl := Option.some.inj (hc'.symm.trans hc)
  have hsound := Contract.sound_reaches cache_meets (Contract.sound_idle trivial) hr
  obtain ⟨_, _, hkept⟩ := (hsound.tracks i (List.getElem?_eq_some_iff.mp hc').1).outcome hc' hresult
  obtain ⟨a, rfl, hlooked⟩ := (hkept rep rfl).2 userId currency hreq
  refine ⟨a, rfl, ?_⟩
  rcases hlooked with hhit | hread
  · -- it was in the cache when the call looked there
    obtain ⟨s₀, hr₀, -, ω, s₁, hstep, hperform, hr₁⟩ := hr.performed rfl hc' hhit
    have hlater := (Server.reaches_of_step hstep).trans hr₁
    have hentry := cacheGet_hit (i := i) (Server.recorded_perform.mp hperform).1
    have hits := cache_unmixed hcache hr₀ (hcolon.earlier hlater) _ hentry
    exact (hits.snapshot hfree).mono hlater.worlds_prefix
  · -- it was in the store
    obtain ⟨s₀, hr₀, -, ω, s₁, hstep, hperform, hr₁⟩ := hr.performed rfl hc' hread
    have hlater := (Server.reaches_of_step hstep).trans hr₁
    have hfind := (read_ok (Server.recorded_perform.mp hperform).1).2
    exact Snapshot.mono ⟨_, s₀.world.world_mem_worlds, hfind.symm⟩ hlater.worlds_prefix

/-- Calls of any users, interleaved: every wallet that `getBalance` returns is a row that the wallet of
    this user and this currency had before, and so is every entry of the cache for the wallet whose key
    it is stored under. -/
theorem cache_never_mixes (registry : PaymentGatewayRegistry) (w : World) (s : RecordedState)
    (hcache : w.cache = []) (hr : (server registry).recorded.Reaches Server.Any ⟨⟨w, []⟩, []⟩ s)
    (hcolon : ColonFree s) :
    (∀ i userId currency rep, Asked s.forget i (.getBalance userId currency) →
      s.outcome i = some (.ok rep) → ∃ a, rep = .wallet a ∧ Snapshot s.world userId currency a) ∧
    ∀ key a, (key, a) ∈ s.world.world.cache → OfItsWallet s.world (key, a) ∧
      ∀ userId currency, ':' ∉ userId.toList → key = balanceCacheKey userId currency →
        Snapshot s.world userId currency a := by
  constructor
  · intro i userId currency rep hasked hrep
    exact returned_snapshot hcache hr hcolon hasked hrep
  · intro key a hentry
    have hits := cache_unmixed hcache hr hcolon (key, a) hentry
    refine ⟨hits, ?_⟩
    rintro userId currency hfree rfl
    exact hits.snapshot hfree

/-- The user and the currency whose balance the request asks for. -/
def Request.balanceOf? : Request → Option (String × String)
  | .getBalance userId currency => some (userId, currency)
  | _ => none

theorem colonFree_of_users (h : ∀ p ∈ s.calls.filterMap (·.request.balanceOf?), ':' ∉ p.1.toList) :
    ColonFree s := by
  rintro i userId currency ⟨c, hc, hreq⟩
  refine h (userId, currency) (List.mem_filterMap.mpr ⟨c, List.mem_of_getElem? hc, ?_⟩)
  rw [hreq]
  rfl

theorem asked_of_balanceOf {i : ℕ} {userId currency : String}
    (h : s.calls[i]?.bind (·.request.balanceOf?) = some (userId, currency)) :
    Asked s.forget i (.getBalance userId currency) := by
  obtain ⟨c, hc, hreq⟩ := Option.bind_eq_some_iff.mp h
  refine ⟨c, hc, ?_⟩
  cases hrequest : c.request with
  | getBalance u cur =>
    rw [hrequest] at hreq
    cases hreq
    rfl
  | _ =>
    rw [hrequest] at hreq
    cases hreq

end Runs

/-- Ada's wallet is read twice, the second time from the cache, and Bob asks for a currency with a colon. -/
def readTwice : List (Label Request Choice) :=
  openWallet 0 "u1" "Ada" "w1" ++
    [.start (.getBalance "u1" "EUR"), .step 1 {}, .step 1 {}, .step 1 {},
      .start (.getBalance "u1" "EUR"), .step 2 {},
      .start (.getBalance "u2" "u1:EUR"), .step 3 {}, .step 3 {}]

theorem cache_never_mixes_hit : ∃ s : RecordedState,
    (server cardPayments).recorded.Reaches Server.Any ⟨⟨World.fresh adaAndBob, []⟩, []⟩ s ∧
    s.outcome 2 = some (.ok (.wallet ⟨"w1", "u1", 0, "EUR", "ada-0000"⟩)) ∧
    Snapshot s.world "u1" "EUR" ⟨"w1", "u1", 0, "EUR", "ada-0000"⟩ := by
  have hrun : ((server cardPayments).recorded.run readTwice ⟨⟨World.fresh adaAndBob, []⟩, []⟩).map
      (fun s => (s.outcome 2, s.calls.filterMap (·.request.balanceOf?),
        s.world.world.cache)) =
      some (some (.ok (.wallet ⟨"w1", "u1", 0, "EUR", "ada-0000"⟩)), [("u1", "EUR"), ("u1", "EUR"), ("u2", "u1:EUR")],
        [("wallet:balance:u1:EUR", ⟨"w1", "u1", 0, "EUR", "ada-0000"⟩)]) := by
    decide +kernel
  obtain ⟨s, hs, hrun⟩ := Option.map_eq_some_iff.mp hrun
  obtain ⟨houtcome, husers, hcache⟩ := Prod.mk.inj hrun |>.imp_right Prod.mk.inj
  have hr := Server.reaches_of_run hs
  have hcolon : ColonFree s := colonFree_of_users (by rw [husers]; decide)
  refine ⟨s, hr, houtcome, ?_⟩
  have hentry := (cache_never_mixes cardPayments _ s rfl hr hcolon).2 "wallet:balance:u1:EUR"
    ⟨"w1", "u1", 0, "EUR", "ada-0000"⟩ (by rw [hcache]; exact List.mem_singleton_self _)
  exact hentry.2 "u1" "EUR" (by decide) (by decide)

end LiorParisWallet
