import LiorParisWallet.Backend.Custody
import LiorParisWallet.Cache.Snapshots

/-!
# What the answers show

Nobody is shown an account that is not theirs, unless they are an administrator: neither a row of the users nor a
wallet, be it read from the database or from the cache.  What is shown was stored.  And whoever is given a token by
signing in has sent a password that was set for the account.
-/

namespace LiorParisWallet.Backend

open Async Relational Accounts

variable {P : Packages} {registry : PaymentGatewayRegistry} {w : World} {s s' : State}

/-! ## The cache -/

/-- The wallet stands under a key of its owner, and a call has read it in the database. -/
structure Filed (s : State) (key : String) (wallet : Wallet) : Prop where
  key : ∃ currency, key = balanceCacheKey wallet.userId currency
  known : ∃ email, s.world.accounts.Known wallet.userId email
  read : ∃ c ∈ s.calls, ∃ userId currency,
    ⟨.money (.findByUserIdAndCurrency userId currency), .ok (.ok (some wallet))⟩ ∈ c.answers

/-- The cache has every wallet under a key of its owner, and so has every call that has read it. -/
structure Cached (s : State) : Prop where
  stored : ∀ p ∈ s.world.money.cache, Filed s p.1 p.2
  read : ∀ c ∈ s.calls, ∀ key wallet,
    ⟨.money (.cacheGet key), .ok (.ok (some wallet))⟩ ∈ c.answers → Filed s key wallet

theorem Filed.mono {key : String} {wallet : Wallet} (h : Filed s key wallet) (hf : Follows s s') :
    Filed s' key wallet where
  key := h.key
  known := h.known.imp fun email => hf.known _ email
  read := by
    obtain ⟨c, hc, userId, currency, hfound⟩ := h.read
    obtain ⟨c', hc', -, hanswers⟩ := hf.calls c hc
    exact ⟨c', hc', userId, currency, hanswers hfound⟩

section Steps

variable {i : ℕ} {c c' : Call Op Ans Exception Request Reply} {o : Op} {r : Except Exception (Ans o)}

theorem Cached.arrives {req : Request} (h : Cached s) (hf : Follows s s') (harrives : Arrives s req c s') :
    Cached s' where
  stored p hp := by
    rw [harrives.world] at hp
    exact (h.stored p hp).mono hf
  read d hd key wallet hmem := by
    rw [harrives.calls, List.mem_append, List.mem_singleton] at hd
    rcases hd with hd | rfl
    · exact (h.read d hd key wallet hmem).mono hf
    · rw [harrives.answers] at hmem
      cases hmem

/-- What a call files it has read for the account of its token. -/
theorem filed_of_permits (hdocumented : Documented P s) (hc : c ∈ s.calls) {key : String} {wallet : Wallet}
    (hpermits : Permits P registry c.request c.answers (.money (.cacheSet key wallet))) :
    Filed s key wallet := by
  rcases ordered_of_permits hdocumented hc hpermits with ⟨payload, answers₀, -, ⟨_, _, heq, -⟩⟩ |
    ⟨contentType, bearer, route, user, req, answers₀, -, hsends, horders, hreports,
      ⟨userId, currency, rfl, rfl, howner, hfound⟩⟩
  · cases heq
  · cases horders with
    | @getBalance currency user =>
      obtain ⟨-, -, token, -, hknown⟩ := hsends _ rfl
      rw [← howner] at hknown
      exact ⟨⟨toUpperCase currency, by rw [howner]⟩, ⟨token.email, hknown⟩,
        ⟨c, hc, _, _, mem_of_reports_money hreports hfound⟩⟩

theorem Cached.performs (h : Cached s) (hdocumented : Documented P s) (hf : Follows s s')
    (hperformed : Performed P registry s i c o r s'.world) (hcontinues : Continues s c ⟨o, r⟩ c' s') :
    Cached s' where
  stored p hp := by
    have hold : p ∈ s.world.money.cache → Filed s' p.1 p.2 := fun hp => (h.stored p hp).mono hf
    obtain ⟨ω, hperform⟩ := hperformed.perform
    cases o with
    | accounts o =>
      obtain ⟨x, -, heq⟩ := Option.map_eq_some_iff.mp hperform
      have hworld : s.world.putAccounts x.2 = s'.world := congrArg Prod.snd heq
      exact hold (by rwa [← hworld] at hp)
    | money o =>
      obtain ⟨⟨a, m⟩, hm, heq⟩ := Option.map_eq_some_iff.mp hperform
      have hworld : s.world.putMoney m = s'.world := congrArg Prod.snd heq
      rw [← hworld] at hp
      rcases cache_of_perform hm hp with rfl | ⟨hp, -⟩
      · exact (filed_of_permits hdocumented hperformed.call hperformed.permits).mono hf
      · exact hold hp
    | findUserByIdWithWallets userId => exact hold ((World.query_eq_some hperform).1 ▸ hp)
    | findAll query => exact hold ((World.query_eq_some hperform).1 ▸ hp)
  read d hd key wallet hmem := by
    rcases hcontinues.others d hd with hd | rfl
    · exact (h.read d hd key wallet hmem).mono hf
    · rw [hcontinues.answers] at hmem
      rcases List.mem_cons.mp hmem with heq | hmem
      · obtain ⟨ω, hperform⟩ := hperformed.perform
        cases heq
        obtain ⟨⟨a, m⟩, hm, heq⟩ := Option.map_eq_some_iff.mp hperform
        obtain rfl : a = .ok (some wallet) := Except.ok.inj (congrArg Prod.fst heq)
        exact (h.stored _ (cacheGet_hit hm)).mono hf
      · exact (h.read c hperformed.call key wallet hmem).mono hf

end Steps

theorem cached_of_reaches (hinitial : w.Initial P) (hcache : w.money.cache = [])
    (h : (server P registry).Reaches Wired ⟨w, []⟩ s) : Cached s := by
  refine run_induction hinitial ⟨fun p hp => ?_, fun c hc => ?_⟩
    (fun _ hcached hf harrives => hcached.arrives hf harrives)
    (fun hr hcached hf hperformed hcontinues =>
      hcached.performs (documented_of_reaches hinitial hr) hf hperformed hcontinues) h
  · have hp : p ∈ w.money.cache := hp
    rw [hcache] at hp
    cases hp
  · cases hc

/-! ## The answers -/

section Answers

variable {c : Call Op Ans Exception Request Reply} {contentType : String} {bearer : Option JwtPayload}
variable {route : Route} {reply : Reply} {answers : List (Answer Ans Exception)}

/-- What an answer shows was stored, and it is the asker's own where it has to be. -/
def stored (P : Packages) (registry : PaymentGatewayRegistry) (w : World) (s : State) : Shown where
  user := UserStored P registry w s
  own user id := id = user.id
  wallet user wallet := WalletStored P registry w s wallet ∧ wallet.userId = user.id
  page query result := ∃ s₀, Passes P registry w s s₀ ∧ result = s₀.world.accounts.findAll query

theorem Replies.mono {K K' : Shown} (h : Replies P contentType bearer K answers route reply)
    (huser : ∀ u, K.user u → K'.user u) (hown : ∀ user id, K.own user id → K'.own user id)
    (hwallet : ∀ user wallet, K.wallet user wallet → K'.wallet user wallet)
    (hpage : ∀ query result, K.page query result → K'.page query result) :
    Replies P contentType bearer K' answers route reply := by
  cases h with
  | registered hinput hcreated hshown => exact .registered hinput hcreated (huser _ hshown)
  | signedIn hinput hfound hverified hshown => exact .signedIn hinput hfound hverified (huser _ hshown)
  | updated hadmitted hshown hid hallowed =>
    exact .updated hadmitted (huser _ hshown) hid (hallowed.imp_left (hown _ _))
  | me hadmitted hshown hself hwallets =>
    exact .me hadmitted (huser _ hshown) (hown _ _ hself) fun wallet hmem => hwallet _ _ (hwallets wallet hmem)
  | found hadmitted hrole hshown hid hwallets =>
    exact .found hadmitted hrole (huser _ hshown) hid fun wallet hmem => hwallet _ _ (hwallets wallet hmem)
  | page hadmitted hrole hshown => exact .page hadmitted hrole (hpage _ _ hshown)
  | opened hadmitted hshown => exact .opened hadmitted (hwallet _ _ hshown)
  | balance hadmitted hshown => exact .balance hadmitted (hwallet _ _ hshown)
  | deposited hadmitted hcheckout => exact .deposited hadmitted hcheckout
  | baseRoute => exact .baseRoute
  | passwordChanged => exact .passwordChanged
  | deleted => exact .deleted
  | received => exact .received
  | transferred => exact .transferred

/-- What a call has returned is what its answers say. -/
theorem replied_of_returned {allowed : State → Label Request Choice → Prop}
    (h : (server P registry).Reaches allowed ⟨w, []⟩ s) (hc : c ∈ s.calls) (hreturned : c.program = .ret reply) :
    Replied P c.request reply c.answers := by
  have hinformed := (permits_of_reaches h c hc).2
  rw [hreturned] at hinformed
  exact hinformed

/-- A wallet that a call has seen was stored, and it is one of the user's: a key of the cache has one owner, since an
    id has no colon. -/
theorem WalletSeen.stored {user : Users} {wallet : Wallet} (hseen : WalletSeen bearer c.answers user wallet)
    (hinitial : w.Initial P) (hcache : w.money.cache = []) (h : (server P registry).Reaches Wired ⟨w, []⟩ s)
    (hids : ∀ id email, s.world.accounts.Known id email → ':' ∉ id.toList) (hc : c ∈ s.calls)
    (hreq : c.request = .http contentType bearer route) :
    WalletStored P registry w s wallet ∧ wallet.userId = user.id := by
  cases hseen with
  | found howner hfound => exact ⟨walletStored_of_found h hc hfound, howner⟩
  | saved howner hsaved => exact ⟨walletStored_of_saved h hc hsaved, howner⟩
  | cached hidentified hcached =>
    have hfiled := (cached_of_reaches hinitial hcache h).read c hc _ _ hcached
    obtain ⟨currency, hkey⟩ := hfiled.key
    obtain ⟨email, hknown⟩ := hfiled.known
    obtain ⟨d, hd, userId, currency', hread⟩ := hfiled.read
    obtain ⟨-, -, token, -, hknown'⟩ := sends_of_identified (documented_of_reaches hinitial h) hc hreq hidentified
    refine ⟨walletStored_of_found h hd hread, ?_⟩
    exact (balanceCacheKey_inj (hids _ _ hknown') (hids _ _ hknown) hkey).1.symm
  | listed howner hlisted hmem =>
    obtain ⟨s₀, hpasses, -, hwallets⟩ := passes_of_listed h hc hlisted
    exact ⟨⟨s₀, hpasses, hwallets _ hmem⟩, howner⟩

theorem findAll_of_answered (h : (server P registry).Reaches Wired ⟨w, []⟩ s) (hc : c ∈ s.calls)
    {query : PaginationQueryDto} {result : PaginatedResultDto UserResource}
    (ha : ⟨.findAll query, .ok result⟩ ∈ c.answers) :
    ∃ s₀, Passes P registry w s s₀ ∧ result = s₀.world.accounts.findAll query := by
  obtain ⟨s₀, s₁, i, ω, hpasses, -, hperform⟩ := passes_of_answered h hc ha
  exact ⟨s₀, hpasses, (World.query_eq_some hperform).2 result rfl⟩

/-- No answer shows an account to anybody but its owner and the administrators, and what is shown was stored. -/
theorem replies_confined (hinitial : w.Initial P) (hcache : w.money.cache = [])
    (h : (server P registry).Reaches Wired ⟨w, []⟩ s)
    (hids : ∀ id email, s.world.accounts.Known id email → ':' ∉ id.toList) (hc : c ∈ s.calls)
    (hreq : c.request = .http contentType bearer route) (hreturned : c.program = .ret reply) :
    Replies P contentType bearer (stored P registry w s) c.answers route reply := by
  have hreplied := replied_of_returned h hc hreturned
  rw [hreq] at hreplied
  refine Replies.mono hreplied (fun u hseen => hseen.stored h hc) (fun user id ⟨hidentified, hid⟩ => ?_)
    (fun user wallet hseen => hseen.stored hinitial hcache h hids hc hreq) fun query result ha =>
      findAll_of_answered h hc ha
  exact hid.trans (hidentified.collate_id hinitial h hc)

/-- Whoever is answered by the login has sent the email of an account and a password that was set for it. -/
theorem sign_in_needs_password (hinitial : w.Initial P) (h : (server P registry).Reaches Wired ⟨w, []⟩ s)
    (hc : c ∈ s.calls) {body : Json} (hreq : c.request = .http contentType bearer (.login body))
    (hreturned : c.program = .ret reply) : ∃ input user,
      parseBody P (loginDto P) (loginSchema P) body = .ok input ∧ UserStored P registry w s user ∧
        ⟨.accounts (.findUserByEmail input.email), .ok (.ok (some user))⟩ ∈ c.answers ∧ user.email = input.email ∧
          PasswordSet P w s user.id user.password ∧ P.verify user.password input.password.value = true ∧
            reply = .data (resultResource (mapResult user (some ⟨user.id, user.email⟩))) := by
  have hreplied := replied_of_returned h hc hreturned
  rw [hreq] at hreplied
  cases hreplied with
  | @signedIn _ input user hinput hfound hverified hseen =>
    have htruthful : ∀ x ∈ c.answers, Truthful P x := fun x hx => ((permits_of_reaches h c hc).1.of_mem hx).1
    have hread : Read c.answers user := .inl ⟨_, hfound⟩
    have hset := ((custody_of_reaches hinitial h).read c hc user hread).password
    exact ⟨input, user, hinput, hseen.stored h hc, hfound, htruthful _ hfound, hset, (htruthful _ hverified).symm,
      rfl⟩

end Answers

/-! ## The day -/

theorem known_day {s : State} (h : (s.world.accounts.users.rows ++ s.world.accounts.deleted).map (·.id) =
    ["root", "ada", "bob"]) (id email : String) (hknown : s.world.accounts.Known id email) : ':' ∉ id.toList := by
  obtain ⟨u, hu, rfl, -⟩ := hknown
  have hid : u.id ∈ ["root", "ada", "bob"] := h ▸ List.mem_map_of_mem (List.mem_append.mpr hu)
  revert hid
  generalize u.id = id
  revert id
  simp

/-- Ada looks at her balance. -/
theorem replies_confined_day : ∃ s c contentType bearer reply, Reachable plainPackages cardPayments s ∧
    c ∈ s.calls ∧ c.request = .http contentType bearer (.getBalance "eur") ∧ c.program = .ret reply ∧
      Replies plainPackages contentType bearer (stored plainPackages cardPayments startWorld s) c.answers
        (.getBalance "eur") reply := by
  have hrun : ((server plainPackages cardPayments).runUnder Wired day ⟨startWorld, []⟩).map (fun s =>
      (decide ((s.world.accounts.users.rows ++ s.world.accounts.deleted).map (·.id) = ["root", "ada", "bob"]),
        s.calls[8]?.map fun c => match c.request, c.program with
          | .http _ _ (.getBalance currency), .ret _ => currency = "eur"
          | _, _ => false)) = some (true, some true) := by decide +kernel
  obtain ⟨s, hs, hfacts⟩ := Option.map_eq_some_iff.mp hrun
  obtain ⟨hids, hcall⟩ := Prod.mk.inj hfacts
  obtain ⟨c, hc, hshape⟩ := Option.map_eq_some_iff.mp hcall
  have h := Server.reaches_of_runUnder hs
  split at hshape
  · rename_i contentType bearer currency reply hreq hreturned
    obtain rfl : currency = "eur" := of_decide_eq_true hshape
    refine ⟨s, c, contentType, bearer, reply, ⟨_, startWorld_initial, h⟩, List.mem_of_getElem? hc, hreq, hreturned, ?_⟩
    exact replies_confined startWorld_initial rfl h
      (known_day (of_decide_eq_true hids)) (List.mem_of_getElem? hc) hreq hreturned
  · cases hshape

/-- Bob signs in with the password that he has just taken. -/
theorem sign_in_needs_password_day : ∃ s c contentType bearer body input, ∃ user : Users,
    Reachable plainPackages cardPayments s ∧ c ∈ s.calls ∧ c.request = .http contentType bearer (.login body) ∧
      c.program = .ret (.data (resultResource (mapResult user (some ⟨user.id, user.email⟩)))) ∧
        parseBody plainPackages (loginDto plainPackages) (loginSchema plainPackages) body = .ok input ∧
          UserStored plainPackages cardPayments startWorld s user ∧ user.email = input.email ∧
            PasswordSet plainPackages startWorld s user.id user.password ∧
              plainPackages.verify user.password input.password.value = true := by
  have hrun : ((server plainPackages cardPayments).runUnder Wired day ⟨startWorld, []⟩).map (fun s =>
      s.calls[7]?.map fun c => match c.request, c.program with
        | .http _ _ (.login _), .ret _ => true
        | _, _ => false) = some (some true) := by decide +kernel
  obtain ⟨s, hs, hfacts⟩ := Option.map_eq_some_iff.mp hrun
  obtain ⟨c, hc, hshape⟩ := Option.map_eq_some_iff.mp hfacts
  have h := Server.reaches_of_runUnder hs
  split at hshape
  · rename_i contentType bearer body reply hreq hreturned
    obtain ⟨input, user, hinput, hstored, -, hemail, hset, hverified, rfl⟩ :=
      sign_in_needs_password startWorld_initial h (List.mem_of_getElem? hc) hreq hreturned
    exact ⟨s, c, contentType, bearer, body, input, user, ⟨_, startWorld_initial, h⟩,
      List.mem_of_getElem? hc, hreq, hreturned, hinput, hstored, hemail, hset, hverified⟩
  · cases hshape

end LiorParisWallet.Backend
