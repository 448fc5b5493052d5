import LiorParisWallet.Accounts.Missing
import LiorParisWallet.Backend.Custody

/-!
# Where a row is missing, an account was deleted

The server answers with an internal error where it reads a property of `null` or where a foreign key refers to
nothing.  It does so only for a row that it had read before, and such a row is missing only where an administrator
has deleted the account to which it belonged.
-/

namespace LiorParisWallet.Backend

open Async Relational Accounts

def Exception.missesRow : Exception → Bool
  | .accounts e => e.missesRow
  | .unsupportedMediaType _ => false

/-- The operation missed a row, or a row that had been read. -/
inductive Missed : Answer Ans Exception → List (Answer Ans Exception) → Prop where
  | failed {o : Op} {e : Exception} {answers : List (Answer Ans Exception)} : e.missesRow = true →
      Missed ⟨o, .error e⟩ answers
  | accounts {o : Accounts.Op} {e : Accounts.Exception} {answers : List (Answer Ans Exception)} :
      e.missesRow = true → Missed ⟨.accounts o, .ok (.error e)⟩ answers
  | money {o : LiorParisWallet.Op} {e : Err} {answers : List (Answer Ans Exception)} : e.missesRow = true →
      Missed ⟨.money o, .ok (.error e)⟩ answers
  | vanished {userId : String} {user : Users} {answers : List (Answer Ans Exception)} :
      ⟨.accounts (.findUserById userId), .ok (.ok (some user))⟩ ∈ answers →
        Missed ⟨.accounts (.findUserById userId), .ok (.ok none)⟩ answers
  | gone {email : String} {user : Users} {answers : List (Answer Ans Exception)} :
      ⟨.accounts (.findUserByEmail email), .ok (.ok (some user))⟩ ∈ answers →
        Missed ⟨.findUserByIdWithWallets user.id, .ok none⟩ answers

/-- The handler misses a row only where an operation has missed one. -/
def Misses {α : Type} (Q : α → List (Answer Ans Exception) → Prop) (p : Promise α)
    (answers : List (Answer Ans Exception)) : Prop :=
  p.Blames (·.missesRow = true) Missed Q answers

/-! ## Handlers -/

section Handlers

variable {P : Packages} {registry : PaymentGatewayRegistry} {α β : Type}
variable {Q : β → List (Answer Ans Exception) → Prop} {answers : List (Answer Ans Exception)}

theorem misses_throw {e : Exception} (he : e.missesRow = false) : Misses Q (throw e) answers := by
  intro h
  rw [he] at h
  cases h

theorem misses_await {o : Op} {f : Ans o → Promise β} (hf : ∀ a, Misses Q (f a) (⟨o, .ok a⟩ :: answers)) :
    Misses Q (await o >>= f) answers :=
  Program.blames_await (fun _ he => .failed he) hf

/-- The rest of a handler after a pipe has let the request through. -/
theorem misses_checked {x : Except Accounts.Exception α} {f : α → Promise β}
    (hx : ∀ e, x = .error e → e.missesRow = false) (hf : ∀ a, Misses Q (f a) answers) :
    Misses Q (checked x >>= f) answers := by
  cases x with
  | ok a => exact hf a
  | error e => exact misses_throw (hx e rfl)

theorem misses_ofExcept {x : Except Exception α} {f : α → Promise β}
    (hx : ∀ e, x = .error e → e.missesRow = false) (hf : ∀ a, Misses Q (f a) answers) :
    Misses Q (.ofExcept x >>= f) answers := by
  cases x with
  | ok a => exact hf a
  | error e => exact misses_throw (hx e rfl)

theorem misses_reqUser {user : Option Users} {f : Users → Promise β} (huser : user ≠ none)
    (hf : ∀ u, user = some u → Misses Q (f u) answers) : Misses Q (reqUser user >>= f) answers := by
  cases user with
  | some u => exact hf u rfl
  | none => exact absurd rfl huser

/-- What a handler makes of the answer of its service. -/
theorem misses_reply {p : Promise α} {f : α → β} {R : α → List (Answer Ans Exception) → Prop}
    (hp : Misses R p answers) : Misses (fun _ _ => True) (do return f (← p)) answers :=
  Program.Blames.bind hp fun _ _ _ => trivial

/-- A service of the accounts, called by a handler. -/
theorem misses_accounts {p : Accounts.Promise α} {R : α → List (Answer Accounts.Ans Accounts.Exception) → Prop}
    (hp : Accounts.Misses R p []) : Misses (fun a answers' => ∃ answers₀ : List (Answer Accounts.Ans _),
      (∀ x ∈ answers₀, ⟨.accounts x.1, .ok x.2⟩ ∈ answers') ∧ R a answers₀) (accounts p) answers := by
  refine Program.Blames.mono (Component.blames_embed (K := accountsComponent plainPackages []) (fun _ he => he)
    (fun _ _ _ he => .failed he) ?_ hp Component.reports_nil (fun _ hx => hx) False.elim) ?_
  · intro o a answers₀ answers' hreports hmissed
    cases hmissed with
    | failed he => exact .accounts he
    | vanished hfound => exact .vanished (mem_of_reports hreports hfound)
  · rintro a answers' ⟨-, answers₀, hreports, hR⟩
    exact ⟨answers₀, fun x hx => mem_of_reports hreports hx, hR⟩

/-- A service of the money, called by a handler. -/
theorem misses_money {p : LiorParisWallet.Promise α} (hp : Relays p) :
    Misses (fun _ _ => True) (money p) answers := by
  refine Program.Blames.mono (Component.blames_embed (K := moneyComponent plainPackages []) (fun _ he => he)
    (fun _ _ _ he => .failed he) ?_ (hp []) Component.reports_nil (fun _ hx => hx) False.elim) fun _ _ _ => trivial
  intro o a answers₀ answers' hreports hmissed
  obtain ⟨e, ha, he⟩ := hmissed
  obtain rfl : a = .error e := ha
  exact .money he

/-! ### Pipes and guards -/

theorem missesRow_of_transform {dto : Dto} {body : Json} {e : Accounts.Exception}
    (h : JsonApiValidationPipe.transform P dto body = .error e) : e.missesRow = false := by
  unfold JsonApiValidationPipe.transform at h
  dsimp only at h
  split at h
  · cases h
  · cases h
    rfl

theorem missesRow_of_zod {type : Paramtype} {schema : Zod.Schema α} {body : Json} {e : Accounts.Exception}
    (h : ZodValidationPipe.transform type (some schema) body = .error e) : e.missesRow = false := by
  unfold ZodValidationPipe.transform at h
  dsimp only at h
  split at h
  · cases h
    rfl
  · cases h

theorem missesRow_of_parseBody {dto : Dto} {schema : Zod.Schema α} {body : Json} {e : Accounts.Exception}
    (h : parseBody P dto schema body = .error e) : e.missesRow = false := by
  unfold parseBody at h
  cases htransform : JsonApiValidationPipe.transform P dto body with
  | error e' =>
    rw [htransform] at h
    cases h
    exact missesRow_of_transform htransform
  | ok entity =>
    rw [htransform] at h
    exact missesRow_of_zod h

/-- The handler is not given anything but an instance of its class. -/
theorem missesRow_of_parseDto {dto : Dto} {input : Json → Option α} {body : Json} {e : Accounts.Exception}
    (hform : ∀ entity, dto.errors entity = [] → ∃ a, input entity = some a)
    (h : parseDto P dto input body = .error e) : e.missesRow = false := by
  unfold parseDto at h
  cases htransform : JsonApiValidationPipe.transform P dto body with
  | error e' =>
    rw [htransform] at h
    cases h
    exact missesRow_of_transform htransform
  | ok entity =>
    have herrors : dto.errors entity = [] := by
      unfold JsonApiValidationPipe.transform at htransform
      dsimp only at htransform
      split at htransform
      · rename_i hnone
        cases htransform
        exact hnone
      · cases htransform
    obtain ⟨a, ha⟩ := hform entity herrors
    rw [htransform] at h
    simp only [bind, Except.bind, ha] at h
    cases h

/-! ### Requests -/

/-- `req.user` is what the guard has found, and on a private route it is set. -/
structure Guarded (route : Route) (user : Option Users) (answers : List (Answer Ans Exception)) : Prop where
  found : ∀ u, user = some u → ∃ email, ⟨.accounts (.findUserByEmail email), .ok (.ok (some u))⟩ ∈ answers
  authenticated : route.isPublic = false → user ≠ none

theorem handle_misses {route : Route} {user : Option Users} (h : Guarded route user answers) :
    Misses (fun _ _ => True) (handle P registry user route) answers := by
  cases route with
  | getBaseRoute => trivial
  | register body =>
    refine misses_checked (fun _ => missesRow_of_parseBody) fun input => ?_
    exact misses_reply (misses_accounts (register_misses input))
  | login body =>
    refine misses_checked (fun _ => missesRow_of_parseBody) fun input => ?_
    exact misses_reply (misses_accounts (login_misses input))
  | changePassword body =>
    refine misses_checked (fun _ => missesRow_of_parseBody) fun input => ?_
    refine misses_reqUser (h.authenticated rfl) fun u _ => ?_
    exact misses_reply (misses_accounts (changePassword_misses u.id input))
  | userMe =>
    refine misses_reqUser (h.authenticated rfl) fun u hu => misses_await fun found => ?_
    cases found with
    | some found => trivial
    | none =>
      -- the guard has found the account, and now it is gone
      obtain ⟨email, hfound⟩ := h.found u hu
      exact fun _ => .inl (.gone hfound)
  | findAll page limit => exact misses_await fun result => trivial
  | findUserById id =>
    refine misses_checked (fun _ => missesRow_of_zod) fun id => misses_await fun found => ?_
    cases found with
    | some found => trivial
    | none => exact misses_throw rfl
  | updateUserDetails id body =>
    refine misses_checked (fun _ => missesRow_of_parseBody) fun data => ?_
    refine misses_checked (fun _ => missesRow_of_zod) fun id => ?_
    refine misses_reqUser (h.authenticated rfl) fun u _ => ?_
    exact misses_reply (misses_accounts (updateUserDetails_misses u.id id _ u.role))
  | deleteUser id =>
    refine misses_checked (fun _ => missesRow_of_zod) fun id => ?_
    refine misses_reqUser (h.authenticated rfl) fun u _ => ?_
    exact misses_reply (misses_accounts (deleteUser_misses u.id id u.role))
  | createWallet body =>
    refine misses_checked (fun _ => missesRow_of_parseDto fun _ => createWalletDto_form) fun input => ?_
    refine misses_reqUser (h.authenticated rfl) fun u _ => ?_
    exact misses_reply (misses_money (createWallet_relays u.id u.name input))
  | getBalance currency =>
    refine misses_reqUser (h.authenticated rfl) fun u _ => ?_
    exact misses_reply (misses_money (getBalance_relays u.id _))
  | deposit body =>
    refine misses_checked (fun _ => missesRow_of_parseDto fun _ => depositDto_form) fun input => ?_
    refine misses_reqUser (h.authenticated rfl) fun u _ => ?_
    exact misses_reply (misses_money (deposit_relays registry u.id input))
  | handleWebhook signature constructed =>
    exact misses_reply (misses_money (handleWebhook_relays signature constructed))
  | initiateTransfer body =>
    refine misses_checked (fun _ => missesRow_of_parseDto fun _ => initiateTransferDto_form) fun input => ?_
    refine misses_reqUser (h.authenticated rfl) fun u _ => ?_
    exact misses_reply (misses_money (initiateTransfer_relays u.id u.email input))

theorem serve_misses (req : Request) : Misses (fun _ _ => True) (serve P registry req) [] := by
  cases req with
  | userRegistered payload => exact misses_reply (misses_money (ensureWallet_relays _ _ _))
  | http contentType bearer route =>
    have hguard : Misses (fun user answers => Guarded route user answers) (JwtAuthGuard.canActivate route bearer)
        [] := by
      unfold JwtAuthGuard.canActivate
      split
      · rename_i hpublic
        exact ⟨fun _ => nofun, fun hprivate => by rw [hpublic] at hprivate; cases hprivate⟩
      · refine Program.Blames.bind (misses_accounts (canActivate_misses bearer)) fun user answers hfound => ?_
        obtain ⟨answers₀, hreports, email, hfound⟩ := hfound
        refine ⟨fun u hu => ?_, fun _ => nofun⟩
        cases hu
        exact ⟨email, hreports _ hfound⟩
    refine Program.Blames.bind hguard fun user answers h => misses_ofExcept ?_ fun _ => misses_ofExcept ?_ fun _ =>
      handle_misses h
    · unfold RoleGuard.canActivate
      split
      · exact fun _ => nofun
      · dsimp only
        split <;> rintro e ⟨⟩
        rfl
    · unfold JsonApiContentTypeInterceptor.intercept
      split <;> rintro e ⟨⟩
      rfl

end Handlers

end LiorParisWallet.Backend
