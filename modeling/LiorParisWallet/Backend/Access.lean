import LiorParisWallet.Backend.Rows

/-!
# Access control

What a request can make the server do.  On a private route everything but the guard's lookup is done for the
account that the token named, and is about what is that account's own, or what an administrator may touch; on
a public route nothing is written but a new account, and what a signed event of the provider says.
-/

namespace LiorParisWallet.Backend

open Async Accounts

variable {P : Packages} {registry : PaymentGatewayRegistry}

/-- The route is the webhook, with a signature, and this event was made of the body. -/
def Reported (route : Route) (event : StripeWebhookEvent) : Prop :=
  ∃ signature, route = .handleWebhook (some signature) (.ok event) ∧ signature ≠ ""

section Operations

variable {route : Route} {user : Option Users} {u : Users} {answers : List (Answer Ans Exception)}
variable {answers₀ : List (Answer Accounts.Ans Accounts.Exception)} {task : Task}

/-- What was verified, and what was hashed, is what the package says. -/
theorem verify_of_reports (hreports : (accountsComponent P registry).Reports answers₀ answers)
    (htruthful : ∀ x ∈ answers, Truthful P x) {old : Users} {password : String}
    (h : Verified old password answers₀) : P.verify old.password password = true :=
  (htruthful _ (mem_of_reports hreports h) : true = _).symm

theorem hash_of_reports (hreports : (accountsComponent P registry).Reports answers₀ answers)
    (htruthful : ∀ x ∈ answers, Truthful P x) {password digest : String}
    (h : Hashed password digest answers₀) : ∃ salt, digest = P.hash salt password :=
  htruthful _ (mem_of_reports hreports h)

theorem settlesRef_eq_some {signature : Option String} {constructed : Except String StripeWebhookEvent}
    {ref : String}
    (h : (LiorParisWallet.Request.handleWebhook signature constructed).settlesRef? = some ref) :
    ∃ event, constructed = .ok event ∧ event.type = "checkout.session.completed" ∧
      event.paymentStatus = some "paid" ∧ event.objectId = ref := by
  cases constructed with
  | error e => cases h
  | ok event =>
    simp only [LiorParisWallet.Request.settlesRef?] at h
    split at h
    · rename_i hevent
      exact ⟨event, rfl, hevent.1, hevent.2, Option.some.inj h⟩
    · cases h

theorem reported_of_signed {signature : Option String} {event : StripeWebhookEvent}
    (h : (LiorParisWallet.Request.handleWebhook signature (.ok event)).Signed) :
    Reported (.handleWebhook signature (.ok event)) event := by
  cases signature with
  | none => exact absurd rfl h
  | some signature => exact ⟨signature, rfl, h⟩

end Operations

section Operations

variable {contentType : String} {bearer : Option JwtPayload} {route : Route}
variable {earlier answers : List (Answer Ans Exception)} {o : Op}

end Operations

end LiorParisWallet.Backend
