import LiorParisWallet.Money.Alone
import LiorParisWallet.Money.Numbers

/-!
# Columns of a fixed width

A string column holds 255 characters if its entity says nothing else, and a statement that writes more is
refused.  `Columns.server` is `Numbers.server` with such columns.  For every other statement a text that is
too long is one more reason not to get through, so its runs are runs of `Numbers.server`.
-/

namespace LiorParisWallet

open Async Numeric

variable {registry : PaymentGatewayRegistry} {s : State} {i : ℕ} {w w' : World} {o : Op} {ω : Choice}
variable {allowed : State → Label Request Choice → Prop}

/-- The texts that an operation writes and that it was given from outside, each with the width of its
    column. -/
def Op.texts : Op → List (String × ℕ)
  | .saveWallet data => [(data.walletTag, 15)]
  | .createTransaction data => [(data.paymentMethod, 255), (data.idempotencyKey, 255)]
  | .updateTransactionProviderRef _ providerRef => [(providerRef, 255)]
  | .settleTransaction _ transaction _ _ _ => [(transaction.idempotencyKey, 255)]
  | .createTransfer data => [(data.idempotencyKey, 255)]
  | .executeTransfer transfer _ _ _ =>
      [(transfer.idempotencyKey ++ ":out", 255), (transfer.idempotencyKey ++ ":in", 255)]
  | .createUser data => [(data.name, 255), (data.email, 255), (data.password, 255)]
  | _ => []

def Op.Fits (o : Op) : Prop := ∀ text ∈ o.texts, text.1.length ≤ text.2

instance (o : Op) : Decidable o.Fits := inferInstanceAs (Decidable (∀ text ∈ o.texts, _))

namespace Columns

/-- A statement that would have got through is refused if a text is too long. -/
def check (o : Op) (w : World) : Except Err (Ans o) × World → Except Err (Ans o) × World
  | (.ok a, w') => if o.Fits then (.ok a, w') else (.error .unavailable, w)
  | (.error e, w') => (.error e, w')

def perform (i : ℕ) (o : Op) (ω : Choice) (w : World) : Option (Except Err (Ans o) × World) :=
  (Numbers.perform i o ω w).map (check o w)

def server (registry : PaymentGatewayRegistry) : Server Op Ans Err Request Reply Choice World where
  serve := serve registry
  perform := perform

def ReachableBy (registry : PaymentGatewayRegistry)
    (allowed : State → Label Request Choice → Prop) (s : State) : Prop :=
  ∃ w : World, w.Initial ∧ (server registry).Reaches allowed ⟨w, []⟩ s

theorem check_of_fits (h : o.Fits) (x : Except Err (Ans o) × World) : check o w x = x := by
  obtain ⟨_ | a, w'⟩ := x
  · rfl
  · simp only [check, h, if_true]

theorem perform_of_fits (h : o.Fits) : perform i o ω w = Numbers.perform i o ω w := by
  have hid : check o w = id := funext (check_of_fits h)
  rw [perform, hid, Option.map_id, id]

/-- An operation that writes no text. -/
theorem perform_of_no_text (h : o.texts = []) : perform i o ω w = Numbers.perform i o ω w :=
  perform_of_fits fun text htext => by simp [h] at htext

/-- The result of the body of a transaction, if its texts fit. -/
def checked {α : Type} (o : Op) (result : Except Err α) : Except Err α :=
  result >>= fun a => if o.Fits then .ok a else .error .unavailable

theorem checked_of_fits {α : Type} (h : o.Fits) (result : Except Err α) : checked o result = result := by
  cases result with
  | error e => rfl
  | ok a => simp only [checked, h, if_true]; rfl

theorem checked_ne_ok {α : Type} (h : ¬ o.Fits) (result : Except Err α) (a : α) :
    checked o result ≠ .ok a := by
  cases result with
  | error e => exact fun heq => by cases heq
  | ok b =>
    simp only [checked, h, if_false]
    exact fun heq => by cases heq

theorem ok_of_checked {α : Type} {result : Except Err α} {a : α} (h : checked o result = .ok a) :
    result = .ok a := by
  by_cases hfits : o.Fits
  · rwa [checked_of_fits hfits] at h
  · exact absurd h (checked_ne_ok hfits result a)

/-- A transaction is rolled back where a text does not fit. -/
theorem perform_insert {result : Choice → Except Err (Ans o × Store)}
    (hperform : ∀ ω, Numbers.perform i o ω w = w.insert i ω (result ω)) (ω : Choice) :
    perform i o ω w = w.insert i ω (checked o (result ω)) := by
  by_cases hfits : o.Fits
  · rw [perform_of_fits hfits, checked_of_fits hfits, hperform]
  · rw [perform, hperform]
    unfold World.insert
    split
    · rfl
    · cases ω.fault with
      | some e => rfl
      | none =>
        cases result ω with
        | error e => rfl
        | ok x =>
          simp only [Option.map_some, check, hfits, if_false, checked]
          rfl

/-- A transaction that might have been made might have failed. -/
theorem insert_of_fault {α : Type} {x : Except Err α × World} {result : Except Err (α × Store)}
    (h : w.insert i ω result = some x) :
    w.insert i { ω with fault := some .unavailable } result = some (.error .unavailable, w) := by
  unfold World.insert at h ⊢
  split at h
  · cases h
  · rename_i hfresh
    exact if_neg hfresh

/-- Where a text does not fit, the statement does not get through. -/
theorem simulates {r : Except Err (Ans o)} (h : perform i o ω w = some (r, w')) :
    ∃ fault, Numbers.perform i o { ω with fault := fault } w = some (r, w') := by
  obtain ⟨⟨r₀, w₀⟩, hnumbers, hcheck⟩ := Option.map_eq_some_iff.mp h
  by_cases hfits : o.Fits
  · rw [check_of_fits hfits] at hcheck
    exact ⟨ω.fault, hcheck ▸ hnumbers⟩
  · cases r₀ with
    | error e => exact ⟨ω.fault, hcheck ▸ hnumbers⟩
    | ok a =>
      simp only [check, hfits, if_false] at hcheck
      cases hcheck
      refine ⟨some .unavailable, ?_⟩
      cases o with
      | saveWallet data => exact insert_of_fault hnumbers
      | createTransaction data => exact insert_of_fault hnumbers
      | updateTransactionProviderRef id providerRef => rfl
      | settleTransaction walletId t type change data => exact insert_of_fault hnumbers
      | createTransfer data => exact insert_of_fault hnumbers
      | executeTransfer t fromWalletId toWalletId data => exact insert_of_fault hnumbers
      | createUser data => exact insert_of_fault hnumbers
      | _ => exact absurd (fun text htext => absurd htext List.not_mem_nil) hfits

/-- A run with columns of a fixed width is one without, if it does not matter why a statement failed. -/
theorem ReachableBy.numbers (hfault : ∀ s i ω fault, allowed s (.step i ω) →
      allowed s (.step i { ω with fault := fault })) (h : ReachableBy registry allowed s) :
    Numbers.ReachableBy registry allowed s := by
  obtain ⟨w, hw, hr⟩ := h
  refine ⟨w, hw, Server.Reaches.of_simulates
    (show (server registry).serve = (Numbers.server registry).serve from rfl) ?_ hr⟩
  intro s₁ i ω o r w' _ hallowed _ hperform
  obtain ⟨fault, hnumbers⟩ := simulates hperform
  exact ⟨_, hfault s₁ i ω fault hallowed, hnumbers⟩

end Columns

end LiorParisWallet
