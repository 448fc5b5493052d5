import LiorParisWallet.Accounts.Requests
import LiorParisWallet.Numeric.Literals
import LiorParisWallet.Services.Dto

/-!
# The bodies of the wallet and transfer routes

These bodies pass `JsonApiValidationPipe` only, with the decorators of their classes.  What is left of a body
that has passed is an instance of its class (`depositDto_form` and its siblings).
-/

namespace LiorParisWallet.Backend

open Accounts Accounts.Validator Numeric

/-- The currency with this value, if it is one of the enumeration. -/
def parseCurrency (s : String) : Option SupportedCurrency :=
  [SupportedCurrency.eur, .usd, .gbp, .ngn].find? (·.value == s)

namespace Validator

/-- `@IsEnum(SupportedCurrency)` -/
def isCurrency (property : String) : Constraint :=
  ⟨onString fun s => (parseCurrency s).isSome,
    property ++ " must be one of the following values: EUR, USD, GBP, NGN"⟩

/-- The decorators of numbers reject whatever is not a number. -/
def onNumber (f : String → Bool) : Option Json → Bool
  | some (.number literal) => f literal
  | _ => false

def isInt (property : String) : Constraint :=
  ⟨onNumber fun literal => (integer? literal).isSome, property ++ " must be an integer number"⟩

def min (property : String) (m : ℕ) : Constraint :=
  ⟨onNumber (atLeast m), property ++ " must not be less than " ++ toString m⟩

def isNotEmpty (property : String) : Constraint where
  accepts
    | some (.string s) => s ≠ ""
    | some .null | none => false
    | _ => true
  message := property ++ " should not be empty"

end Validator

open Backend.Validator

def amountProperty : Property where
  name := "amount"
  constraints := [min "amount" 1, isInt "amount"]

def currencyProperty : Property where
  name := "currency"
  constraints := [isCurrency "currency"]

def textProperty (name : String) : Property where
  name := name
  constraints := [isNotEmpty name, isString name]

def createWalletDto : Dto := [currencyProperty]

def depositDto : Dto :=
  [amountProperty, currencyProperty, textProperty "paymentMethod", textProperty "idempotencyKey"]

def initiateTransferDto : Dto :=
  [textProperty "toWalletTag", amountProperty, currencyProperty, textProperty "idempotencyKey"]

/-! ## Instances -/

def currencyOf (v : Option Json) : Option SupportedCurrency :=
  match v with
  | some (.string s) => parseCurrency s
  | _ => none

def amountOf (v : Option Json) : Option ℤ :=
  match v with
  | some (.number literal) => integer? literal
  | _ => none

def textOf (v : Option Json) : Option String :=
  match v with
  | some (.string s) => some s
  | _ => none

/-- The validated body as an instance of `CreateWalletDto`. -/
def createWalletInput (entity : Json) : Option CreateWalletDto := do
  return ⟨← currencyOf (entity.get "currency")⟩

def depositInput (entity : Json) : Option DepositDto := do
  let amount ← amountOf (entity.get "amount")
  let currency ← currencyOf (entity.get "currency")
  let paymentMethod ← textOf (entity.get "paymentMethod")
  let idempotencyKey ← textOf (entity.get "idempotencyKey")
  if h : 1 ≤ amount ∧ paymentMethod ≠ "" ∧ idempotencyKey ≠ "" then
    some ⟨amount, h.1, currency, paymentMethod, h.2.1, idempotencyKey, h.2.2⟩
  else none

def initiateTransferInput (entity : Json) : Option InitiateTransferDto := do
  let toWalletTag ← textOf (entity.get "toWalletTag")
  let amount ← amountOf (entity.get "amount")
  let currency ← currencyOf (entity.get "currency")
  let idempotencyKey ← textOf (entity.get "idempotencyKey")
  if h : toWalletTag ≠ "" ∧ 1 ≤ amount ∧ idempotencyKey ≠ "" then
    some ⟨toWalletTag, h.1, amount, h.2.1, currency, idempotencyKey, h.2.2⟩
  else none

/-- What the pipe makes of a body.  The handler takes what has passed for an instance of the class. -/
def parseDto {α : Type} (P : Packages) (dto : Dto) (input : Json → Option α) (body : Json) :
    Except Exception α := do
  match input (← JsonApiValidationPipe.transform P dto body) with
  | some a => .ok a
  | none => .error (.other .typeError)

/-! ## Validated bodies are instances -/

theorem le_of_atLeast {m : ℕ} {literal : String} {n : ℤ} (hmin : atLeast m literal = true)
    (hint : integer? literal = some n) : m ≤ n := by
  obtain ⟨hsign, hle⟩ := Bool.and_eq_true_iff.mp hmin
  rw [Bool.not_eq_true'] at hsign
  unfold integer? at hint
  dsimp only at hint
  split at hint
  · rw [hsign] at hint
    obtain rfl : _ = n := Option.some.inj hint
    show (m : ℤ) ≤ ((magnitude literal / unit : ℕ) : ℤ)
    rw [Int.ofNat_le, Nat.le_div_iff_mul_le unit_pos]
    exact of_decide_eq_true hle
  · cases hint

variable {entity : Json}

/-- Without messages, every constraint of every property accepts. -/
theorem accepts_of_errors {dto : Dto} (h : dto.errors entity = []) {p : Property} (hp : p ∈ dto)
    (hrequired : p.isOptional = false) : ∀ c ∈ p.constraints, c.accepts (entity.get p.name) = true := by
  intro c hc
  have hnone := List.flatMap_eq_nil_iff.mp h p hp
  rw [hrequired] at hnone
  have hfilter := List.filter_eq_nil_iff.mp (List.map_eq_nil_iff.mp hnone) c hc
  simpa using hfilter

theorem currencyProperty_form (h : ∀ c ∈ currencyProperty.constraints, c.accepts (entity.get "currency") = true) :
    ∃ currency, currencyOf (entity.get "currency") = some currency := by
  have hcurrency := h (isCurrency "currency") List.mem_cons_self
  unfold isCurrency onString at hcurrency
  dsimp only at hcurrency
  split at hcurrency
  · rename_i s heq
    rw [heq]
    exact Option.isSome_iff_exists.mp hcurrency
  · cases hcurrency

theorem amountProperty_form (h : ∀ c ∈ amountProperty.constraints, c.accepts (entity.get "amount") = true) :
    ∃ amount, amountOf (entity.get "amount") = some amount ∧ 1 ≤ amount := by
  have hmin := h (min "amount" 1) List.mem_cons_self
  have hint := h (isInt "amount") (List.mem_cons_of_mem _ List.mem_cons_self)
  unfold Validator.isInt Validator.min onNumber at *
  dsimp only at hint hmin
  split at hint
  · rename_i literal heq
    rw [heq] at hmin ⊢
    obtain ⟨amount, hamount⟩ := Option.isSome_iff_exists.mp hint
    exact ⟨amount, hamount, le_of_atLeast hmin hamount⟩
  · cases hint

theorem textProperty_form {name : String}
    (h : ∀ c ∈ (textProperty name).constraints, c.accepts (entity.get name) = true) :
    ∃ s, textOf (entity.get name) = some s ∧ s ≠ "" := by
  have hnotEmpty := h (isNotEmpty name) List.mem_cons_self
  have hstring := h (isString name) (List.mem_cons_of_mem _ List.mem_cons_self)
  unfold isString onString isNotEmpty at *
  dsimp only at hstring hnotEmpty
  split at hstring
  · rename_i s heq
    rw [heq] at hnotEmpty ⊢
    exact ⟨s, rfl, of_decide_eq_true hnotEmpty⟩
  · cases hstring

theorem createWalletDto_form (h : createWalletDto.errors entity = []) :
    ∃ input, createWalletInput entity = some input := by
  obtain ⟨currency, hcurrency⟩ :=
    currencyProperty_form (accepts_of_errors h (p := currencyProperty) (by simp [createWalletDto]) rfl)
  exact ⟨⟨currency⟩, by rw [createWalletInput, hcurrency]; rfl⟩

theorem depositDto_form (h : depositDto.errors entity = []) : ∃ input, depositInput entity = some input := by
  have hproperty : ∀ p ∈ depositDto, ∀ c ∈ p.constraints, c.accepts (entity.get p.name) = true := by
    intro p hp
    refine accepts_of_errors h hp ?_
    revert p
    simp [depositDto, amountProperty, currencyProperty, textProperty]
  obtain ⟨amount, hamount, hmin⟩ := amountProperty_form (hproperty _ (by simp [depositDto]))
  obtain ⟨currency, hcurrency⟩ := currencyProperty_form (hproperty _ (by simp [depositDto]))
  obtain ⟨method, hmethod, hmethodNe⟩ :=
    textProperty_form (hproperty (textProperty "paymentMethod") (by simp [depositDto]))
  obtain ⟨key, hkey, hkeyNe⟩ :=
    textProperty_form (hproperty (textProperty "idempotencyKey") (by simp [depositDto]))
  refine ⟨⟨amount, hmin, currency, method, hmethodNe, key, hkeyNe⟩, ?_⟩
  simp [depositInput, hamount, hcurrency, hmethod, hkey, hmin, hmethodNe, hkeyNe]

theorem initiateTransferDto_form (h : initiateTransferDto.errors entity = []) :
    ∃ input, initiateTransferInput entity = some input := by
  have hproperty : ∀ p ∈ initiateTransferDto, ∀ c ∈ p.constraints, c.accepts (entity.get p.name) = true := by
    intro p hp
    refine accepts_of_errors h hp ?_
    revert p
    simp [initiateTransferDto, amountProperty, currencyProperty, textProperty]
  obtain ⟨tag, htag, htagNe⟩ :=
    textProperty_form (hproperty (textProperty "toWalletTag") (by simp [initiateTransferDto]))
  obtain ⟨amount, hamount, hmin⟩ := amountProperty_form (hproperty _ (by simp [initiateTransferDto]))
  obtain ⟨currency, hcurrency⟩ := currencyProperty_form (hproperty _ (by simp [initiateTransferDto]))
  obtain ⟨key, hkey, hkeyNe⟩ :=
    textProperty_form (hproperty (textProperty "idempotencyKey") (by simp [initiateTransferDto]))
  refine ⟨⟨tag, htagNe, amount, hmin, currency, key, hkeyNe⟩, ?_⟩
  simp [initiateTransferInput, hamount, hcurrency, htag, hkey, hmin, htagNe, hkeyNe]

end LiorParisWallet.Backend
