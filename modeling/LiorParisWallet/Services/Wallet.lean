import LiorParisWallet.Server.World
import LiorParisWallet.Services.Dto

/-!
# `WalletService`, the Stripe webhook and the payment gateways
-/

namespace LiorParisWallet

/-! ## `payment-gateway.registry.ts` -/

structure PaymentGateway where
  supportedMethods : List String
deriving Repr

/-- The entries of `methodToGateway`, the latest first. -/
abbrev PaymentGatewayRegistry := List (String × PaymentGateway)

namespace PaymentGatewayRegistry

def create (gateways : List PaymentGateway) : PaymentGatewayRegistry :=
  gateways.foldl (fun registry gateway =>
    gateway.supportedMethods.foldl (fun registry method => (method, gateway) :: registry) registry) []

def resolve (registry : PaymentGatewayRegistry) (paymentMethod : String) :
    Except Err PaymentGateway :=
  match registry.lookup paymentMethod with
  | some gateway => .ok gateway
  | none => .error (.badRequest ("Unsupported payment method: " ++ paymentMethod))

end PaymentGatewayRegistry

def stripePaymentGateway : PaymentGateway := ⟨["stripe"]⟩

/-! ## `wallet.repository.ts` -/

def ensureWallet (userId currency userName : String) : Promise Wallet := do
  let existing ← await (.findByUserIdAndCurrency userId currency)
  if let some wallet := existing then
    return wallet
  let bytes ← await .randomBytes
  await (.saveWallet
    { userId := userId
      balance := 0
      currency := currency
      walletTag := generateWalletTag userName bytes })

/-! ## `wallet.service.ts` -/

def createWallet (userId userName : String) (input : CreateWalletDto) : Promise Wallet := do
  let existing ← await (.findByUserIdAndCurrency userId input.currency.value)
  if existing.isSome then
    throw (.conflict ("Wallet already exists for currency " ++ input.currency.value))
  ensureWallet userId input.currency.value userName

def balanceCacheKey (userId currency : String) : String :=
  "wallet:balance:" ++ userId ++ ":" ++ currency

def getBalance (userId currency : String) : Promise Wallet := do
  let cacheKey := balanceCacheKey userId currency
  let cached ← await (.cacheGet cacheKey)
  if let some wallet := cached then
    return wallet
  let wallet ← await (.findByUserIdAndCurrency userId currency)
  let some wallet := wallet
    | throw (.notFound "Wallet not found")
  await (.cacheSet cacheKey wallet)
  return wallet

structure DepositResult where
  checkoutUrl : Option String := none
deriving DecidableEq, Repr

/-- `if (gatewayResult.providerRef)`: an empty string counts as missing. -/
def PaymentGatewayResult.storedRef (r : PaymentGatewayResult) : Option String :=
  r.providerRef.filter (· ≠ "")

/-- What `deposit` does once the gateway has answered. -/
def afterGateway (transaction : Transaction) (gatewayResult : PaymentGatewayResult) :
    Promise DepositResult := do
  if !gatewayResult.success then
    await (.failTransaction transaction
      (gatewayResult.failureReason.getD "Payment provider declined"))
    throw (.badRequest "Deposit declined by payment provider")
  if let some providerRef := gatewayResult.storedRef then
    await (.updateTransactionProviderRef transaction.id providerRef)
  if gatewayResult.requiresWebhook then
    return { checkoutUrl := gatewayResult.checkoutUrl }
  throw (.badRequest "No settlement path available for gateway")

def deposit (registry : PaymentGatewayRegistry) (userId : String) (input : DepositDto) :
    Promise DepositResult := do
  let existing ← await (.findTransactionByIdempotencyKey input.idempotencyKey)
  -- a duplicate is answered like a success, whoever made the deposit and whatever became of it
  if existing.isSome then
    return {}
  let wallet ← await (.findByUserIdAndCurrency userId input.currency.value)
  if wallet.isNone then
    throw (.notFound "Wallet not found")
  let transaction ← await (.createTransaction
    { userId := userId
      type := .deposit
      amount := input.amount
      currency := input.currency.value
      paymentMethod := input.paymentMethod
      idempotencyKey := input.idempotencyKey })
  -- the row stays `PENDING` when no gateway takes the payment method
  let _gateway ← .ofExcept (registry.resolve input.paymentMethod)
  let gatewayResult ← await (.processDeposit input.amount input.currency.value input.paymentMethod
    transaction.id userId)
  afterGateway transaction gatewayResult

def invalidateBalanceCache (userId currency : String) : Promise Unit :=
  await (.cacheDel (balanceCacheKey userId currency))

def getUserEmail (userId : String) : Promise (Option String) := do
  let user ← await (.findUserById userId)
  return user.map (·.email)

def buildOutboxPayload (eventName : DomainEventName) (walletId userId : String) (amount : ℤ)
    (currency : String) (userEmail : Option String) (now : ℕ) : OutboxData :=
  { eventName := eventName
    aggregateId := walletId
    payloadJson :=
      [("userId", .string userId), ("walletId", .string walletId), ("amount", .number amount),
        ("currency", .string currency)] ++ Record.optional "userEmail" userEmail
    occurredAt := now }

/-- The part of `settleByProviderRef` that follows the checks. -/
def settlePending (transaction : Transaction) (wallet : Wallet) : Promise Unit := do
  let userEmail ← getUserEmail transaction.userId
  let now ← await .newDate
  let _entry ← await (.settleTransaction wallet.id transaction .deposit transaction.amount
    (buildOutboxPayload .depositSucceeded wallet.id transaction.userId transaction.amount
      transaction.currency userEmail now))
  invalidateBalanceCache transaction.userId transaction.currency

def settleByProviderRef (providerRef : String) : Promise Unit := do
  let transaction ← await (.findTransactionByProviderRef providerRef)
  let some transaction := transaction
    | return
  if transaction.status ≠ .pending then
    return
  let wallet ← await (.findByUserIdAndCurrency transaction.userId transaction.currency)
  -- the payment is acknowledged, although there is no wallet to credit
  let some wallet := wallet
    | return
  settlePending transaction wallet

def failByProviderRef (providerRef reason : String) : Promise Unit := do
  let transaction ← await (.findTransactionByProviderRef providerRef)
  let some transaction := transaction
    | return
  if transaction.status ≠ .pending then
    return
  await (.failTransaction transaction reason)

/-! ## `stripe-webhook.controller.ts` -/

/-- `constructed` is what `stripe.webhooks.constructEvent` makes of the body: the event, or the
    complaint about its signature.  Returning stands for the answer `{ received: true }`. -/
def handleWebhook (signature : Option String) (constructed : Except String StripeWebhookEvent) :
    Promise Unit := do
  if (signature.getD "").isEmpty then
    throw (.badRequest "Missing stripe-signature header")
  match constructed with
  | .error _ => throw (.badRequest "Invalid webhook signature")
  | .ok event =>
    if event.type = "checkout.session.completed" then
      if event.paymentStatus = some "paid" then
        settleByProviderRef event.objectId
    else if event.type = "checkout.session.expired" then
      failByProviderRef event.objectId "Checkout session expired"

end LiorParisWallet
