import LiorParisWallet.Shared.Constants

/-!
# Validated inputs

The bodies that the services receive.  The validation pipe rejects every body that does not satisfy the
decorators of its class, so a DTO carries what they say.
-/

namespace LiorParisWallet

structure CreateWalletDto where
  currency : SupportedCurrency

structure DepositDto where
  amount : ℤ
  amount_min : 1 ≤ amount
  currency : SupportedCurrency
  paymentMethod : String
  paymentMethod_notEmpty : paymentMethod ≠ ""
  idempotencyKey : String
  idempotencyKey_notEmpty : idempotencyKey ≠ ""

structure InitiateTransferDto where
  toWalletTag : String
  toWalletTag_notEmpty : toWalletTag ≠ ""
  amount : ℤ
  amount_min : 1 ≤ amount
  currency : SupportedCurrency
  idempotencyKey : String
  idempotencyKey_notEmpty : idempotencyKey ≠ ""

structure UserRegisteredPayload where
  userId : String
  email : String
  name : String

structure StripeWebhookEvent where
  id : String
  type : String
  /-- `data.object.id` -/
  objectId : String
  /-- `data.object.payment_status` -/
  paymentStatus : Option String

end LiorParisWallet
