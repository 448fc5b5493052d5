import LiorParisWallet.Services.Wallet

/-!
# `TransfersService`
-/

namespace LiorParisWallet

def getUserName (userId : String) : Promise (Option String) := do
  let user ← await (.findUserById userId)
  return user.map (·.name)

/-- The `outboxPayload` of `initiateTransfer`. -/
def transferOutboxPayload (transferId fromUserId toUserId : String) (amount : ℤ)
    (currency fromUserEmail : String) (fromUserName : Option String) (toUser : Option Users)
    (now : ℕ) : OutboxData :=
  { eventName := .transferCompleted
    aggregateId := transferId
    payloadJson :=
      [("transferId", .string transferId), ("fromUserId", .string fromUserId),
        ("toUserId", .string toUserId), ("amount", .number amount),
        ("currency", .string currency), ("fromUserEmail", .string fromUserEmail),
        ("fromUserName", .string (fromUserName.getD "Unknown"))] ++
      Record.optional "toUserEmail" (toUser.map (·.email)) ++
      [("toUserName", .string ((toUser.map (·.name)).getD "Unknown"))]
    occurredAt := now }

/-- The part of `initiateTransfer` that follows the checks. -/
def moveMoney (fromUserId fromUserEmail : String) (input : InitiateTransferDto)
    (fromWallet toWallet : Wallet) : Promise Unit := do
  let (fromUserName, toUser) ← .both (getUserName fromUserId) (await (.findUserById toWallet.userId))
  -- this row outlives a transfer that is rolled back below
  let transfer ← await (.createTransfer
    { fromUserId := fromUserId
      toUserId := toWallet.userId
      amount := input.amount
      currency := input.currency.value
      idempotencyKey := input.idempotencyKey })
  let now ← await .newDate
  await (.executeTransfer transfer fromWallet.id toWallet.id
    (transferOutboxPayload transfer.id fromUserId toWallet.userId input.amount input.currency.value
      fromUserEmail fromUserName toUser now))
  let _ ← .both (invalidateBalanceCache fromUserId input.currency.value)
    (invalidateBalanceCache toWallet.userId input.currency.value)

def initiateTransfer (fromUserId fromUserEmail : String) (input : InitiateTransferDto) :
    Promise Unit := do
  let toWallet ← await (.findByWalletTag input.toWalletTag)
  let some toWallet := toWallet
    | throw (.notFound "Recipient wallet not found")
  if toWallet.currency ≠ input.currency.value then
    throw (.badRequest "Recipient wallet currency does not match transfer currency")
  if fromUserId = toWallet.userId then
    throw (.badRequest "Cannot transfer to yourself")
  let existing ← await (.findTransferByIdempotencyKey input.idempotencyKey)
  -- a duplicate is accepted, whoever the transfer is from and whether or not it has happened
  if existing.isSome then
    return
  let fromWallet ← await (.findByUserIdAndCurrency fromUserId input.currency.value)
  let some fromWallet := fromWallet
    | throw (.notFound "Sender wallet not found")
  moveMoney fromUserId fromUserEmail input fromWallet toWallet

end LiorParisWallet
