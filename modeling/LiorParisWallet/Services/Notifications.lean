import LiorParisWallet.Shared.FormatCurrency
import LiorParisWallet.Shared.WalletTag

/-!
# `NotificationsService`

A payload is a flat record, from which the fields are picked out by name.
-/

namespace LiorParisWallet

/-- `JSON.stringify` of a character in a string. -/
def escape (c : Char) : List Char :=
  let backslash := Char.ofNat 0x5c
  match c.toNat with
  | 0x22 => [backslash, c]
  | 0x5c => [backslash, c]
  | 0x08 => [backslash, 'b']
  | 0x09 => [backslash, 't']
  | 0x0a => [backslash, 'n']
  | 0x0c => [backslash, 'f']
  | 0x0d => [backslash, 'r']
  | n => if n < 0x20 then backslash :: 'u' :: '0' :: '0' :: byteHex n.toUInt8 else [c]

def quote (s : String) : String :=
  let mark := Char.ofNat 0x22
  String.ofList (mark :: s.toList.flatMap escape ++ [mark])

/-- `JSON.stringify` -/
def Value.stringify : Value → String
  | .string s => quote s
  | .number n => Numeric.numeral n

/-- `JSON.stringify` -/
def Record.stringify (r : Record) : String :=
  "\x7b" ++ String.intercalate "," (r.map fun x => quote x.1 ++ ":" ++ x.2.stringify) ++ "\x7d"

/-- The value of a field in a template string. -/
def template : Option Value → String
  | some (.string s) => s
  | some (.number n) => Numeric.numeral n
  | none => "undefined"

/-- The value of a field in a condition. -/
def truthy : Value → Bool
  | .string s => s ≠ ""
  | .number n => n ≠ 0

structure NotificationsService where
  fromEmail : String
  isConfigured : Bool

/-- What is given to `sgMail.send`: its `to`, `from`, `subject` and `text`. -/
structure Email where
  recipient : Value
  sender : String
  subject : String
  text : String
deriving DecidableEq, Repr

/-- What `send` does with a notification. -/
inductive Dispatch where
  | mailed (email : Email)
  | logged (line : String)
deriving DecidableEq, Repr

namespace NotificationsService

/-- The constructor, with the two settings that it reads. -/
def create (apiKey fromEmail : Option String) : NotificationsService :=
  { fromEmail := (fromEmail.filter (· ≠ "")).getD "noreply@yourapp.com"
    isConfigured := (apiKey.filter (· ≠ "")).isSome }

def getRecipientEmail (eventName : String) (payload : Record) : Option Value :=
  if eventName = DomainEventName.transferSent.value then payload.lookup "fromUserEmail"
  else if eventName = DomainEventName.transferReceived.value then payload.lookup "toUserEmail"
  else payload.lookup "userEmail"

def buildSubject (eventName : String) : String :=
  if eventName = DomainEventName.depositSucceeded.value then "Deposit Received"
  else if eventName = DomainEventName.transferSent.value then "Transfer Sent"
  else if eventName = DomainEventName.transferReceived.value then "Transfer Received"
  else "Notification: " ++ eventName

def buildMessage (eventName : String) (payload : Record) : Except Err String := do
  -- the amount is formatted before the name of the event is looked at
  let formattedAmount ← formatCurrency (payload.lookup "amount") (payload.lookup "currency")
  if eventName = DomainEventName.depositSucceeded.value then
    return "Your deposit of " ++ formattedAmount ++ " has been received."
  else if eventName = DomainEventName.transferSent.value then
    return "Your transfer of " ++ formattedAmount ++ " to " ++ template (payload.lookup "toUserName") ++
      " is complete."
  else if eventName = DomainEventName.transferReceived.value then
    return "You received " ++ formattedAmount ++ " from " ++ template (payload.lookup "fromUserName") ++ "."
  else return "Notification for " ++ eventName ++ ": " ++ payload.stringify

/-- What `send` does before it awaits the mail service. -/
def send (service : NotificationsService) (eventName : String) (payload : Record) : Except Err Dispatch := do
  let message ← buildMessage eventName payload
  let subject := buildSubject eventName
  let recipientEmail := getRecipientEmail eventName payload
  match service.isConfigured, recipientEmail.filter truthy with
  | true, some recipient =>
      return .mailed
        { recipient := recipient
          sender := service.fromEmail
          subject := subject
          text := message }
  | _, _ => return .logged ("[SIMULATED] " ++ message)

/-- A message is mailed if the mail service is configured and there is somebody to mail it to. -/
def dispatch (service : NotificationsService) (recipient subject text : String) : Dispatch :=
  if service.isConfigured ∧ recipient ≠ "" then
    .mailed
      { recipient := .string recipient
        sender := service.fromEmail
        subject := subject
        text := text }
  else .logged ("[SIMULATED] " ++ text)

/-- What `send` makes of a notification: it is for `recipient`, and `text` has the amount where it is put. -/
structure Message (eventName : String) (payload : Record) (recipient : String) (amount : ℤ) (currency : String)
    (text : String → String) : Prop where
  recipientEmail : getRecipientEmail eventName payload = some (.string recipient)
  payloadAmount : payload.lookup "amount" = some (.number amount)
  payloadCurrency : payload.lookup "currency" = some (.string currency)
  sent : ∃ formatted, formatCurrency (some (.number amount)) (some (.string currency)) = .ok formatted ∧
    ∀ service : NotificationsService, service.send eventName payload =
      .ok (service.dispatch recipient (buildSubject eventName) (text formatted))

variable {eventName recipient message currency : String} {payload : Record} {amount : ℤ} {text : String → String}

theorem send_spec (service : NotificationsService) (hmessage : buildMessage eventName payload = .ok message)
    (hrecipient : getRecipientEmail eventName payload = some (.string recipient)) :
    service.send eventName payload = .ok (service.dispatch recipient (buildSubject eventName) message) := by
  unfold send dispatch
  rw [hmessage, hrecipient]
  -- an empty address counts as missing
  by_cases hempty : recipient = "" <;> cases service.isConfigured <;>
    simp [hempty, Option.filter, truthy, pure, bind, Except.pure, Except.bind]

theorem message_of_text (hrecipient : getRecipientEmail eventName payload = some (.string recipient))
    (hamount : payload.lookup "amount" = some (.number amount))
    (hcurrency : payload.lookup "currency" = some (.string currency))
    (htext : ∀ formatted, formatCurrency (payload.lookup "amount") (payload.lookup "currency") = .ok formatted →
      buildMessage eventName payload = .ok (text formatted)) :
    Message eventName payload recipient amount currency text := by
  obtain ⟨formatted, hformatted⟩ := formatCurrency_string (some (.number amount)) currency
  refine ⟨hrecipient, hamount, hcurrency, formatted, hformatted, fun service => ?_⟩
  have hformat := (congrArg₂ formatCurrency hamount hcurrency).trans hformatted
  exact service.send_spec (htext formatted hformat) hrecipient

end NotificationsService

end LiorParisWallet
