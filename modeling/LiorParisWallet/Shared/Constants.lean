import Mathlib.Data.Int.Notation

/-!
# Constants, exceptions and payload records

The enumerations of `src/shared/constants` and `src/shared/events`, the exceptions that the services
throw, and the flat JSON records that travel from the outbox to the notifications.
-/

namespace LiorParisWallet

inductive UserRole where
  | admin
  | user
deriving DecidableEq, Repr

/-- The string that the enumeration stands for. -/
def UserRole.value : UserRole → String
  | .admin => "ADMIN"
  | .user => "USER"

inductive SupportedCurrency where
  | eur
  | usd
  | gbp
  | ngn
deriving DecidableEq, Repr

/-- The string that the enumeration stands for, which is what the columns hold. -/
def SupportedCurrency.value : SupportedCurrency → String
  | .eur => "EUR"
  | .usd => "USD"
  | .gbp => "GBP"
  | .ngn => "NGN"

def defaultCurrency : SupportedCurrency := .eur

inductive DomainEventName where
  | userRegistered
  | depositSucceeded
  | transferCompleted
  | transferSent
  | transferReceived
deriving DecidableEq, Repr

/-- The string that the enumeration stands for. -/
def DomainEventName.value : DomainEventName → String
  | .userRegistered => "UserRegistered"
  | .depositSucceeded => "DepositSucceeded"
  | .transferCompleted => "TransferCompleted"
  | .transferSent => "TransferSent"
  | .transferReceived => "TransferReceived"

/-- What a call can throw: the Nest exceptions with their messages, and what the database, the driver
    or another service reports. -/
inductive Err where
  | notFound (message : String)
  | badRequest (message : String)
  | conflict (message : String)
  | forbidden (message : String)
  /-- A unique index refused the row. -/
  | duplicateEntry
  /-- A foreign key refers to a row that is not there. -/
  | noReferencedRow
  /-- A property of `null` was read. -/
  | typeError
  /-- The operation did not get through. -/
  | unavailable
deriving DecidableEq, Repr

/-- The values that occur in the payload of a domain event. -/
inductive Value where
  | string (s : String)
  | number (n : ℤ)
deriving DecidableEq, Repr

abbrev Record := List (String × Value)

/-- A property that may be `undefined`; the JSON column does not keep it then. -/
def Record.optional (name : String) : Option String → Record
  | some s => [(name, .string s)]
  | none => []

end LiorParisWallet
