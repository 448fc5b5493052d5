import Mathlib.Data.Nat.Notation
import LiorParisWallet.Shared.Constants

/-!
# From request bodies to inputs

A body passes two pipes on its way to a service: `JsonApiValidationPipe`, which applies the decorators of
the class of the parameter, and `ZodValidationPipe`, which parses what is left with the schema of the
route.  Each of them unwraps a JSON:API envelope of its own, so a body may carry two.  What
class-validator, class-transformer, zod and argon2 compute is a parameter of the model.
-/

namespace LiorParisWallet.Accounts

/-- A value that `JSON.parse` returns.  Of a number only the literal is kept. -/
inductive Json where
  | null
  | bool (b : Bool)
  | number (literal : String)
  | string (s : String)
  | array (elements : List Json)
  | object (properties : List (String × Json))

namespace Json

/-- `value && typeof value === 'object'` -/
def isObject : Json → Bool
  | .array _ | .object _ => true
  | _ => false

/-- `value[name]`, for a name that no prototype has; `none` is `undefined`. -/
def get : Json → String → Option Json
  | .object properties, name => properties.lookup name
  | _, _ => none

end Json

/-- `s.length`: a character outside the basic plane is two UTF-16 code units. -/
def jsLength (s : String) : ℕ :=
  s.toList.foldl (fun n c => n + if c.toNat < 0x10000 then 1 else 2) 0

/-- What is thrown to the client: `UnauthorizedException`, the `BadRequestException` of `ValidationPipe`
    with its messages, and the others. -/
inductive Exception where
  | unauthorized (message : String)
  | validation (messages : List String)
  | other (e : Err)
deriving DecidableEq, Repr

/-- The functions of the packages that the accounts rest on. -/
structure Packages where
  /-- `argon.hash(password)`, with the salt that it draws. -/
  hash : String → String → String
  /-- `argon.verify(digest, password)` -/
  verify : String → String → Bool
  /-- class-transformer's `plainToInstance`, after `stripProtoKeys`. -/
  plainToInstance : Json → Json
  isEmail : String → Bool
  isAlphanumeric : String → Bool
  /-- `isLength(value, min, max)` -/
  isLength : String → ℕ → ℕ → Bool
  /-- `z.string().email()` -/
  zodEmail : String → Bool
  /-- How the database spells an id: under the collation of `users.id` the spellings of one id are equal. -/
  collate : String → String

/-- The role with this value, if it is one of the enumeration. -/
def parseRole (s : String) : Option UserRole :=
  [UserRole.admin, .user].find? (·.value == s)

/-! ## `dto/*.input.ts` -/

namespace Validator

/-- A decorator of class-validator: what it accepts, and what it says of any other value. -/
structure Constraint where
  accepts : Option Json → Bool
  message : String

/-- The decorators reject whatever is not a string. -/
def onString (f : String → Bool) : Option Json → Bool
  | some (.string s) => f s
  | _ => false

def isString (property : String) : Constraint :=
  ⟨onString fun _ => true, property ++ " must be a string"⟩

def isEmail (P : Packages) (property : String) : Constraint :=
  ⟨onString P.isEmail, property ++ " must be an email"⟩

def isAlphanumeric (P : Packages) (property : String) : Constraint :=
  ⟨onString P.isAlphanumeric, property ++ " must contain only letters and numbers"⟩

def isEnum (property : String) : Constraint :=
  ⟨onString fun s => (parseRole s).isSome,
    property ++ " must be one of the following values: ADMIN, USER"⟩

def length (P : Packages) (min max : ℕ) (message : String) : Constraint :=
  ⟨onString fun s => P.isLength s min max, message⟩

end Validator

open Validator

/-- A property of a DTO with its decorators, the one written last first, which is the order in which
    they are applied. -/
structure Property where
  name : String
  isOptional : Bool := false
  constraints : List Constraint

abbrev Dto : Type := List Property

/-- The messages of `validate(value)`. -/
def Dto.errors (dto : Dto) (value : Json) : List String :=
  dto.flatMap fun p =>
    match p.isOptional, value.get p.name with
    -- `@IsOptional()` lets `null` and `undefined` pass
    | true, none | true, some .null => []
    | _, v => (p.constraints.filter fun c => !c.accepts v).map (·.message)

def passwordProperty (P : Packages) (name : String) : Property where
  name := name
  constraints := [length P 5 15 "Password must be between 5 and 15 characters!", isAlphanumeric P name]

def registerDto (P : Packages) : Dto :=
  [{ name := "name", constraints := [isString "name"] },
    { name := "email", constraints := [isEmail P "email"] }, passwordProperty P "password"]

def loginDto (P : Packages) : Dto :=
  [{ name := "email", constraints := [isEmail P "email"] }, passwordProperty P "password"]

def changePasswordDto (P : Packages) : Dto :=
  [passwordProperty P "oldPassword", passwordProperty P "newPassword"]

def updateUserDto : Dto :=
  [{ name := "name", isOptional := true, constraints := [isString "name"] },
    { name := "role", isOptional := true, constraints := [isEnum "role"] }]

/-! ## `schemas/index.ts` -/

namespace Zod

/-- A zod schema; `none` is a failed `safeParse`. -/
abbrev Schema (α : Type) : Type := Json → Option α

/-- `z.object({ … }).strict()`: an object without other keys. -/
def strict (keys : List String) : Json → Option Unit
  | .object properties => guard (properties.all fun p => keys.contains p.1)
  | _ => none

/-- `z.object({ … })` -/
def anyKeys : Json → Option Unit
  | .object _ => some ()
  | _ => none

/-- `z.string()` -/
def string : Option Json → Option String
  | some (.string s) => some s
  | _ => none

/-- `z.string().email()` -/
def email (P : Packages) (v : Option Json) : Option String :=
  (string v).filter P.zodEmail

/-- What `z.string().min(5).max(15)` accepts. -/
structure Password where
  value : String
  min : 5 ≤ jsLength value
  max : jsLength value ≤ 15

def password (v : Option Json) : Option Password := do
  let s ← string v
  if h : 5 ≤ jsLength s ∧ jsLength s ≤ 15 then some ⟨s, h.1, h.2⟩ else none

/-- `z.nativeEnum(UserRole)` -/
def role (v : Option Json) : Option UserRole :=
  (string v).bind parseRole

/-- A property of `z.object({ … }).partial()`. -/
def optional {α : Type} (parse : Option Json → Option α) : Option Json → Option (Option α)
  | none => some none
  | v => (parse v).map some

end Zod

open Zod

structure Register where
  name : String
  email : String
  password : Password

structure Login where
  email : String
  password : Password

structure ChangePassword where
  oldPassword : Password
  newPassword : Password

structure UpdateUserDto where
  name : Option String
  role : Option UserRole

def registerSchema (P : Packages) : Schema Register := fun v => do
  strict ["name", "email", "password"] v
  return ⟨← string (v.get "name"), ← email P (v.get "email"), ← password (v.get "password")⟩

def loginSchema (P : Packages) : Schema Login := fun v => do
  strict ["email", "password"] v
  return ⟨← email P (v.get "email"), ← password (v.get "password")⟩

def changePasswordSchema : Schema ChangePassword := fun v => do
  strict ["oldPassword", "newPassword"] v
  return ⟨← password (v.get "oldPassword"), ← password (v.get "newPassword")⟩

def updateUserSchema : Schema UpdateUserDto := fun v => do
  anyKeys v
  return ⟨← optional string (v.get "name"), ← optional role (v.get "role")⟩

def userIdSchema : Schema String := fun v => string (some v)

/-! ## `shared/pipes` -/

/-- `value.data.attributes`, if both are objects; otherwise the value itself. -/
def unwrap (value : Json) : Json :=
  match value.get "data" with
  | none => value
  | some data =>
      match data.get "attributes" with
      | none => value
      | some attributes => if attributes.isObject then attributes else value

/-- `JsonApiValidationPipe` for a body, made with `transform: true`. -/
def JsonApiValidationPipe.transform (P : Packages) (dto : Dto) (value : Json) : Except Exception Json :=
  let entity := P.plainToInstance (match unwrap value with
    -- `toEmptyIfNil`
    | .null => .object []
    | v => v)
  match dto.errors entity with
  | [] => .ok entity
  | messages => .error (.validation messages)

inductive Paramtype where
  | body
  | param
deriving DecidableEq, Repr

/-- `ZodValidationPipe`, given the schema that it has for this kind of parameter. -/
def ZodValidationPipe.transform {α : Type} (type : Paramtype) (schema : Option (Schema α))
    (value : Json) : Except Exception α :=
  match schema with
  | none => .error (.other (.badRequest "Validation failed, schema not defined."))
  | some schema =>
      match schema (if type = .body then unwrap value else value) with
      | none => .error (.other (.badRequest "Validation failed"))
      | some data => .ok data

/-- What the two pipes make of a body. -/
def parseBody {α : Type} (P : Packages) (dto : Dto) (schema : Schema α) (body : Json) :
    Except Exception α := do
  let value ← JsonApiValidationPipe.transform P dto body
  ZodValidationPipe.transform .body (some schema) value

/-- What they make of the parameter `:id`. -/
def parseId (id : String) : Except Exception String :=
  ZodValidationPipe.transform .param (some userIdSchema) (.string id)

end LiorParisWallet.Accounts
