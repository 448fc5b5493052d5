import LiorParisWallet.Numeric.Numerals
import LiorParisWallet.Shared.Constants

/-!
# `jsonapi-exception.filter.ts`

Every exception becomes a list of JSON:API errors.  The pointer of an error is made of the path of an issue,
of an unrecognized key, or of the first word of a message.
-/

namespace LiorParisWallet

open Numeric

/-- `string | number`, an element of the path of an issue. -/
inductive PathSegment where
  | string (s : String)
  | number (x : JsNumber)
deriving DecidableEq, Repr

/-- `String(segment)` -/
def PathSegment.text : PathSegment → String
  | .string s => s
  | .number x => String.ofList x.text

/-- An issue of zod. -/
structure Issue where
  path : Option (List PathSegment) := none
  message : String
  code : Option String := none
  keys : Option (List String) := none
deriving DecidableEq, Repr

/-- The keys of an issue with the code `unrecognized_keys`, if it has a list of them. -/
def Issue.unrecognizedKeys (issue : Issue) : Option (List String) :=
  if issue.code = some "unrecognized_keys" then issue.keys else none

/-- `string | string[]` -/
inductive ResponseMessage where
  | text (s : String)
  | list (texts : List String)
deriving DecidableEq, Repr

inductive NestHttpExceptionResponse where
  | text (s : String)
  | object (message : Option ResponseMessage) (error : Option String) (issues : Option (List Issue))
deriving DecidableEq, Repr

/-- `pointer` is `source.pointer`; without a pointer there is no source. -/
structure JsonApiErrorObject where
  status : String
  title : String
  detail : Option String := none
  code : Option String := none
  pointer : Option String := none
deriving DecidableEq, Repr

def toPointerFromPath : Option (List PathSegment) → Option String
  | none | some [] => none
  | some path => some ("/data/attributes/" ++ "/".intercalate (path.map (·.text)))

/-- The errors of one issue. -/
def errorsFromZodIssue (status : ℕ) (title : String) (issue : Issue) : List JsonApiErrorObject :=
  match issue.unrecognizedKeys with
  | some keys => keys.map fun key =>
      { status := toString status
        title := title
        code := some "VALIDATION_ERROR"
        detail := some ("Unrecognized field: " ++ key)
        pointer := some ("/data/attributes/" ++ key) }
  | none =>
      [{ status := toString status
         title := title
         code := some "VALIDATION_ERROR"
         detail := some issue.message
         pointer := toPointerFromPath issue.path }]

def errorsFromZodIssues (status : ℕ) (title : String) (issues : List Issue) : List JsonApiErrorObject :=
  issues.flatMap (errorsFromZodIssue status title)

/-- An empty string counts as no message. -/
def normalizeMessages : Option ResponseMessage → List String
  | none => []
  | some (.list texts) => texts
  | some (.text s) => if s = "" then [] else [s]

/-- `text.split(' ')[0]` -/
def firstWord (text : String) : String := String.ofList (text.toList.takeWhile (· ≠ ' '))

def errorsFromMessages (status : ℕ) (title : String) (messages : List String) : List JsonApiErrorObject :=
  messages.map fun text =>
    -- whatever the message is about, its first word is taken for a field
    let maybeField := firstWord text
    { status := toString status
      title := title
      code := if status = 400 then some "VALIDATION_ERROR" else none
      detail := some text
      pointer := if maybeField = "" then none else some ("/data/attributes/" ++ maybeField) }

def errorsFromHttpResponse (status : ℕ) (title : String) (res : NestHttpExceptionResponse) :
    List JsonApiErrorObject :=
  match res with
  | .text s => [{ status := toString status, title := title, detail := some s }]
  | .object message error issues =>
      match issues with
      | some (issue :: issues) => errorsFromZodIssues status title (issue :: issues)
      | _ =>
          match normalizeMessages message with
          | [] => [{ status := toString status, title := title, detail := error }]
          | messages => errorsFromMessages status title messages

structure HttpException where
  status : ℕ
  name : String
  response : NestHttpExceptionResponse
deriving DecidableEq, Repr

/-- Anything may be thrown: an `HttpException`, another object, perhaps with a message, or a value that is no
    object. -/
inductive Thrown where
  | http (exception : HttpException)
  | object (message : Option String)
  | value
deriving DecidableEq, Repr

/-- The status of the response, and its errors. -/
def JsonApiExceptionFilter.catch_ : Thrown → ℕ × List JsonApiErrorObject
  | .http e => (e.status, errorsFromHttpResponse e.status e.name e.response)
  | .object message => (500, [{ status := "500", title := "InternalServerError", detail := message }])
  | .value => (500, [{ status := "500", title := "InternalServerError" }])

example : JsonApiExceptionFilter.catch_ (.http ⟨400, "BadRequestException", .object (some (.text "Validation failed"))
    none (some [{ path := some [.string "email"], message := "Invalid email" }])⟩) =
    (400, [{ status := "400", title := "BadRequestException", detail := some "Invalid email"
             code := some "VALIDATION_ERROR", pointer := some "/data/attributes/email" }]) := by decide

end LiorParisWallet
