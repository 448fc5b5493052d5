import LiorParisWallet.Accounts.Services

/-!
# Two validators and one body

`JsonApiValidationPipe` checks the decorators on the attributes of a body and hands these attributes on;
`ZodValidationPipe` looks for an envelope in them once more.  Where it finds one, it parses a value that
the decorators have never seen.  The two agree on exactly the bodies whose attributes are not an envelope
themselves.
-/

namespace LiorParisWallet.Accounts

open Validator Zod

variable {P : Packages} {body v : Json} {input : Register}

/-- The value is a JSON:API envelope: `value.data.attributes` is an object. -/
def Envelope (v : Json) : Prop :=
  ∃ data attributes, v.get "data" = some data ∧ data.get "attributes" = some attributes ∧
    attributes.isObject = true

/-- What class-validator checks, and what the first pipe hands on. -/
def checked (P : Packages) (body : Json) : Json :=
  P.plainToInstance (match unwrap body with
    | .null => .object []
    | v => v)

/-- What zod parses. -/
def parsed (P : Packages) (body : Json) : Json :=
  unwrap (checked P body)

/-- The decorators of `RegisterDto`, for a value that has its type. -/
structure SatisfiesDto (P : Packages) (input : Register) : Prop where
  email : P.isEmail input.email = true
  password : P.isAlphanumeric input.password.value = true
  passwordLength : P.isLength input.password.value 5 15 = true

/-- What `registerSchema` asks for. -/
structure SatisfiesSchema (P : Packages) (input : Register) : Prop where
  email : P.zodEmail input.email = true
  password : 5 ≤ jsLength input.password.value ∧ jsLength input.password.value ≤ 15

/-! ## Unwrapping -/

theorem sizeOf_get {name : String} {a : Json} (h : v.get name = some a) : sizeOf a < sizeOf v := by
  cases v with
  | object properties =>
    have hmem : (name, a) ∈ properties := by
      rw [Json.get, List.lookup_eq_some_iff] at h
      obtain ⟨l₁, l₂, rfl, -⟩ := h
      exact List.mem_append_right _ List.mem_cons_self
    have hlt := List.sizeOf_lt_of_mem hmem
    simp only [Prod.mk.sizeOf_spec] at hlt
    simp only [Json.object.sizeOf_spec]
    omega
  | _ => cases h

theorem unwrap_of_envelope {data attributes : Json} (hd : v.get "data" = some data)
    (ha : data.get "attributes" = some attributes) (ho : attributes.isObject = true) :
    unwrap v = attributes := by
  simp only [unwrap, hd, ha, ho, if_true]

/-- The unwrapped value of an envelope is a proper part of it. -/
theorem unwrap_eq_self_iff : unwrap v = v ↔ ¬ Envelope v := by
  constructor
  · rintro h ⟨data, attributes, hd, ha, ho⟩
    rw [unwrap_of_envelope hd ha ho] at h
    have hlt := (sizeOf_get ha).trans (sizeOf_get hd)
    rw [h] at hlt
    exact Nat.lt_irrefl _ hlt
  · intro h
    unfold unwrap
    split
    · rfl
    · rename_i data hd
      split
      · rfl
      · rename_i attributes ha
        exact if_neg fun ho => h ⟨data, attributes, hd, ha, ho⟩

/-! ## What a pipe has accepted -/

/-- A DTO without messages accepts every property that is not optional. -/
theorem accepts_of_errors {dto : Dto} {p : Property} {c : Constraint} (h : dto.errors v = [])
    (hp : p ∈ dto) (hoptional : p.isOptional = false) (hc : c ∈ p.constraints) :
    c.accepts (v.get p.name) = true := by
  have hnone := List.flatMap_eq_nil_iff.mp h p hp
  rw [hoptional] at hnone
  have hfilter : (p.constraints.filter fun c => !c.accepts (v.get p.name)).map (·.message) = [] := hnone
  rw [List.map_eq_nil_iff, List.filter_eq_nil_iff] at hfilter
  simpa using hfilter c hc

theorem checked_of_transform {dto : Dto} (h : JsonApiValidationPipe.transform P dto body = .ok v) :
    v = checked P body ∧ dto.errors v = [] := by
  unfold JsonApiValidationPipe.transform at h
  dsimp only at h
  split at h
  · rename_i herrors
    cases h
    exact ⟨rfl, herrors⟩
  · cases h

theorem accepted_of_parseBody {α : Type} {dto : Dto} {schema : Schema α} {a : α}
    (h : parseBody P dto schema body = .ok a) :
    dto.errors (checked P body) = [] ∧ schema (parsed P body) = some a := by
  unfold parseBody at h
  cases htransform : JsonApiValidationPipe.transform P dto body with
  | error e =>
    rw [htransform] at h
    cases h
  | ok value =>
    rw [htransform] at h
    obtain ⟨rfl, herrors⟩ := checked_of_transform htransform
    refine ⟨herrors, ?_⟩
    have h : ZodValidationPipe.transform .body (some schema) (checked P body) = .ok a := h
    simp only [ZodValidationPipe.transform, if_true] at h
    split at h
    · cases h
    · rename_i data hdata
      cases h
      exact hdata

theorem string_eq_some {a : Option Json} {s : String} (h : Zod.string a = some s) :
    a = some (.string s) := by
  unfold Zod.string at h
  split at h
  · cases h
    rfl
  · cases h

theorem password_eq_some {a : Option Json} {p : Password} (h : Zod.password a = some p) :
    a = some (.string p.value) := by
  obtain ⟨s, hs, hp⟩ := Option.bind_eq_some_iff.mp h
  split at hp
  · cases hp
    exact string_eq_some hs
  · cases hp

theorem registerSchema_eq_some (h : registerSchema P v = some input) :
    v.get "name" = some (.string input.name) ∧ v.get "email" = some (.string input.email) ∧
      v.get "password" = some (.string input.password.value) ∧ P.zodEmail input.email = true := by
  simp only [registerSchema, Option.bind_eq_bind, Option.bind_eq_some_iff] at h
  obtain ⟨-, -, name, hname, email, hemail, password, hpassword, heq⟩ := h
  cases heq
  obtain ⟨hemail, hzod⟩ := Option.filter_eq_some_iff.mp hemail
  exact ⟨string_eq_some hname, string_eq_some hemail, password_eq_some hpassword, hzod⟩

/-- For every body that both pipes accept: what is passed to `register` is what both of them have checked,
    and it satisfies the decorators and the schema, if and only if the attributes that the first pipe has
    selected are not an envelope. -/
theorem validators_agree_iff
    (h : parseBody P (registerDto P) (registerSchema P) body = .ok input) :
    (parsed P body = checked P body ∧ SatisfiesDto P input ∧ SatisfiesSchema P input) ↔
      ¬ Envelope (checked P body) := by
  obtain ⟨herrors, hschema⟩ := accepted_of_parseBody h
  constructor
  · rintro ⟨hsame, -⟩
    exact unwrap_eq_self_iff.mp hsame
  · intro hnot
    have hsame : parsed P body = checked P body := unwrap_eq_self_iff.mpr hnot
    obtain ⟨-, hemail, hpassword, hzod⟩ := registerSchema_eq_some hschema
    rw [hsame] at hemail hpassword
    -- the decorators have accepted the very strings that the schema returns
    have hisEmail := accepts_of_errors (p := ⟨"email", false, [isEmail P "email"]⟩)
      (c := isEmail P "email") herrors (by simp [registerDto]) rfl (by simp)
    have hlength := accepts_of_errors (p := passwordProperty P "password")
      (c := length P 5 15 "Password must be between 5 and 15 characters!") herrors
      (by simp [registerDto]) rfl (by simp [passwordProperty])
    have halphanumeric := accepts_of_errors (p := passwordProperty P "password")
      (c := isAlphanumeric P "password") herrors (by simp [registerDto]) rfl
      (by simp [passwordProperty])
    rw [show (⟨"email", false, [isEmail P "email"]⟩ : Property).name = "email" from rfl, hemail]
      at hisEmail
    rw [show (passwordProperty P "password").name = "password" from rfl, hpassword]
      at hlength halphanumeric
    exact ⟨hsame, ⟨hisEmail, halphanumeric, hlength⟩, hzod, input.password.min, input.password.max⟩

/-- The attributes hold a second envelope, and its password is not alphanumeric. -/
def nested : Json :=
  .object [("data", .object [("attributes", .object
    [("name", .string "Eve"), ("email", .string "eve@example.com"), ("password", .string "eve00"),
      ("data", .object [("attributes", .object
        [("name", .string "Eve"), ("email", .string "eve@example.com"),
          ("password", .string "?????")])])])])]

theorem unchecked_password : ∃ input,
    parseBody plainPackages (registerDto plainPackages) (registerSchema plainPackages) nested =
        .ok input ∧
      plainPackages.isAlphanumeric input.password.value = false := by
  refine ⟨⟨"Eve", "eve@example.com", ⟨"?????", by decide, by decide⟩⟩, ?_, by decide⟩
  rfl

/-- A body with one envelope. -/
def enveloped : Json :=
  .object [("data", .object [("attributes", .object
    [("name", .string "Eve"), ("email", .string "eve@example.com"), ("password", .string "eve00")])])]

def eve : Register := ⟨"Eve", "eve@example.com", ⟨"eve00", by decide, by decide⟩⟩

theorem validators_agree_enveloped : Envelope enveloped ∧
    parsed plainPackages enveloped = checked plainPackages enveloped ∧
      SatisfiesDto plainPackages eve ∧ SatisfiesSchema plainPackages eve := by
  refine ⟨⟨_, _, rfl, rfl, rfl⟩, (validators_agree_iff (by rfl)).mpr ?_⟩
  rintro ⟨data, attributes, hd, -⟩
  cases hd

end LiorParisWallet.Accounts
