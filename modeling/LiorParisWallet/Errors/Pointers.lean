import Mathlib.Data.List.Forall2
import LiorParisWallet.Rfc6901.Pointer
import LiorParisWallet.Shared.JsonApiExceptionFilter

/-!
# Where an error points

The filter joins the segments of a path, and appends a key, without escaping them, and it points to the first
word of any message.  The pointers are right exactly where there is nothing to escape and the message has no
first word.
-/

namespace LiorParisWallet

open JsonPointer Numeric

/-- The pointer of the error, decoded, is this list of tokens. -/
def JsonApiErrorObject.PointsTo (e : JsonApiErrorObject) (tokens : List String) : Prop :=
  ∃ pointer, e.pointer = some pointer ∧ decode pointer.toList = some (tokens.map (·.toList))

/-- There is an error for the issue; if it is about keys, one for each key, that points to it, and if it has
    a path, every error points there. -/
def Issue.LocatedBy (issue : Issue) (errors : List JsonApiErrorObject) : Prop :=
  errors ≠ [] ∧ match issue.unrecognizedKeys with
    | some keys => List.Forall₂ (fun key e => e.PointsTo ["data", "attributes", key]) keys errors
    | none => ∀ path, issue.path = some path → path ≠ [] →
        ∀ e ∈ errors, e.PointsTo ("data" :: "attributes" :: path.map (·.text))

namespace NestHttpExceptionResponse

def issues? : NestHttpExceptionResponse → Option (List Issue)
  | .text _ => none
  | .object _ _ issues => issues

/-- The one message of an exception that was raised with a message. -/
def plainMessage : NestHttpExceptionResponse → Option String
  | .text s => some s
  | .object (some (.text s)) _ none => some s
  | .object _ _ _ => none

end NestHttpExceptionResponse

/-- The issues have their errors, in order, and a plain message that is not about an attribute has no pointer.
    Which messages are about an attribute is left open. -/
structure Locates (aboutAttribute : String → Prop) (response : NestHttpExceptionResponse)
    (errors : List JsonApiErrorObject) : Prop where
  issues : ∀ issues, response.issues? = some issues → issues ≠ [] →
    ∃ blocks, errors = blocks.flatten ∧ List.Forall₂ Issue.LocatedBy issues blocks
  plain : ∀ message, response.plainMessage = some message → ¬ aboutAttribute message →
    ∀ e ∈ errors, e.pointer = none

/-- There is nothing to escape in the keys, of which there is one at least, or in the path. -/
def Issue.Unescaped (issue : Issue) : Prop :=
  match issue.unrecognizedKeys with
  | some keys => keys ≠ [] ∧ ∀ key ∈ keys, Plain key.toList
  | none => ∀ path, issue.path = some path → ∀ s, .string s ∈ path → Plain s.toList

/-- There is nothing to escape in the issues, and the message of an exception is about an attribute, or
    empty, or begins with a space. -/
structure Locatable (aboutAttribute : String → Prop) (response : NestHttpExceptionResponse) : Prop where
  issues : ∀ issues, response.issues? = some issues → ∀ issue ∈ issues, issue.Unescaped
  plain : ∀ message error, response = .object (some (.text message)) error none →
    ¬ aboutAttribute message → message = "" ∨ message.toList.head? = some ' '

section Issues

variable {status : ℕ} {title : String} {issue : Issue} {issues : List Issue} {e : JsonApiErrorObject}

/-- Errors that point to different attributes have different pointers. -/
theorem JsonApiErrorObject.PointsTo.tokens_eq {e' : JsonApiErrorObject} {tokens tokens' : List String}
    (h : e.PointsTo tokens) (h' : e'.PointsTo tokens') (heq : e.pointer = e'.pointer) : tokens = tokens' := by
  obtain ⟨p, hp, hdecode⟩ := h
  obtain ⟨p', hp', hdecode'⟩ := h'
  rw [hp, hp'] at heq
  cases heq
  have hmap := Option.some.inj (hdecode.symm.trans hdecode')
  exact List.map_injective_iff.mpr (fun _ _ => String.toList_inj.mp) hmap

/-- A pointer that was joined of these tokens points to them if there is nothing to escape. -/
theorem pointsTo_iff {pointer : String} {tokens : List String} (hpointer : e.pointer = some pointer)
    (hjoin : pointer.toList = join (("data" :: "attributes" :: tokens).map (·.toList))) :
    e.PointsTo ("data" :: "attributes" :: tokens) ↔ ∀ t ∈ tokens, Plain t.toList := by
  have hfixed : Plain "data".toList ∧ Plain "attributes".toList := by
    simp [Plain]
  have hdecode : e.PointsTo ("data" :: "attributes" :: tokens) ↔
      decode pointer.toList = some (("data" :: "attributes" :: tokens).map (·.toList)) := by
    constructor
    · intro h
      obtain ⟨p, hp, h⟩ := h
      rw [hpointer] at hp
      cases hp
      exact h
    · exact fun h => ⟨pointer, hpointer, h⟩
  rw [hdecode, hjoin, decode_join_iff, List.map_cons, List.map_cons, List.forall_mem_cons,
    List.forall_mem_cons, List.forall_mem_map]
  exact ⟨fun h => h.2.2, fun h => ⟨hfixed.1, hfixed.2, h⟩⟩

theorem pointsTo_key_iff {key : String} (hpointer : e.pointer = some ("/data/attributes/" ++ key)) :
    e.PointsTo ["data", "attributes", key] ↔ Plain key.toList := by
  rw [pointsTo_iff hpointer]
  · simp
  · simp [join]

theorem pointsTo_path_iff {path : List PathSegment} (hne : path ≠ [])
    (hpointer : e.pointer = toPointerFromPath (some path)) :
    e.PointsTo ("data" :: "attributes" :: path.map (·.text)) ↔
      ∀ segment ∈ path, Plain segment.text.toList := by
  have hpath : toPointerFromPath (some path) =
      some ("/data/attributes/" ++ "/".intercalate (path.map (·.text))) := by
    cases path with
    | nil => exact absurd rfl hne
    | cons segment path => rfl
  rw [pointsTo_iff (hpointer.trans hpath)]
  · simp
  · have hmap : (path.map (·.text)).map (·.toList) ≠ [] := by simpa using hne
    rw [List.map_cons, List.map_cons, join_cons, join_cons, join_eq hmap]
    simp [String.toList_intercalate]

/-- A number is written without a slash or a tilde. -/
theorem plain_number (x : JsNumber) : Plain (PathSegment.number x).text.toList := by
  intro c hc
  have hc : isNumeralChar c = true := isNumeralChar_text x c (by simpa [PathSegment.text] using hc)
  constructor
  · intro h
    rw [h] at hc
    revert hc
    decide
  · intro h
    rw [h] at hc
    revert hc
    decide

theorem plain_path_iff {path : List PathSegment} :
    (∀ segment ∈ path, Plain segment.text.toList) ↔ ∀ s, .string s ∈ path → Plain s.toList := by
  constructor
  · exact fun h s hs => h _ hs
  · intro h segment hsegment
    cases segment with
    | string s => exact h s hsegment
    | number x => exact plain_number x

/-- The errors of an issue point where they should exactly where there is nothing to escape in it. -/
theorem locatedBy_iff (status : ℕ) (title : String) (issue : Issue) :
    issue.LocatedBy (errorsFromZodIssue status title issue) ↔ issue.Unescaped := by
  unfold Issue.LocatedBy Issue.Unescaped errorsFromZodIssue
  cases issue.unrecognizedKeys with
  | some keys =>
    simp only [ne_eq, List.map_eq_nil_iff, List.forall₂_map_right_iff, List.forall₂_same]
    refine and_congr Iff.rfl (forall₂_congr fun key _ => ?_)
    exact pointsTo_key_iff rfl
  | none =>
    simp only [List.forall_mem_singleton]
    rw [and_iff_right (List.cons_ne_nil _ _)]
    refine forall₂_congr fun path hpath => ?_
    cases path with
    | nil => simp
    | cons segment path =>
      rw [forall_prop_of_true (List.cons_ne_nil _ _), ← plain_path_iff]
      exact pointsTo_path_iff (List.cons_ne_nil _ _) (by rw [hpath])

/-! ## One block of errors for each issue -/

/-- Blocks that are not shorter, and are no longer together, are the same blocks. -/
theorem eq_of_flatten_eq {α : Type} {xs ys : List (List α)}
    (hlength : List.Forall₂ (fun x y => x.length ≤ y.length) xs ys) (h : xs.flatten = ys.flatten) :
    xs = ys := by
  have hle : ∀ {xs ys : List (List α)}, List.Forall₂ (fun x y => x.length ≤ y.length) xs ys →
      xs.flatten.length ≤ ys.flatten.length := by
    intro xs ys hlength
    induction hlength with
    | nil => simp
    | cons hxy _ ih =>
      simp only [List.flatten_cons, List.length_append]
      omega
  induction hlength with
  | nil => rfl
  | cons hxy htail ih =>
    have hflat := hle htail
    have hsum := congrArg List.length h
    simp only [List.flatten_cons, List.length_append] at hsum
    obtain ⟨rfl, hrest⟩ := List.append_inj h (by omega)
    rw [ih hrest]

theorem length_le_of_locatedBy {errors : List JsonApiErrorObject} (h : issue.LocatedBy errors) :
    (errorsFromZodIssue status title issue).length ≤ errors.length := by
  obtain ⟨hne, h⟩ := h
  unfold errorsFromZodIssue
  revert h
  cases issue.unrecognizedKeys with
  | some keys =>
    intro h
    rw [List.length_map]
    exact Nat.le_of_eq h.length_eq
  | none =>
    intro _
    have := List.length_pos_iff.mpr hne
    rw [List.length_singleton]
    omega

/-- The errors can be read as those of the issues in one way only, which is how they were made. -/
theorem locates_issues_iff (status : ℕ) (title : String) (issues : List Issue) :
    (∃ blocks, errorsFromZodIssues status title issues = blocks.flatten ∧
      List.Forall₂ Issue.LocatedBy issues blocks) ↔ ∀ issue ∈ issues, issue.Unescaped := by
  have hmade : List.Forall₂ Issue.LocatedBy issues (issues.map (errorsFromZodIssue status title)) ↔
      ∀ issue ∈ issues, issue.Unescaped := by
    rw [List.forall₂_map_right_iff, List.forall₂_same]
    exact forall₂_congr fun issue _ => locatedBy_iff status title issue
  rw [← hmade, errorsFromZodIssues, List.flatMap_def]
  constructor
  · intro h
    obtain ⟨blocks, hflat, hblocks⟩ := h
    have hlength : List.Forall₂ (fun x y => x.length ≤ y.length)
        (issues.map (errorsFromZodIssue status title)) blocks := by
      rw [List.forall₂_map_left_iff]
      exact hblocks.imp fun _ _ => length_le_of_locatedBy
    rw [eq_of_flatten_eq hlength hflat]
    exact hblocks
  · exact fun h => ⟨_, rfl, h⟩

/-! ## Messages -/

theorem firstWord_eq_empty_iff (message : String) :
    firstWord message = "" ↔ message = "" ∨ message.toList.head? = some ' ' := by
  rw [← String.toList_inj, ← String.toList_inj, firstWord, String.toList_ofList]
  cases message.toList with
  | nil => simp
  | cons c cs => simp [List.takeWhile_cons]

end Issues

/-- The errors of a response that has no issues. -/
theorem locates_plain_iff {message : Option ResponseMessage} {error : Option String} {status : ℕ} {title : String}
    {text : String} (hmessage : message = some (.text text)) :
    (∀ e ∈ errorsFromHttpResponse status title (.object message error none), e.pointer = none) ↔
      text = "" ∨ text.toList.head? = some ' ' := by
  subst hmessage
  rw [← firstWord_eq_empty_iff]
  by_cases htext : text = ""
  · simp [htext, errorsFromHttpResponse, normalizeMessages, firstWord]
  · simp [htext, errorsFromHttpResponse, normalizeMessages, errorsFromMessages]

theorem plainMessage_cases {response : NestHttpExceptionResponse} {message : String}
    (h : response.plainMessage = some message) :
    response = .text message ∨ ∃ error, response = .object (some (.text message)) error none := by
  unfold NestHttpExceptionResponse.plainMessage at h
  split at h
  · cases h
    exact .inl rfl
  · cases h
    exact .inr ⟨_, rfl⟩
  · cases h

/-- Where there are issues, nothing else of the response is looked at. -/
theorem errors_of_issues {response : NestHttpExceptionResponse} {issues : List Issue}
    (h : response.issues? = some issues) (hne : issues ≠ []) (status : ℕ) (title : String) :
    errorsFromHttpResponse status title response = errorsFromZodIssues status title issues := by
  cases response with
  | text s => cases h
  | object message error issues' =>
    cases h
    cases issues with
    | nil => exact absurd rfl hne
    | cons issue issues => rfl

/-- For every exception that the filter receives: the pointers locate the attributes that its issues are
    about, and a message about no attribute is not located, if and only if there is nothing to escape in the
    issues and the message does not begin with a word. -/
theorem locates_iff (aboutAttribute : String → Prop) (exception : HttpException) :
    Locates aboutAttribute exception.response (JsonApiExceptionFilter.catch_ (.http exception)).2 ↔
      Locatable aboutAttribute exception.response := by
  obtain ⟨status, title, response⟩ := exception
  show Locates aboutAttribute response (errorsFromHttpResponse status title response) ↔ _
  constructor
  · intro h
    constructor
    · intro issues hissues issue hmem
      have hne : issues ≠ [] := List.ne_nil_of_mem hmem
      obtain ⟨blocks, hblocks⟩ := h.issues issues hissues hne
      rw [errors_of_issues hissues hne] at hblocks
      exact (locates_issues_iff status title issues).mp ⟨blocks, hblocks⟩ issue hmem
    · intro message error hresponse hnot
      cases hresponse
      exact (locates_plain_iff rfl).mp (h.plain message rfl hnot)
  · intro h
    constructor
    · intro issues hissues hne
      rw [errors_of_issues hissues hne]
      exact (locates_issues_iff status title issues).mpr (h.issues issues hissues)
    · intro message hplain hnot
      rcases plainMessage_cases hplain with rfl | ⟨error, rfl⟩
      · -- a response that is a string has no pointer at all
        simp [errorsFromHttpResponse]
      · exact (locates_plain_iff rfl).mpr (h.plain message error rfl hnot)

/-- A body with a key that has a slash in it was sent. -/
def slashedKey : HttpException where
  status := 400
  name := "BadRequestException"
  response := .object (some (.text "Validation failed")) none (some
    [{ path := some [], message := "Unrecognized key(s) in object: 'a/b'", code := some "unrecognized_keys"
       keys := some ["a/b"] }])

/-- The balance does not cover a transfer. -/
def insufficientBalance : HttpException where
  status := 400
  name := "BadRequestException"
  response := .object (some (.text "Insufficient balance")) (some "Bad Request") none

/-- The pointer to this key leads elsewhere, and the transfer is said to have an attribute `Insufficient`. -/
theorem misplaced_pointers :
    ¬ Locates (fun _ => False) slashedKey.response (JsonApiExceptionFilter.catch_ (.http slashedKey)).2 ∧
      ¬ Locates (fun _ => False) insufficientBalance.response
        (JsonApiExceptionFilter.catch_ (.http insufficientBalance)).2 := by
  constructor
  · intro h
    have hunescaped := (locates_issues_iff _ _ _).mp (h.issues _ rfl (List.cons_ne_nil _ _)) _
      List.mem_cons_self
    have hplain : Plain "a/b".toList := hunescaped.2 "a/b" List.mem_cons_self
    exact (hplain '/' (by decide)).1 rfl
  · intro h
    have hnone : ∀ e ∈ errorsFromHttpResponse 400 "BadRequestException"
        (.object (some (.text "Insufficient balance")) (some "Bad Request") none), e.pointer = none :=
      h.plain "Insufficient balance" rfl id
    have hword := (locates_plain_iff rfl).mp hnone
    revert hword
    decide

end LiorParisWallet
