import Mathlib.Data.List.Basic

/-!
# JSON pointers

A JSON pointer is a list of reference tokens.  It is written as a `/` before each token, in which `~` and `/`
stand as `~0` and `~1`.  Decoding is the inverse of encoding, and tokens that are joined without being
escaped are read back if and only if there is nothing in them to escape.
-/

namespace JsonPointer

def escapeChar (c : Char) : List Char :=
  if c = '~' then ['~', '0'] else if c = '/' then ['~', '1'] else [c]

def escape (token : List Char) : List Char := token.flatMap escapeChar

/-- `none` for a `~` that neither `0` nor `1` follows. -/
def unescape : List Char → Option (List Char)
  | [] => some []
  | '~' :: '0' :: cs => (unescape cs).map ('~' :: ·)
  | '~' :: '1' :: cs => (unescape cs).map ('/' :: ·)
  | '~' :: _ => none
  | c :: cs => (unescape cs).map (c :: ·)

/-- The tokens as they are, a `/` before each. -/
def join (tokens : List (List Char)) : List Char := tokens.flatMap ('/' :: ·)

def encode (tokens : List (List Char)) : List Char := join (tokens.map escape)

def decode : List Char → Option (List (List Char))
  | [] => some []
  | c :: cs => if c = '/' then (cs.splitOn '/').mapM unescape else none

variable {c : Char} {cs token p : List Char} {tokens : List (List Char)}

/-! ## One token -/

/-- There is nothing to escape in the token. -/
def Plain (token : List Char) : Prop := ∀ c ∈ token, c ≠ '/' ∧ c ≠ '~'

theorem escapeChar_of_plain (h : c ≠ '/' ∧ c ≠ '~') : escapeChar c = [c] := by
  simp [escapeChar, h.1, h.2]

theorem length_escapeChar_of_not_plain (h : ¬ (c ≠ '/' ∧ c ≠ '~')) : (escapeChar c).length = 2 := by
  unfold escapeChar
  split
  · rfl
  split
  · rfl
  · simp_all

theorem escape_cons (c : Char) (cs : List Char) : escape (c :: cs) = escapeChar c ++ escape cs :=
  List.flatMap_cons

theorem unescape_cons (h : c ≠ '~') (cs : List Char) :
    unescape (c :: cs) = (unescape cs).map (c :: ·) := by
  rw [unescape]
  · exact fun _ heq _ => h heq
  · exact fun _ heq _ => h heq
  · exact h

theorem unescape_escape (token : List Char) : unescape (escape token) = some token := by
  induction token with
  | nil => rfl
  | cons c cs ih =>
    rw [escape_cons]
    by_cases htilde : c = '~'
    · subst htilde
      simp [escapeChar, unescape, ih]
    by_cases hslash : c = '/'
    · subst hslash
      simp [escapeChar, unescape, ih]
    simp [escapeChar_of_plain ⟨hslash, htilde⟩, unescape_cons htilde, ih]

/-- What is read without a slash in it is the escaped token. -/
theorem escape_of_unescape (hcs : '/' ∉ cs) (h : unescape cs = some token) : cs = escape token := by
  induction cs using unescape.induct generalizing token with
  | case1 =>
    cases h
    rfl
  | case2 cs ih =>
    obtain ⟨t, ht, rfl⟩ := Option.map_eq_some_iff.mp h
    rw [ih (by simp_all) ht, escape_cons]
    rfl
  | case3 cs ih =>
    obtain ⟨t, ht, rfl⟩ := Option.map_eq_some_iff.mp h
    rw [ih (by simp_all) ht, escape_cons]
    rfl
  | case4 cs h₀ h₁ => simp [unescape] at h
  | case5 c cs h₀ h₁ htilde ih =>
    rw [unescape_cons htilde] at h
    obtain ⟨t, ht, rfl⟩ := Option.map_eq_some_iff.mp h
    have hslash : c ≠ '/' := by
      intro heq
      simp [heq] at hcs
    rw [ih (by simp_all) ht, escape_cons, escapeChar_of_plain ⟨hslash, htilde⟩]
    rfl

theorem slash_notMem_escape (token : List Char) : '/' ∉ escape token := by
  induction token with
  | nil => simp [escape]
  | cons c cs ih =>
    rw [escape_cons, List.mem_append, not_or]
    refine ⟨?_, ih⟩
    unfold escapeChar
    split
    · decide
    split
    · decide
    · rename_i hslash
      simpa using Ne.symm hslash

theorem length_le_length_escape (token : List Char) : token.length ≤ (escape token).length := by
  induction token with
  | nil => simp
  | cons c cs ih =>
    rw [escape_cons, List.length_append, List.length_cons]
    by_cases hc : c ≠ '/' ∧ c ≠ '~'
    · rw [escapeChar_of_plain hc, List.length_singleton]
      omega
    · rw [length_escapeChar_of_not_plain hc]
      omega

/-- Whatever is escaped becomes longer. -/
theorem plain_of_length (h : (escape token).length ≤ token.length) : Plain token := by
  induction token with
  | nil => simp [Plain]
  | cons c cs ih =>
    have hcs := length_le_length_escape cs
    rw [escape_cons, List.length_append, List.length_cons] at h
    by_cases hc : c ≠ '/' ∧ c ≠ '~'
    · rw [escapeChar_of_plain hc, List.length_singleton] at h
      have hplain := ih (by omega)
      simpa [Plain] using ⟨hc, hplain⟩
    · rw [length_escapeChar_of_not_plain hc] at h
      omega

theorem escape_of_plain (h : Plain token) : escape token = token := by
  induction token with
  | nil => rfl
  | cons c cs ih =>
    have hc := h c List.mem_cons_self
    rw [escape_cons, escapeChar_of_plain hc, ih fun d hd => h d (List.mem_cons_of_mem _ hd)]
    rfl

/-! ## The pointer -/

theorem join_cons (token : List Char) (tokens : List (List Char)) :
    join (token :: tokens) = '/' :: token ++ join tokens :=
  List.flatMap_cons

theorem join_eq (h : tokens ≠ []) : join tokens = '/' :: ['/'].intercalate tokens := by
  induction tokens with
  | nil => exact absurd rfl h
  | cons t ts ih =>
    cases ts with
    | nil => simp [join]
    | cons t' ts =>
      rw [join_cons, ih (List.cons_ne_nil _ _), List.intercalate_cons_cons]
      simp

theorem mapM_unescape {pieces : List (List Char)} (hpieces : ∀ cs ∈ pieces, '/' ∉ cs) :
    pieces.mapM unescape = some tokens ↔ pieces = tokens.map escape := by
  induction pieces generalizing tokens with
  | nil => cases tokens <;> simp
  | cons cs pieces ih =>
    have hcs : '/' ∉ cs := hpieces cs List.mem_cons_self
    have ih : ∀ ts, pieces.mapM unescape = some ts ↔ pieces = ts.map escape :=
      fun ts => ih fun d hd => hpieces d (List.mem_cons_of_mem _ hd)
    rw [List.mapM_cons]
    constructor
    · intro h
      obtain ⟨t, ht, h⟩ := Option.bind_eq_some_iff.mp h
      obtain ⟨ts, hts, heq⟩ := Option.bind_eq_some_iff.mp h
      cases heq
      rw [List.map_cons, ← (ih ts).mp hts, ← escape_of_unescape hcs ht]
    · intro h
      cases tokens with
      | nil => cases h
      | cons t ts =>
        obtain ⟨rfl, htail⟩ := List.cons.inj h
        rw [unescape_escape, (ih ts).mpr htail]
        rfl

theorem notMem_of_mem_splitOn {a : Char} {l : List Char} : ∀ piece ∈ l.splitOn a, a ∉ piece := by
  induction l with
  | nil => simp
  | cons b l ih =>
    rw [List.splitOn_cons_eq_if_modifyHead]
    split
    · simpa using ih
    · rename_i hb
      cases hsplit : l.splitOn a with
      | nil => exact absurd hsplit (List.splitOn_ne_nil _ _)
      | cons piece pieces =>
        rw [hsplit] at ih
        have hne : a ≠ b := by
          intro heq
          simp [heq] at hb
        simpa [hne] using ih

/-- Decoding is the inverse of encoding. -/
theorem decode_eq_some_iff : decode p = some tokens ↔ p = encode tokens := by
  cases p with
  | nil =>
    cases tokens with
    | nil => simp [decode, encode, join]
    | cons t ts => simp [decode, encode, join]
  | cons c cs =>
    by_cases hc : c = '/'
    · subst hc
      rw [decode, if_pos rfl, mapM_unescape notMem_of_mem_splitOn]
      constructor
      · intro h
        have hne : tokens.map escape ≠ [] := h ▸ List.splitOn_ne_nil _ _
        rw [encode, join_eq hne, ← h, List.intercalate_splitOn]
      · intro h
        have hne : tokens.map escape ≠ [] := by
          intro hnil
          rw [encode, hnil] at h
          cases h
        rw [encode, join_eq hne] at h
        rw [(List.cons.inj h).2]
        refine List.splitOn_intercalate _ (fun l hl => ?_) hne
        obtain ⟨t, -, rfl⟩ := List.mem_map.mp hl
        exact slash_notMem_escape t
    · rw [decode, if_neg hc]
      cases tokens with
      | nil => simp [encode, join]
      | cons t ts => simp [encode, join_cons, hc]

theorem length_join_le (tokens : List (List Char)) :
    (join tokens).length ≤ (join (tokens.map escape)).length := by
  induction tokens with
  | nil => simp
  | cons t ts ih =>
    have ht := length_le_length_escape t
    simp only [List.map_cons, join_cons, List.length_append, List.length_cons]
    omega

theorem plain_of_join (h : (join (tokens.map escape)).length ≤ (join tokens).length) :
    ∀ t ∈ tokens, Plain t := by
  induction tokens with
  | nil => simp
  | cons t ts ih =>
    have ht := length_le_length_escape t
    have hts := length_join_le ts
    simp only [List.map_cons, join_cons, List.length_append, List.length_cons] at h
    rw [List.forall_mem_cons]
    exact ⟨plain_of_length (by omega), ih (by omega)⟩

/-- Tokens that were not escaped are read back exactly where there was nothing to escape. -/
theorem decode_join_iff : decode (join tokens) = some tokens ↔ ∀ t ∈ tokens, Plain t := by
  rw [decode_eq_some_iff, encode]
  constructor
  · intro h
    exact plain_of_join (Nat.le_of_eq (congrArg List.length h.symm))
  · intro h
    rw [List.map_congr_left fun t ht => escape_of_plain (h t ht), List.map_id']

example : decode "/data/attributes/a~1b".toList =
    some ["data".toList, "attributes".toList, "a/b".toList] := by decide

end JsonPointer
