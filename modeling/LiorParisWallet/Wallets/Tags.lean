import LiorParisWallet.Shared.WalletTag
import LiorParisWallet.Text.Words

/-!
# What a wallet tag looks like

The first two replacements of `generateWalletTag` join the words of the name by dashes.  The cut after four
characters comes last, so a dash that stood between two words can end the slug.
-/

namespace LiorParisWallet

open Text

/-- A digit of `toString('hex')`. -/
def isHexDigit (c : Char) : Bool :=
  ('0' ≤ c && c ≤ '9') || ('a' ≤ c && c ≤ 'f')

/-- At most four characters of `a`–`z` and `0`–`9`, with single dashes between them. -/
structure IsSlug (s : List Char) : Prop where
  length_le : s.length ≤ 4
  chars : ∀ c ∈ s, isSlugChar c = true ∨ c = '-'
  starts : s.head? ≠ some '-'
  ends : s.getLast? ≠ some '-'
  single : s.IsChain fun a b => a ≠ '-' ∨ b ≠ '-'

structure IsSuffix (s : List Char) : Prop where
  length_eq : s.length = 4
  digits : ∀ c ∈ s, isHexDigit c = true

/-- The tag is this slug, a dash and this suffix, it fits its column, and it can be read in no other way. -/
structure WellFormed (tag : String) (slug suffix : List Char) : Prop where
  reads : tag.toList = slug ++ '-' :: suffix
  isSlug : IsSlug slug
  isSuffix : IsSuffix suffix
  fits : tag.length ≤ 15
  unambiguous : ∀ slug' suffix', tag.toList = slug' ++ '-' :: suffix' → IsSuffix suffix' →
    slug' = slug ∧ suffix' = suffix

/-- After three characters the first of the words end, and another one follows. -/
def CutsAtDash : List (List Char) → Bool
  | [_, _, _] :: _ :: _ => true
  | [_] :: [_] :: _ :: _ => true
  | _ => false

/-- The words of a name, in lower case. -/
def nameWords (name : String) : List (List Char) :=
  words isSlugChar (name.toList.flatMap toLowerCase)

section Slug

variable {c : Char} {cs : List Char} {ws : List (List Char)}

theorem isSlugChar_dash : isSlugChar '-' = false := by decide

theorem ne_dash (hc : isSlugChar c = true) : c ≠ '-' := by
  intro h
  rw [h, isSlugChar_dash] at hc
  exact Bool.false_ne_true hc

/-! ## The replacements -/

theorem head?_collapse_true (cs : List Char) : (collapse true cs).head? ≠ some '-' := by
  induction cs with
  | nil => simp [collapse]
  | cons c cs ih =>
    unfold collapse
    split
    · rename_i hc
      simpa using ne_dash hc
    · simpa using ih

/-- The text is as if it had begun within a run, but for the dash of a run at its beginning. -/
theorem collapse_false (cs : List Char) :
    collapse false cs = collapse true cs ∨ collapse false cs = '-' :: collapse true cs := by
  cases cs with
  | nil => simp [collapse]
  | cons c cs =>
    unfold collapse
    split <;> simp

/-- The second half of `replaceAll(/^-|-$/g, '')`. -/
def trimLast (cs : List Char) : List Char :=
  if cs.getLast? = some '-' then cs.dropLast else cs

theorem trimDashes_collapse (cs : List Char) :
    trimDashes (collapse false cs) = trimLast (collapse true cs) := by
  have hhead := head?_collapse_true cs
  rcases collapse_false cs with h | h
  · rw [h]
    simp [trimDashes, trimLast, hhead]
  · rw [h]
    simp [trimDashes, trimLast]

theorem trimLast_cons (h : cs ≠ []) : trimLast (c :: cs) = c :: trimLast cs := by
  unfold trimLast
  rw [List.getLast?_cons, List.dropLast_cons_of_ne_nil h]
  cases hlast : cs.getLast? with
  | none => exact absurd (List.getLast?_eq_none_iff.mp hlast) h
  | some d => split <;> simp_all

theorem trimLast_eq_nil (h : trimLast cs = []) (hhead : cs.head? ≠ some '-') : cs = [] := by
  cases cs with
  | nil => rfl
  | cons c cs =>
    cases cs with
    | nil =>
      have hc : c ≠ '-' := by simpa using hhead
      simp [trimLast, hc] at h
    | cons d ds =>
      rw [trimLast_cons (List.cons_ne_nil _ _)] at h
      exact absurd h (List.cons_ne_nil _ _)

/-- The replacements join the words by dashes. -/
theorem trimLast_collapse (cs : List Char) :
    trimLast (collapse true cs) = ['-'].intercalate (words isSlugChar cs) := by
  induction cs with
  | nil => simp [collapse, trimLast]
  | cons c cs ih =>
    cases hc : isSlugChar c with
    | false =>
      rw [words_cons_of_not hc, ← ih]
      simp [collapse, hc]
    | true =>
      have hstep : collapse true (c :: cs) = c :: collapse false cs := by simp [collapse, hc]
      rw [hstep]
      cases cs with
      | nil => simp [collapse, trimLast, words_singleton hc, ne_dash hc]
      | cons d ds =>
        cases hd : isSlugChar d with
        | true =>
          have hsame : collapse false (d :: ds) = collapse true (d :: ds) := by simp [collapse, hd]
          have hne : collapse true (d :: ds) ≠ [] := by simp [collapse, hd]
          obtain ⟨w, ws, hwords, hwords'⟩ := words_cons_cons (l := ds) hc hd
          rw [hsame, trimLast_cons hne, ih, hwords, hwords']
          cases ws <;> simp [List.intercalate_cons_cons]
        | false =>
          -- a word of one character, and the run after it
          have hrun : collapse false (d :: ds) = '-' :: collapse true ds := by simp [collapse, hd]
          have hsame : collapse true (d :: ds) = collapse true ds := by simp [collapse, hd]
          rw [hsame, words_cons_of_not hd] at ih
          rw [hrun, words_cons_gap hc hd, trimLast_cons (List.cons_ne_nil _ _)]
          cases hws : words isSlugChar ds with
          | nil =>
            rw [hws] at ih
            have hnil := trimLast_eq_nil ih (head?_collapse_true ds)
            simp [hnil, trimLast]
          | cons w ws =>
            have hne : collapse true ds ≠ [] := by
              intro h
              have hwords := areWords_words isSlugChar ds
              rw [hws] at ih hwords
              exact joined_ne_nil hwords (List.cons_ne_nil _ _) (ih.symm.trans (by rw [h]; rfl))
            rw [trimLast_cons hne, ih, hws]
            simp [List.intercalate_cons_cons]

theorem slug_eq (name : String) : slug name = (['-'].intercalate (nameWords name)).take 4 := by
  unfold slug nameWords
  rw [trimDashes_collapse, trimLast_collapse]

/-! ## The cut -/

theorem head?_joined_ne_dash (h : AreWords isSlugChar ws) : (['-'].intercalate ws).head? ≠ some '-' :=
  fun hhead => ne_dash (head?_joined h _ hhead) rfl

theorem getLast?_joined_ne_dash (h : AreWords isSlugChar ws) :
    (['-'].intercalate ws).getLast? ≠ some '-' :=
  fun hlast => ne_dash (getLast?_joined h _ hlast) rfl

/-- The fourth character is a dash exactly where the first words take up three. -/
theorem getElem?_joined (h : AreWords isSlugChar ws) :
    (['-'].intercalate ws)[3]? = some '-' ↔ CutsAtDash ws = true := by
  match ws, h with
  | [], _ => simp [CutsAtDash]
  | [w], h =>
    have hlast := (areWords_cons.mp h).1.2
    rw [List.intercalate_singleton]
    refine iff_of_false (fun hdash => ?_) (by simp [CutsAtDash])
    exact ne_dash (hlast '-' (List.mem_of_getElem? hdash)) rfl
  | [] :: _, h => exact absurd rfl (areWords_cons.mp h).1.1
  | [_] :: [] :: _, h => exact absurd rfl (areWords_cons.mp (areWords_cons.mp h).2).1.1
  | [_, _] :: [] :: _, h => exact absurd rfl (areWords_cons.mp (areWords_cons.mp h).2).1.1
  | [a] :: [b] :: [], _ => simp [CutsAtDash, List.intercalate_cons_cons]
  | [a] :: [b] :: w :: ws, _ => simp [CutsAtDash, List.intercalate_cons_cons]
  | [a] :: (b :: c :: w) :: ws, h =>
    have hc : c ≠ '-' := ne_dash ((areWords_cons.mp (areWords_cons.mp h).2).1.2 c (by simp))
    cases ws <;> simp [CutsAtDash, List.intercalate_cons_cons, hc]
  | [a, b] :: (c :: w) :: ws, h =>
    have hc : c ≠ '-' := ne_dash ((areWords_cons.mp (areWords_cons.mp h).2).1.2 c (by simp))
    cases ws <;> simp [CutsAtDash, List.intercalate_cons_cons, hc]
  | [a, b, c] :: w :: ws, _ => simp [CutsAtDash, List.intercalate_cons_cons]
  | (a :: b :: c :: d :: w) :: w' :: ws, h =>
    have hd : d ≠ '-' := ne_dash ((areWords_cons.mp h).1.2 d (by simp))
    simp [CutsAtDash, List.intercalate_cons_cons, hd]

theorem isSlug_take_iff (h : AreWords isSlugChar ws) :
    IsSlug ((['-'].intercalate ws).take 4) ↔ ¬ CutsAtDash ws = true := by
  rw [← getElem?_joined h]
  have hlast := getLast?_joined_ne_dash h
  constructor
  · intro hslug hdash
    have hends := hslug.ends
    rw [List.getLast?_take, hdash] at hends
    exact hends rfl
  · intro hdash
    refine ⟨List.length_take_le _ _, fun c hc => ?_, ?_, ?_, ?_⟩
    · exact mem_joined h c (List.mem_of_mem_take hc)
    · rw [List.head?_take]
      simpa using head?_joined_ne_dash h
    · rw [List.getLast?_take]
      cases hthree : (['-'].intercalate ws)[3]? with
      | none => simpa using hlast
      | some c => simpa [hthree] using hdash
    · refine ((isChain_joined h).take 4).imp fun a b hab => ?_
      exact hab.imp ne_dash ne_dash

end Slug

/-! ## The tag -/

section Tag

variable {name : String} {bytes : UInt8 × UInt8} {s t : List Char}

theorem isHexDigit_digitChar : ∀ n < 16, isHexDigit (Nat.digitChar n) = true := by decide

theorem isHexDigit_of_mem_byteHex {b : UInt8} {c : Char} (hc : c ∈ byteHex b) : isHexDigit c = true := by
  have hb := b.toNat_lt
  unfold byteHex at hc
  simp only [List.mem_cons, List.not_mem_nil, or_false] at hc
  rcases hc with rfl | rfl
  · exact isHexDigit_digitChar _ (by omega)
  · exact isHexDigit_digitChar _ (by omega)

def suffix (bytes : UInt8 × UInt8) : List Char := byteHex bytes.1 ++ byteHex bytes.2

theorem isSuffix_suffix (bytes : UInt8 × UInt8) : IsSuffix (suffix bytes) := by
  refine ⟨rfl, fun c hc => ?_⟩
  rcases List.mem_append.mp hc with hc | hc
  · exact isHexDigit_of_mem_byteHex hc
  · exact isHexDigit_of_mem_byteHex hc

theorem toList_generateWalletTag (name : String) (bytes : UInt8 × UInt8) :
    (generateWalletTag name bytes).toList = slug name ++ '-' :: suffix bytes :=
  String.toList_ofList

/-- A suffix has four characters, so there is one way to read a tag. -/
theorem reads_unique (h : (generateWalletTag name bytes).toList = s ++ '-' :: t) (ht : IsSuffix t) :
    s = slug name ∧ t = suffix bytes := by
  rw [toList_generateWalletTag] at h
  have hlength : ('-' :: suffix bytes).length = ('-' :: t).length := by
    simp [(isSuffix_suffix bytes).length_eq, ht.length_eq]
  obtain ⟨hs, ht⟩ := List.append_inj' h hlength
  exact ⟨hs.symm, (List.cons.inj ht).2.symm⟩

theorem length_slug_le (name : String) : (slug name).length ≤ 4 := List.length_take_le _ _

/-- For every name and every two random bytes: the tag is well formed if and only if the cut does not fall on
    a dash between two words of the name. -/
theorem generateWalletTag_wellFormed_iff (name : String) (bytes : UInt8 × UInt8) :
    (∃ slug suffix, WellFormed (generateWalletTag name bytes) slug suffix) ↔
      ¬ CutsAtDash (nameWords name) = true := by
  have hslug : IsSlug (slug name) ↔ ¬ CutsAtDash (nameWords name) = true := by
    rw [slug_eq]
    exact isSlug_take_iff (areWords_words _ _)
  rw [← hslug]
  constructor
  · rintro ⟨s, t, h⟩
    obtain ⟨rfl, -⟩ := reads_unique h.reads h.isSuffix
    exact h.isSlug
  · intro h
    refine ⟨slug name, suffix bytes, toList_generateWalletTag name bytes, h, isSuffix_suffix bytes, ?_,
      fun s t => reads_unique⟩
    have hlength := length_slug_le name
    have hsuffix := (isSuffix_suffix bytes).length_eq
    rw [← String.length_toList, toList_generateWalletTag, List.length_append, List.length_cons]
    omega

/-- The slug of Ada Lovelace ends with a dash. -/
theorem ada_lovelace_not_wellFormed :
    ¬ ∃ slug suffix, WellFormed (generateWalletTag "Ada Lovelace" (0xa1, 0x0b)) slug suffix := by
  rintro ⟨s, t, h⟩
  obtain ⟨rfl, -⟩ := reads_unique h.reads h.isSuffix
  exact h.isSlug.ends (by decide)

end Tag

end LiorParisWallet
