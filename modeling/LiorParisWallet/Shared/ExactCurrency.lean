import LiorParisWallet.Numeric.Rounding
import LiorParisWallet.Shared.FormatCurrency

/-!
# What a formatted amount says

Although the cents are divided in doubles, the text says exactly how many there were, as long as doubles of this
size are less than a cent apart.
-/

namespace LiorParisWallet

open Numeric

/-- Below this many cents, amounts are formatted exactly. -/
def formattedBelow : ℕ := 100 * 2 ^ 46

def sign (cents : ℤ) : String := if cents < 0 then "-" else ""

/-- The digits of `cents / 100`, with two decimals. -/
def exactMajor (cents : ℤ) : String :=
  let n := cents.natAbs
  sign cents ++ toString (n / 100) ++ "." ++ String.ofList [Nat.digitChar (n / 10 % 10), Nat.digitChar (n % 10)]

/-- The amount and the currency that a reader of the text takes from it. -/
def readAmount (text : String) : Option (ℤ × String) :=
  let cs := text.toList
  let unsigned := if cs.head? = some '-' then cs.tail else cs
  match unsigned.dropWhile Char.isDigit with
  | '.' :: tenth :: hundredth :: ' ' :: code =>
      let cents : ℕ := Nat.ofDigitChars 10 (unsigned.takeWhile Char.isDigit ++ [tenth, hundredth]) 0
      some (if cs.head? = some '-' then -cents else cents, String.ofList code)
  | _ => none

variable {cents : ℤ}

/-- `toFixed` finds the cents again. -/
theorem major_exact (h : cents.natAbs < formattedBelow) : major (some cents) = exactMajor cents := by
  have hk : 100 * (2 ^ (46 + 11) + 1) < 2 ^ 64 := by decide
  have hround := round_quotient (by decide) h hk
  obtain ⟨hup, -⟩ := quotient_error (by decide) h hk
  have hsmall : quotient cents.natAbs 100 < 10 ^ 21 * 2 ^ 65 := by
    unfold formattedBelow at h
    omega
  have hcents : (200 * quotient cents.natAbs 100 + 2 ^ 65) / 2 ^ 66 = cents.natAbs := by
    rwa [← Nat.mul_assoc] at hround
  unfold major
  dsimp only
  rw [if_pos hsmall, hcents]
  rfl

theorem toList_exactMajor (cents : ℤ) : (exactMajor cents).toList = (sign cents).toList ++
    (Nat.toDigits 10 (cents.natAbs / 100) ++
      ['.', Nat.digitChar (cents.natAbs / 10 % 10), Nat.digitChar (cents.natAbs % 10)]) := by
  simp [exactMajor, Nat.toString_eq_repr, Nat.toList_repr]

theorem dropWhile_head {l : List Char} (h : ∀ c ∈ l.head?, isSpace c = false) : l.dropWhile isSpace = l := by
  cases l with
  | nil => rfl
  | cons c l => rw [List.dropWhile_cons_of_neg (by simp [h c rfl])]

theorem trim_ends {text : String} (hfirst : ∀ c ∈ text.toList.head?, isSpace c = false)
    (hlast : ∀ c ∈ text.toList.getLast?, isSpace c = false) : trim text = text := by
  unfold trim
  rw [dropWhile_head hfirst, dropWhile_head (by rwa [List.head?_reverse]), List.reverse_reverse, String.ofList_toList]

theorem isSpace_of_isDigit {c : Char} (h : c.isDigit = true) : isSpace c = false := by
  obtain ⟨hlow, hhigh⟩ := Bool.and_eq_true_iff.mp h
  have hlow' : 48 ≤ c.toNat := UInt32.le_iff_toNat_le.mp (of_decide_eq_true hlow)
  have hhigh' : c.toNat ≤ 57 := UInt32.le_iff_toNat_le.mp (of_decide_eq_true hhigh)
  unfold isSpace
  simp only [Bool.or_eq_false_iff, Bool.and_eq_false_iff, decide_eq_false_iff_not]
  omega

/-- The first digit. -/
theorem exists_digit (n : ℕ) : ∃ c cs, Nat.toDigits 10 n = c :: cs ∧ c.isDigit = true := by
  cases hdigits : Nat.toDigits 10 n with
  | nil =>
    have hpos : 0 < (Nat.toDigits 10 n).length := Nat.length_toDigits_pos
    rw [hdigits] at hpos
    cases hpos
  | cons c cs =>
    have hmem : c ∈ Nat.toDigits 10 n := by
      rw [hdigits]
      exact List.mem_cons_self
    exact ⟨c, cs, rfl, Nat.isDigit_of_mem_toDigits (by decide) (by decide) hmem⟩

/-- Neither end of the text is white space. -/
theorem trim_amount (cents : ℤ) (currency : SupportedCurrency) :
    trim (exactMajor cents ++ " " ++ toUpperCase currency.value) = exactMajor cents ++ " " ++ currency.value := by
  have hupper : toUpperCase currency.value = currency.value := by cases currency <;> rfl
  rw [hupper]
  apply trim_ends
  · obtain ⟨c, cs, hdigits, hc⟩ := exists_digit (cents.natAbs / 100)
    intro first hfirst
    rw [String.toList_append, String.toList_append, toList_exactMajor, hdigits] at hfirst
    unfold sign at hfirst
    split at hfirst
    · obtain rfl : '-' = first := by simpa using hfirst
      decide
    · obtain rfl : c = first := by simpa using hfirst
      exact isSpace_of_isDigit hc
  · intro last hlast
    rw [String.toList_append, List.getLast?_append] at hlast
    cases currency <;> simp [SupportedCurrency.value] at hlast <;> subst hlast <;> decide

theorem formatCurrency_exact (h : cents.natAbs < formattedBelow) (currency : SupportedCurrency) :
    formatCurrency (some (.number cents)) (some (.string currency.value)) =
      .ok (exactMajor cents ++ " " ++ currency.value) := by
  show Except.ok (trim (major (some cents) ++ " " ++ toUpperCase currency.value)) = _
  rw [major_exact h, trim_amount]

/-- The digits before the point and the two after it are those of the cents. -/
theorem ofDigitChars_cents (n : ℕ) : Nat.ofDigitChars 10
    (Nat.toDigits 10 (n / 100) ++ [Nat.digitChar (n / 10 % 10), Nat.digitChar (n % 10)]) 0 = n := by
  rw [Nat.ofDigitChars_append, Nat.ofDigitChars_ten_toDigits,
    Nat.ofDigitChars_cons_digitChar_of_lt_ten (Nat.mod_lt _ (by decide)),
    Nat.ofDigitChars_cons_digitChar_of_lt_ten (Nat.mod_lt _ (by decide)), Nat.ofDigitChars_nil]
  omega

/-- What was formatted can be read. -/
theorem readAmount_exact (cents : ℤ) (code : String) :
    readAmount (exactMajor cents ++ " " ++ code) = some (cents, code) := by
  obtain ⟨c, cs, hfirst, hc⟩ := exists_digit (cents.natAbs / 100)
  have hdash : c ≠ '-' := by
    intro h
    rw [h] at hc
    cases hc
  have hcents := ofDigitChars_cents cents.natAbs
  have htext : (exactMajor cents ++ " " ++ code).toList = (sign cents).toList ++
      (Nat.toDigits 10 (cents.natAbs / 100) ++ '.' :: Nat.digitChar (cents.natAbs / 10 % 10) ::
        Nat.digitChar (cents.natAbs % 10) :: ' ' :: code.toList) := by
    simp [toList_exactMajor]
  have hall : ∀ c ∈ Nat.toDigits 10 (cents.natAbs / 100), Char.isDigit c = true :=
    fun c hmem => Nat.isDigit_of_mem_toDigits (by decide) (by decide) hmem
  unfold readAmount
  rw [htext]
  generalize Nat.digitChar (cents.natAbs / 10 % 10) = tenth, Nat.digitChar (cents.natAbs % 10) = hundredth,
    Nat.toDigits 10 (cents.natAbs / 100) = digits at *
  -- the digits end at the point
  have hpoint : ('.' : Char).isDigit = false := by decide
  have hbefore : ∀ rest, (digits ++ '.' :: rest).takeWhile Char.isDigit = digits := by
    intro rest
    rw [List.takeWhile_append_of_pos hall, List.takeWhile_cons_of_neg (by simp [hpoint]), List.append_nil]
  have hafter : ∀ rest, (digits ++ '.' :: rest).dropWhile Char.isDigit = '.' :: rest := by
    intro rest
    rw [List.dropWhile_append_of_pos hall, List.dropWhile_cons_of_neg (by simp [hpoint])]
  unfold sign
  by_cases hnegative : cents < 0
  · simp [hnegative, hbefore, hafter, hcents, abs_of_neg hnegative]
  · have hhead : digits.head?.getD '.' ≠ '-' := by
      rw [hfirst]
      exact hdash
    simp [hnegative, hbefore, hafter, hcents, hhead, abs_of_nonneg (not_lt.mp hnegative)]

/-- Whoever reads a formatted amount learns the cents and the currency, although they went through a division of
    doubles. -/
theorem formatCurrency_reads_back (h : cents.natAbs < formattedBelow) (currency : SupportedCurrency) :
    ∃ text, formatCurrency (some (.number cents)) (some (.string currency.value)) = .ok text ∧
      readAmount text = some (cents, currency.value) :=
  ⟨_, formatCurrency_exact h currency, readAmount_exact cents currency.value⟩

theorem formatCurrency_reads_back_largest :
    formatCurrency (some (.number 7036874417766399)) (some (.string "EUR")) = .ok "70368744177663.99 EUR" ∧
      ∃ text, formatCurrency (some (.number 7036874417766399)) (some (.string "EUR")) = .ok text ∧
        readAmount text = some (7036874417766399, "EUR") :=
  ⟨by decide +kernel, @formatCurrency_reads_back 7036874417766399 (by decide) .eur⟩

/-- Two cents above, a cent too many is shown. -/
example : formatCurrency (some (.number 7036874417766401)) (some (.string "EUR")) = .ok "70368744177664.02 EUR" := by
  decide +kernel

end LiorParisWallet
