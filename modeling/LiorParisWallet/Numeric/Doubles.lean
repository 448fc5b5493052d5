import Mathlib.Algebra.Order.Ring.Int
import Mathlib.Data.Int.Notation

/-!
# Integers as doubles

What a number is after it was stored in a double, and after the double was written out in decimal.  Up to
`maxSafeInteger` both leave an integer as it is.
-/

namespace Numeric

/-- `Number.MAX_SAFE_INTEGER` -/
def maxSafeInteger : ℕ := 2 ^ 53 - 1

/-- The double that is nearest to `n`, the one with the even significand where two are. -/
def nearestDouble (n : ℕ) : ℕ :=
  -- the distance of two neighbouring doubles
  let ulp := 2 ^ (n.log2 - 52)
  let q := n / ulp
  let r := n % ulp
  if 2 * r < ulp ∨ (2 * r = ulp ∧ q % 2 = 0) then q * ulp else (q + 1) * ulp

/-- `Number(x)` -/
def number (x : ℤ) : ℤ := x.sign * nearestDouble x.natAbs

/-- The multiple of `m` that reads back as the double `n`, the nearer one where two do. -/
def readsBack? (n m : ℕ) : Option ℕ :=
  let lo := n / m * m
  let hi := lo + m
  if nearestDouble lo = n then
    -- in the middle the one with the even last digit
    if nearestDouble hi = n ∧ (hi - n < n - lo ∨ (hi - n = n - lo ∧ n / m % 2 = 1)) then some hi else some lo
  else if nearestDouble hi = n then some hi
  else none

/-- The decimal with the fewest digits, and `k` zeros at most after them, that reads back as the double
    `n`. -/
def shortest (n : ℕ) : ℕ → ℕ
  | 0 => n
  | k + 1 => (readsBack? n (10 ^ (k + 1))).getD (shortest n k)

/-- `Number.prototype.toString`, as the integer that the digits stand for. -/
def decimal (x : ℤ) : ℤ := x.sign * shortest x.natAbs (x.natAbs.log2 + 1)

/-- `Number.prototype.toString`: from `10 ^ 21` on the number is written with an exponent. -/
def numeral (x : ℤ) : String :=
  let digits := Nat.toDigits 10 (decimal x).natAbs
  let sign := if x < 0 then "-" else ""
  if digits.length ≤ 21 then sign ++ String.ofList digits
  else
    let significant := (digits.reverse.dropWhile (· = '0')).reverse
    let fraction := if significant.length ≤ 1 then [] else '.' :: significant.tail
    sign ++ String.ofList (significant.take 1 ++ fraction) ++ "e+" ++ toString (digits.length - 1)

/-- The double that is nearest to `n / d`, in units of `2 ^ (-65)`, for a `d` of ten bits at most. -/
def quotient (n d : ℕ) : ℕ :=
  let scaled := n * 2 ^ 64
  -- the last bit says whether anything was cut off
  nearestDouble (2 * (scaled / d) + if scaled % d = 0 then 0 else 1)

theorem nearestDouble_eq {n : ℕ} (h : n ≤ maxSafeInteger) : nearestDouble n = n := by
  have hlog : n.log2 - 52 = 0 := by
    by_cases h₀ : n = 0
    · subst h₀
      simp
    · have hlt : n.log2 < 53 := (Nat.log2_lt h₀).mpr (by unfold maxSafeInteger at h; omega)
      omega
  simp [nearestDouble, hlog, Nat.mod_one]

/-- Rounding does not lead below a power of two. -/
theorem le_nearestDouble {k n : ℕ} (hk : 53 ≤ k) (h : 2 ^ k ≤ n) : 2 ^ k ≤ nearestDouble n := by
  have hn : n ≠ 0 := by
    have := Nat.two_pow_pos k
    omega
  have hlog : k ≤ n.log2 := (Nat.le_log2 hn).mpr h
  obtain ⟨e, he⟩ : ∃ e, n.log2 = 52 + (e + 1) := ⟨n.log2 - 53, by omega⟩
  have hulp : n.log2 - 52 = e + 1 := by omega
  -- the significand has 53 bits
  have hq : 2 ^ 52 ≤ n / 2 ^ (e + 1) := by
    rw [Nat.le_div_iff_mul_le (Nat.two_pow_pos _), ← pow_add, ← he]
    exact (Nat.le_log2 hn).mp le_rfl
  have hprod : ∀ q, 2 ^ 52 ≤ q → 2 ^ k ≤ q * 2 ^ (e + 1) := by
    intro q hq
    calc 2 ^ k ≤ 2 ^ (52 + (e + 1)) := Nat.pow_le_pow_right (by omega) (he ▸ hlog)
      _ = 2 ^ 52 * 2 ^ (e + 1) := pow_add ..
      _ ≤ q * 2 ^ (e + 1) := Nat.mul_le_mul_right _ hq
  simp only [nearestDouble, hulp]
  split
  · exact hprod _ hq
  · exact hprod _ (by omega)

/-- Rounding does not lead back into the range. -/
theorem maxSafeInteger_lt_nearestDouble {n : ℕ} (h : maxSafeInteger < n) :
    maxSafeInteger < nearestDouble n := by
  have hge : 2 ^ 53 ≤ n := by unfold maxSafeInteger at h; omega
  have hle := le_nearestDouble le_rfl hge
  unfold maxSafeInteger
  omega

/-- In the range every integer is a double of its own. -/
theorem eq_of_nearestDouble {n m : ℕ} (hn : n ≤ maxSafeInteger) (h : nearestDouble m = n) : m = n := by
  by_cases hm : m ≤ maxSafeInteger
  · rwa [nearestDouble_eq hm] at h
  · have := maxSafeInteger_lt_nearestDouble (not_le.mp hm)
    omega

theorem shortest_eq {n : ℕ} (hn : n ≤ maxSafeInteger) (k : ℕ) : shortest n k = n := by
  induction k with
  | zero => rfl
  | succ k ih =>
    have hreads : ∀ m, readsBack? n m = none ∨ readsBack? n m = some n := by
      intro m
      simp only [readsBack?]
      split
      · rename_i hlo
        split
        · rename_i hhi
          exact .inr (congrArg some (eq_of_nearestDouble hn hhi.1))
        · exact .inr (congrArg some (eq_of_nearestDouble hn hlo))
      · split
        · rename_i hhi
          exact .inr (congrArg some (eq_of_nearestDouble hn hhi))
        · exact .inl rfl
    rcases hreads (10 ^ (k + 1)) with h | h
    · simp [shortest, h, ih]
    · simp [shortest, h]

theorem number_eq {x : ℤ} (h : x.natAbs ≤ maxSafeInteger) : number x = x := by
  rw [number, nearestDouble_eq h, Int.sign_mul_natAbs]

theorem decimal_eq {x : ℤ} (h : x.natAbs ≤ maxSafeInteger) : decimal x = x := by
  rw [decimal, shortest_eq h, Int.sign_mul_natAbs]

/-! ## Just beyond the range -/

/-- Next to the range every second integer is a double. -/
theorem nearestDouble_beyond {n : ℕ} (h : maxSafeInteger < n) (h' : n < 2 ^ 54) :
    nearestDouble n = if n % 2 = 0 then n else if n / 2 % 2 = 0 then n - 1 else n + 1 := by
  have hn : n ≠ 0 := by omega
  have hlog : n.log2 = 53 := by
    have hlt := (Nat.log2_lt hn).mpr h'
    have hle : 53 ≤ n.log2 := (Nat.le_log2 hn).mpr (by unfold maxSafeInteger at h; omega)
    omega
  simp only [nearestDouble, hlog, show 2 ^ (53 - 52) = 2 from rfl]
  rcases Nat.mod_two_eq_zero_or_one n with heven | hodd
  · rw [if_pos (.inl (by omega)), if_pos heven]
    omega
  · -- it lies in the middle between two doubles
    rw [if_neg (show ¬ n % 2 = 0 by omega)]
    by_cases hq : n / 2 % 2 = 0
    · rw [if_pos (.inr ⟨by omega, hq⟩), if_pos hq]
      omega
    · rw [if_neg (by omega), if_neg hq]
      omega

/-- The sum of two integers in the range is the double that it is rounded to, or it is odd. -/
theorem nearestDouble_eq_iff {n : ℕ} (h : n < 2 ^ 54) :
    nearestDouble n = n ↔ n ≤ maxSafeInteger ∨ n % 2 = 0 := by
  by_cases hn : n ≤ maxSafeInteger
  · simp only [nearestDouble_eq hn, hn, true_or]
  · rw [nearestDouble_beyond (not_le.mp hn) h]
    by_cases heven : n % 2 = 0
    · simp only [heven, if_true, or_true]
    · simp only [heven, hn, if_false, or_self, iff_false]
      split <;> omega

theorem shortest_beyond {n : ℕ} (heven : n % 2 = 0) (h : n < 2 ^ 54) (k : ℕ) : shortest n k = n := by
  induction k with
  | zero => rfl
  | succ k ih =>
    have hten : 10 ^ (k + 1) % 2 = 0 := by
      rw [pow_succ]
      omega
    have hlo : n / 10 ^ (k + 1) * 10 ^ (k + 1) % 2 = 0 := by rw [Nat.mul_mod, hten, mul_zero, Nat.zero_mod]
    have hpos : 0 < 10 ^ (k + 1) := Nat.pow_pos (by decide)
    have hle : n / 10 ^ (k + 1) * 10 ^ (k + 1) ≤ n := Nat.div_mul_le_self _ _
    have hlt : n < n / 10 ^ (k + 1) * 10 ^ (k + 1) + 10 ^ (k + 1) := by
      have := Nat.lt_div_mul_add hpos (a := n)
      omega
    simp only [shortest, readsBack?]
    generalize n / 10 ^ (k + 1) * 10 ^ (k + 1) = lo at *
    -- the multiple above is a double of its own, or far away
    have hhi : nearestDouble (lo + 10 ^ (k + 1)) ≠ n := by
      by_cases hsmall : lo + 10 ^ (k + 1) < 2 ^ 54
      · rw [(nearestDouble_eq_iff hsmall).mpr (.inr (by omega))]
        omega
      · have := le_nearestDouble (by decide : 53 ≤ 54) (not_lt.mp hsmall)
        omega
    rw [(nearestDouble_eq_iff (by omega)).mpr (.inr hlo)]
    simp only [hhi, false_and, if_false]
    split
    · simpa
    · simpa using ih

/-- A number that is stored exactly is written out exactly, up to `2 ^ 54`. -/
theorem decimal_number {x : ℤ} (h₀ : 0 ≤ x) (h : x < 2 ^ 54 - 1) : decimal (number x) = number x := by
  obtain ⟨n, rfl⟩ := Int.eq_ofNat_of_zero_le h₀
  by_cases hn : n ≤ maxSafeInteger
  · rw [number_eq (by simpa using hn), decimal_eq (by simpa using hn)]
  · have hdouble := nearestDouble_beyond (not_le.mp hn) (by omega)
    have heven : nearestDouble n % 2 = 0 := by
      rw [hdouble]
      split
      · assumption
      · split <;> omega
    have hlt : nearestDouble n < 2 ^ 54 := by
      rw [hdouble]
      split
      · omega
      · split <;> omega
    have hsign : (n : ℤ).sign = 1 := Int.sign_eq_one_of_pos (by omega)
    have hpos : (nearestDouble n : ℤ).sign = 1 := Int.sign_eq_one_of_pos (by
      have := maxSafeInteger_lt_nearestDouble (not_le.mp hn)
      omega)
    simp only [decimal, number, Int.natAbs_natCast, hsign, one_mul, hpos, shortest_beyond heven hlt]

theorem number_neg {x : ℤ} (h : x < 0) : number x < 0 := by
  have hpos : 0 < nearestDouble x.natAbs := by
    by_cases hx : x.natAbs ≤ maxSafeInteger
    · rw [nearestDouble_eq hx]
      omega
    · have := maxSafeInteger_lt_nearestDouble (not_le.mp hx)
      omega
  rw [number, Int.sign_eq_neg_one_of_neg h]
  omega

/-- The first sum that goes wrong. -/
example : number (number (2 ^ 53 - 1) + 2) = 2 ^ 53 := by decide

example : decimal (2 ^ 60) = 1152921504606847000 := by decide +kernel

end Numeric
