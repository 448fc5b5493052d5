import Mathlib.Tactic.Ring
import LiorParisWallet.Numeric.Doubles

/-!
# Rounding errors

A double is off by half the distance of two doubles at most.  So a fraction that was rounded to a double can be
rounded back to a multiple of `1 / d`, as long as the doubles lie closer than these multiples.
-/

namespace Numeric

variable {n d k : ℕ}

/-- The nearest double is at most half a distance away, on either side. -/
theorem nearestDouble_error (n : ℕ) : 2 * nearestDouble n ≤ 2 * n + 2 ^ (n.log2 - 52) ∧
    2 * n ≤ 2 * nearestDouble n + 2 ^ (n.log2 - 52) := by
  unfold nearestDouble
  dsimp only
  have hlt : n % 2 ^ (n.log2 - 52) < 2 ^ (n.log2 - 52) := Nat.mod_lt n (Nat.two_pow_pos _)
  generalize 2 ^ (n.log2 - 52) = ulp at hlt ⊢
  have hsplit : n / ulp * ulp + n % ulp = n := Nat.div_add_mod' n ulp
  split
  · omega
  · rename_i hfar
    rw [Nat.add_mul, Nat.one_mul]
    omega

/-- The double of a quotient, before it is rounded to 53 bits. -/
theorem scaled_error (hd : 0 < d) (n : ℕ) :
    let m := 2 * (n / d) + if n % d = 0 then 0 else 1
    d * m ≤ 2 * n + d ∧ 2 * n ≤ d * m + d := by
  have hsplit : d * (n / d) + n % d = n := Nat.div_add_mod n d
  have hlt : n % d < d := Nat.mod_lt n hd
  dsimp only
  rw [Nat.mul_add, Nat.mul_left_comm]
  split
  · omega
  · omega

/-- The double of `n / d` is off by less than half of `1 / d`. -/
theorem quotient_error (hd : 0 < d) (hn : n < d * 2 ^ k) (hk : d * (2 ^ (k + 11) + 1) < 2 ^ 64) :
    d * quotient n d < n * 2 ^ 65 + 2 ^ 64 ∧ n * 2 ^ 65 < d * quotient n d + 2 ^ 64 := by
  unfold quotient
  dsimp only
  have hscaled := scaled_error hd (n * 2 ^ 64)
  dsimp only at hscaled
  have hsmall : n * 2 ^ 64 / d < 2 ^ (k + 64) := by
    rw [Nat.div_lt_iff_lt_mul hd, pow_add, Nat.mul_right_comm, Nat.mul_comm (2 ^ k)]
    exact Nat.mul_lt_mul_of_pos_right hn (by decide)
  generalize hm : 2 * (n * 2 ^ 64 / d) + (if n * 2 ^ 64 % d = 0 then 0 else 1) = m at hscaled ⊢
  have hbits : m < 2 ^ (k + 65) := by
    have hpow : 2 ^ (k + 65) = 2 * 2 ^ (k + 64) := by ring
    rw [hpow, ← hm]
    split <;> omega
  -- so two doubles in this range are `2 ^ (k + 12)` apart at most
  have hulp : 2 ^ (m.log2 - 52) ≤ 2 ^ (k + 12) := by
    apply Nat.pow_le_pow_right (by decide)
    by_cases h₀ : m = 0
    · subst h₀
      simp
    · have hlog : m.log2 < k + 65 := (Nat.log2_lt h₀).mpr hbits
      omega
  obtain ⟨hup, hdown⟩ := nearestDouble_error m
  have hhalf : 2 ^ (k + 12) = 2 * 2 ^ (k + 11) := by ring
  have hup' : d * nearestDouble m ≤ d * (m + 2 ^ (k + 11)) := Nat.mul_le_mul_left d (by omega)
  have hdown' : d * m ≤ d * (nearestDouble m + 2 ^ (k + 11)) := Nat.mul_le_mul_left d (by omega)
  rw [Nat.mul_add] at hup' hdown' hk
  rw [Nat.mul_one] at hk
  omega

/-- Rounded to the nearest multiple of `1 / d`, the double of `n / d` gives `n` back. -/
theorem round_quotient (hd : 0 < d) (hn : n < d * 2 ^ k) (hk : d * (2 ^ (k + 11) + 1) < 2 ^ 64) :
    (2 * (d * quotient n d) + 2 ^ 65) / 2 ^ 66 = n := by
  obtain ⟨hup, hdown⟩ := quotient_error hd hn hk
  generalize d * quotient n d = x at hup hdown ⊢
  omega

end Numeric
