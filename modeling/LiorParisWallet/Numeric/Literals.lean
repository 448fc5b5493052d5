import Mathlib.Algebra.Order.Ring.Int
import Mathlib.Data.Int.Notation
import Mathlib.Data.Nat.Notation

/-!
# Numbers in JSON

What `JSON.parse` makes of a number literal: the double that is nearest to the decimal.
-/

namespace Numeric

/-- `± digits * 10 ^ exponent` -/
structure Decimal where
  negative : Bool
  digits : ℕ
  exponent : ℤ

def natOfDigits (cs : List Char) : ℕ := cs.foldl (fun n c => 10 * n + (c.toNat - 48)) 0

/-- What follows the `e` of a literal. -/
def readExponent : List Char → ℤ
  | '-' :: cs => -natOfDigits cs
  | '+' :: cs => natOfDigits cs
  | cs => natOfDigits cs

/-- The decimal that a literal stands for: a sign, digits, perhaps a fraction and perhaps an exponent. -/
def readDecimal (literal : String) : Decimal :=
  let cs := literal.toList
  let unsigned := if cs.head? = some '-' then cs.tail else cs
  let whole := unsigned.takeWhile Char.isDigit
  let rest := unsigned.dropWhile Char.isDigit
  let fraction := if rest.head? = some '.' then rest.tail.takeWhile Char.isDigit else []
  let exponent := if rest.head? = some '.' then rest.tail.dropWhile Char.isDigit else rest
  { negative := cs.head? = some '-'
    digits := natOfDigits (whole ++ fraction)
    exponent := readExponent exponent.tail - fraction.length }

/-- The smallest positive double is `2 ^ (-scale)`. -/
def scale : ℕ := 1074

/-- How many times the smallest positive double goes into 1. -/
def unit : ℕ := 2 ^ scale

theorem unit_pos : 0 < unit := Nat.two_pow_pos scale

/-- The double that is nearest to `n / d`, in units of `1 / unit`, the one with the even significand where two
    are. -/
def nearestRatio (n d : ℕ) : ℕ :=
  -- the distance of two neighbouring doubles, `d` times
  let ulp := 2 ^ ((n * unit / d).log2 - 52)
  let q := n * unit / (d * ulp)
  let r := n * unit % (d * ulp)
  if 2 * r < d * ulp ∨ (2 * r = d * ulp ∧ q % 2 = 0) then q * ulp else (q + 1) * ulp

/-- The magnitude of a literal, in units of `1 / unit`. -/
def magnitude (literal : String) : ℕ :=
  let x := readDecimal literal
  nearestRatio (x.digits * 10 ^ x.exponent.toNat) (10 ^ (-x.exponent).toNat)

/-- The number, if it is an integer: from `2 ^ 1024` on it is infinite. -/
def integer? (literal : String) : Option ℤ :=
  let x := magnitude literal
  if x < 2 ^ 1024 * unit ∧ x % unit = 0 then
    some (if (readDecimal literal).negative then -(x / unit : ℕ) else (x / unit : ℕ))
  else none

/-- The number is at least `m`, which is positive. -/
def atLeast (m : ℕ) (literal : String) : Bool :=
  !(readDecimal literal).negative && m * unit ≤ magnitude literal

example : (["5", "5.0", "0.05e2", "9007199254740993", "5.5", "-2"].map integer?) =
    [some 5, some 5, some 5, some 9007199254740992, none, some (-2)] := by decide +kernel

end Numeric
