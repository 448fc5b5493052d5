import LiorParisWallet.Numeric.Doubles
import LiorParisWallet.Shared.Constants

/-!
# `format-currency.ts`

The amount is a JavaScript number, which may be `NaN`, or a string of digits; it is divided by 100 in doubles.
-/

namespace LiorParisWallet

open Numeric

/-- White space and line ends, which `trim` and `parseInt` pass over. -/
def isSpace (c : Char) : Bool :=
  let n := c.toNat
  (9 ≤ n && n ≤ 13) || n = 0x20 || n = 0xA0 || n = 0x1680 || (0x2000 ≤ n && n ≤ 0x200A) || n = 0x2028 ||
    n = 0x2029 || n = 0x202F || n = 0x205F || n = 0x3000 || n = 0xFEFF

def trim (s : String) : String :=
  String.ofList ((s.toList.dropWhile isSpace).reverse.dropWhile isSpace).reverse

/-- `toUpperCase`, for the letters of which currency codes consist. -/
def toUpperCase (s : String) : String := String.ofList (s.toList.map Char.toUpper)

/-- `Number.parseInt(s, 10)`, where `none` is `NaN`. -/
def parseInt (s : String) : Option ℤ :=
  let cs := s.toList.dropWhile isSpace
  let digits := (if cs.head? = some '-' ∨ cs.head? = some '+' then cs.tail else cs).takeWhile Char.isDigit
  let n : ℕ := digits.foldl (fun n c => 10 * n + (c.toNat - 48)) 0
  if digits = [] then none
  else some (number (if cs.head? = some '-' then -n else n))

/-- `(cents / 100).toFixed(2)` -/
def major : Option ℤ → String
  | none => "NaN"
  | some cents =>
      let x := quotient cents.natAbs 100
      let sign := if cents < 0 then "-" else ""
      if x < 10 ^ 21 * 2 ^ 65 then
        -- the integer that is nearest to `100 * x`, the larger one where two are
        let n := (200 * x + 2 ^ 65) / 2 ^ 66
        sign ++ toString (n / 100) ++ "." ++ String.ofList [Nat.digitChar (n / 10 % 10), Nat.digitChar (n % 10)]
      else sign ++ numeral (x / 2 ^ 65)

/-- The two arguments are what the payload has under these names, perhaps nothing. -/
def formatCurrency (amountInCents currency : Option Value) : Except Err String := do
  let cents := match amountInCents with
    | some (.string s) => parseInt s
    | some (.number n) => some n
    | none => none
  let code ← match currency with
    | some (.string s) => pure (toUpperCase s)
    -- a number has no `toUpperCase`
    | some (.number _) => throw .typeError
    | none => pure ""
  return trim (major cents ++ " " ++ code)

/-- A committed amount can always be formatted. -/
theorem formatCurrency_string (amountInCents : Option Value) (currency : String) :
    ∃ formatted, formatCurrency amountInCents (some (.string currency)) = .ok formatted :=
  ⟨_, rfl⟩

example : formatCurrency (some (.number 5000)) (some (.string "eur")) = .ok "50.00 EUR" := by decide +kernel

end LiorParisWallet
