import Mathlib.Data.Int.Notation
import Mathlib.Data.Fin.Basic

/-!
# How a number is written

`Number.prototype.toString` for any number, given the digits that it writes.
-/

namespace Numeric

/-- A JavaScript number.  `decimal` is the number `0.d₁d₂… * 10 ^ point` in the fewest digits that read back
    as the number; the first of them is not zero. -/
inductive JsNumber where
  | nan
  | infinity (negative : Bool)
  | zero
  | decimal (negative : Bool) (first : Fin 10) (rest : List (Fin 10)) (point : ℤ)
deriving DecidableEq, Repr

def digitChars (ds : List (Fin 10)) : List Char := ds.map fun d => Nat.digitChar d.val

/-- The digits with the decimal point where it belongs, or with an exponent where that is too far away. -/
def placed (digits : List Char) (point : ℤ) : List Char :=
  let k := digits.length
  if k ≤ point ∧ point ≤ 21 then digits ++ List.replicate (point.toNat - k) '0'
  else if 0 < point ∧ point ≤ 21 then digits.take point.toNat ++ '.' :: digits.drop point.toNat
  else if -6 < point ∧ point ≤ 0 then '0' :: '.' :: List.replicate point.natAbs '0' ++ digits
  else
    let exponent := point - 1
    let fraction := if k = 1 then [] else '.' :: digits.drop 1
    digits.take 1 ++ fraction ++
      'e' :: (if exponent < 0 then '-' else '+') :: Nat.toDigits 10 exponent.natAbs

def signed (negative : Bool) (cs : List Char) : List Char := if negative then '-' :: cs else cs

/-- `String(x)` -/
def JsNumber.text : JsNumber → List Char
  | .nan => ['N', 'a', 'N']
  | .infinity negative => signed negative ['I', 'n', 'f', 'i', 'n', 'i', 't', 'y']
  | .zero => ['0']
  | .decimal negative first rest point => signed negative (placed (digitChars (first :: rest)) point)

example : (JsNumber.decimal false 1 [2] 1).text = ['1', '.', '2'] := by decide

example : (JsNumber.decimal true 5 [] (-6)).text = ['-', '5', 'e', '-', '7'] := by decide

/-- The characters that numbers are written with. -/
def isNumeralChar (c : Char) : Bool :=
  c.isDigit || ['.', 'e', '+', '-', 'N', 'a', 'I', 'n', 'f', 'i', 't', 'y'].contains c

theorem isNumeralChar_of_isDigit {c : Char} (h : c.isDigit = true) : isNumeralChar c = true := by
  simp [isNumeralChar, h]

theorem isDigit_digitChar (d : Fin 10) : (Nat.digitChar d.val).isDigit = true := by
  revert d
  decide

theorem isNumeralChar_digitChars (ds : List (Fin 10)) : ∀ c ∈ digitChars ds, isNumeralChar c = true := by
  intro c hc
  obtain ⟨d, -, rfl⟩ := List.mem_map.mp hc
  exact isNumeralChar_of_isDigit (isDigit_digitChar d)

theorem isNumeralChar_placed {digits : List Char} (h : ∀ c ∈ digits, isNumeralChar c = true) (point : ℤ) :
    ∀ c ∈ placed digits point, isNumeralChar c = true := by
  have hzeros : ∀ n, ∀ c ∈ List.replicate n '0', isNumeralChar c = true := by
    intro n c hc
    rw [List.eq_of_mem_replicate hc]
    decide
  have htake : ∀ n, ∀ c ∈ digits.take n, isNumeralChar c = true :=
    fun n c hc => h c (List.mem_of_mem_take hc)
  have hdrop : ∀ n, ∀ c ∈ digits.drop n, isNumeralChar c = true :=
    fun n c hc => h c (List.mem_of_mem_drop hc)
  have hpoint : isNumeralChar '.' = true := by decide
  unfold placed
  dsimp only
  split
  · exact List.forall_mem_append.mpr ⟨h, hzeros _⟩
  split
  · exact List.forall_mem_append.mpr ⟨htake _, List.forall_mem_cons.mpr ⟨hpoint, hdrop _⟩⟩
  split
  · rw [List.cons_append, List.cons_append, List.forall_mem_cons, List.forall_mem_cons]
    exact ⟨by decide, hpoint, List.forall_mem_append.mpr ⟨hzeros _, h⟩⟩
  · have hexponent : ∀ n, ∀ c ∈ Nat.toDigits 10 n, isNumeralChar c = true := fun n c hc =>
      isNumeralChar_of_isDigit (Nat.isDigit_of_mem_toDigits (by decide) (by decide) hc)
    rw [List.forall_mem_append, List.forall_mem_append, List.forall_mem_cons, List.forall_mem_cons]
    refine ⟨⟨htake _, ?_⟩, by decide, ?_, hexponent _⟩
    · split
      · simp
      · exact List.forall_mem_cons.mpr ⟨hpoint, hdrop _⟩
    · split <;> decide

theorem isNumeralChar_signed {cs : List Char} (h : ∀ c ∈ cs, isNumeralChar c = true) (negative : Bool) :
    ∀ c ∈ signed negative cs, isNumeralChar c = true := by
  cases negative with
  | false => exact h
  | true => exact List.forall_mem_cons.mpr ⟨by decide, h⟩

theorem isNumeralChar_text (x : JsNumber) : ∀ c ∈ x.text, isNumeralChar c = true := by
  cases x with
  | nan => exact List.all_eq_true.mp rfl
  | infinity negative => exact isNumeralChar_signed (List.all_eq_true.mp rfl) negative
  | zero => exact List.all_eq_true.mp rfl
  | decimal negative first rest point =>
    exact isNumeralChar_signed (isNumeralChar_placed (isNumeralChar_digitChars _) point) negative

end Numeric
