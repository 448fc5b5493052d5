import Mathlib.Algebra.BigOperators.Group.List.Basic

/-!
# Account statements

A statement is a sequence of entries, each with the balance it leaves behind.  It is in order when every
balance is the one before it plus the change of its entry, and none is negative.
-/

namespace Accounting

variable {ε M : Type} [AddMonoid M] [LE M] {change after : ε → M}

/-- The entries lead from the opening to the closing balance. -/
def Statement (change after : ε → M) : M → List ε → M → Prop
  | opening, [], closing => closing = opening
  | opening, e :: es, closing =>
      after e = opening + change e ∧ 0 ≤ after e ∧ Statement change after (after e) es closing

namespace Statement

theorem append {opening middle closing : M} {es es' : List ε}
    (h : Statement change after opening es middle) (h' : Statement change after middle es' closing) :
    Statement change after opening (es ++ es') closing := by
  induction es generalizing opening with
  | nil => cases h; exact h'
  | cons e es ih => exact ⟨h.1, h.2.1, ih h.2.2⟩

theorem concat {opening closing : M} {es : List ε} {e : ε}
    (h : Statement change after opening es closing) (he : after e = closing + change e)
    (hnn : 0 ≤ after e) : Statement change after opening (es ++ [e]) (after e) :=
  h.append ⟨he, hnn, rfl⟩

theorem closing_nonneg {opening closing : M} {es : List ε}
    (h : Statement change after opening es closing) (hnn : 0 ≤ opening) : 0 ≤ closing := by
  induction es generalizing opening with
  | nil => cases h; exact hnn
  | cons e es ih => exact ih h.2.2 h.2.1

/-- The closing balance is the one that the last entry states. -/
theorem closing_eq_last {opening closing : M} {es : List ε}
    (h : Statement change after opening es closing) :
    closing = (es.getLast?.map after).getD opening := by
  induction es generalizing opening with
  | nil => exact h
  | cons e es ih =>
    rw [ih h.2.2, List.getLast?_cons]
    cases es.getLast? <;> rfl

/-- The closing balance is the opening balance and all the changes. -/
theorem closing_eq {opening closing : M} {es : List ε}
    (h : Statement change after opening es closing) : closing = opening + (es.map change).sum := by
  induction es generalizing opening with
  | nil => cases h; simp
  | cons e es ih => rw [ih h.2.2, h.1, List.map_cons, List.sum_cons, add_assoc]

end Statement

end Accounting
