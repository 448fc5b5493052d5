import LiorParisWallet.Relational.Table
import Mathlib.Data.List.Forall2

/-!
# Tables that agree row by row

Two tables with related rows, where the relation keeps which rows clash, accept the same inserts and
find related rows.
-/

namespace Relational

theorem forall₂_filter {α β : Type} {R : α → β → Prop} {l : List α} {l' : List β} (h : List.Forall₂ R l l')
    {p : α → Bool} {p' : β → Bool} (hp : ∀ a a', R a a' → p a = p' a') :
    List.Forall₂ R (l.filter p) (l'.filter p') := by
  induction h with
  | nil => exact .nil
  | @cons a a' l l' ha _ ih =>
    rw [List.filter_cons, List.filter_cons, ← hp a a' ha]
    split
    · exact .cons ha ih
    · exact ih

namespace Table

variable {ρ σ : Type} [Entity ρ] [Entity σ] {R : ρ → σ → Prop}

open Entity

/-- The rows are related one by one. -/
def Alike (R : ρ → σ → Prop) (t : Table ρ) (t' : Table σ) : Prop := List.Forall₂ R t.rows t'.rows

variable {t : Table ρ} {t' : Table σ}

theorem Alike.find? (h : Alike R t t') {p : ρ → Bool} {p' : σ → Bool}
    (hp : ∀ a a', R a a' → p a = p' a') : Option.Rel R (t.find? p) (t'.find? p') := by
  show Option.Rel R (t.rows.find? p) (t'.rows.find? p')
  unfold Alike at h
  generalize t.rows = l at h ⊢
  generalize t'.rows = l' at h ⊢
  induction h with
  | nil => exact .none
  | @cons a a' l l' ha _ ih =>
    rw [List.find?_cons, List.find?_cons, ← hp a a' ha]
    cases p a with
    | true => exact .some ha
    | false => exact ih

theorem Alike.insert? (h : Alike R t t') {r : ρ} {r' : σ} (hr : R r r')
    (hclash : ∀ a a', R a a' → clash a r = clash a' r') :
    Option.Rel (Alike R) (t.insert? r) (t'.insert? r') := by
  -- the new row clashes with a row of the one table exactly if it does with that row's partner
  have hiff : (∀ a ∈ t.rows, clash a r = false) ↔ ∀ a' ∈ t'.rows, clash a' r' = false := by
    obtain ⟨hlen, hget⟩ := List.forall₂_iff_get.mp h
    simp only [List.forall_mem_iff_getElem]
    constructor
    · intro hc i hi
      exact (hclash _ _ (hget i (hlen ▸ hi) hi)).symm.trans (hc i (hlen ▸ hi))
    · intro hc i hi
      exact (hclash _ _ (hget i hi (hlen ▸ hi))).trans (hc i (hlen ▸ hi))
  unfold Table.insert?
  by_cases hc : ∀ a ∈ t.rows, clash a r = false
  · rw [dif_pos hc, dif_pos (hiff.mp hc)]
    exact .some (List.rel_append h (.cons hr .nil))
  · rw [dif_neg hc, dif_neg fun hc' => hc (hiff.mpr hc')]
    exact .none

theorem Alike.update (h : Alike R t t') {p : ρ → Bool} {p' : σ → Bool} {f : ρ → ρ} {f' : σ → σ}
    (hf : ∀ a b, clash (f a) b = clash a b) (hf' : ∀ a b, clash (f' a) b = clash a b)
    (hp : ∀ a a', R a a' → p a = p' a') (hR : ∀ a a', R a a' → R (f a) (f' a')) :
    Alike R (t.update p f hf) (t'.update p' f' hf') := by
  refine List.rel_map (R := R) ?_ h
  intro a a' ha
  show R (if p a then f a else a) (if p' a' then f' a' else a')
  rw [← hp a a' ha]
  split
  · exact hR a a' ha
  · exact ha

theorem Alike.delete (h : Alike R t t') {p : ρ → Bool} {p' : σ → Bool} (hp : ∀ a a', R a a' → p a = p' a') :
    Alike R (t.delete p) (t'.delete p') :=
  forall₂_filter h fun a a' ha => congrArg not (hp a a' ha)

end Table

end Relational
