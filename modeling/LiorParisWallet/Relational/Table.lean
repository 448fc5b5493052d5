import Mathlib.Algebra.BigOperators.Group.List.Basic
import Mathlib.Algebra.Ring.Int.Defs
import Mathlib.Data.List.Nodup
import Mathlib.Data.List.Pairwise

/-!
# Tables with unique indexes

A table is a list of rows in insertion order.  Which two rows cannot stand in one table (because they
share the primary key or the value of a unique index) is a property of the entity, and a table carries
the proof that no two of its rows do, so a duplicate cannot be stored.
-/

namespace Relational

class Entity (ρ : Type) where
  /-- The rows have the same primary key or the same value of a unique index. -/
  clash : ρ → ρ → Bool
  clash_self : ∀ a, clash a a = true
  clash_comm : ∀ a b, clash a b = clash b a

structure Table (ρ : Type) [Entity ρ] where
  rows : List ρ
  unique : rows.Pairwise fun a b => Entity.clash a b = false

namespace Table

variable {ρ : Type} [Entity ρ]

open Entity

@[ext]
theorem ext {t t' : Table ρ} (h : t.rows = t'.rows) : t = t' := by
  cases t
  cases t'
  cases h
  rfl

instance : Membership ρ (Table ρ) := ⟨fun t a => a ∈ t.rows⟩

def empty : Table ρ := ⟨[], List.Pairwise.nil⟩

def find? (t : Table ρ) (p : ρ → Bool) : Option ρ := t.rows.find? p

/-- `INSERT`: refused when a stored row clashes with the new one. -/
def insert? (t : Table ρ) (r : ρ) : Option (Table ρ) :=
  if h : ∀ a ∈ t.rows, clash a r = false then
    some ⟨t.rows ++ [r], List.pairwise_append.mpr
      ⟨t.unique, List.pairwise_singleton _ _, fun a ha _ hb => List.mem_singleton.mp hb ▸ h a ha⟩⟩
  else none

/-- `UPDATE … WHERE p`, for an update that touches no unique column. -/
def update (t : Table ρ) (p : ρ → Bool) (f : ρ → ρ)
    (hf : ∀ a b, clash (f a) b = clash a b) : Table ρ where
  rows := t.rows.map fun r => if p r then f r else r
  unique := by
    refine List.pairwise_map.mpr (t.unique.imp fun {a b} hab => ?_)
    have hl : ∀ a b : ρ, clash (if p a then f a else a) b = clash a b := by
      intro a b
      split
      · exact hf a b
      · rfl
    -- `hl` replaces the first row of a clash, so the second has to be turned to the front
    rw [hl, clash_comm, hl, clash_comm]
    exact hab

/-- `DELETE … WHERE p` -/
def delete (t : Table ρ) (p : ρ → Bool) : Table ρ where
  rows := t.rows.filter fun r => !p r
  unique := t.unique.filter _

theorem mem_def {t : Table ρ} {a : ρ} : a ∈ t ↔ a ∈ t.rows := Iff.rfl

theorem not_mem_empty (a : ρ) : a ∉ (empty : Table ρ) := List.not_mem_nil

/-- Rows that share a unique value are one row. -/
theorem eq_of_clash {t : Table ρ} {a b : ρ} (ha : a ∈ t) (hb : b ∈ t) (h : clash a b = true) :
    a = b := by
  by_contra hne
  have hsymm : Std.Symm fun a b : ρ => clash a b = false :=
    ⟨fun a b hab => (clash_comm b a).trans hab⟩
  have := t.unique.forall ha hb hne
  rw [h] at this
  exact Bool.noConfusion this

theorem nodup (t : Table ρ) : t.rows.Nodup :=
  t.unique.imp fun {a b} hab heq => by
    rw [heq, clash_self] at hab
    exact Bool.noConfusion hab

theorem mem_of_find? {t : Table ρ} {p : ρ → Bool} {a : ρ} (h : t.find? p = some a) :
    a ∈ t ∧ p a = true :=
  ⟨List.mem_of_find?_eq_some h, List.find?_some h⟩

theorem find?_eq_none {t : Table ρ} {p : ρ → Bool} :
    t.find? p = none ↔ ∀ a ∈ t, p a = false := by
  refine List.find?_eq_none.trans (forall₂_congr fun a _ => ?_)
  rw [Bool.not_eq_true]

/-- A lookup by the value of a unique index finds the row that has it. -/
theorem find?_eq_some {t : Table ρ} {p : ρ → Bool} {a : ρ} (ha : a ∈ t) (hp : p a = true)
    (hu : ∀ b, p b = true → clash a b = true) : t.find? p = some a := by
  cases h : t.find? p with
  | none => exact absurd hp (by rw [find?_eq_none.mp h a ha]; exact Bool.false_ne_true)
  | some b =>
    obtain ⟨hb, hpb⟩ := mem_of_find? h
    rw [eq_of_clash ha hb (hu b hpb)]

/-! ## Inserting -/

theorem insert?_eq_some {t t' : Table ρ} {r : ρ} (h : t.insert? r = some t') :
    (∀ a ∈ t, clash a r = false) ∧ t'.rows = t.rows ++ [r] := by
  unfold insert? at h
  split at h
  · rename_i hc
    cases h
    exact ⟨hc, rfl⟩
  · cases h

theorem insert?_isSome {t : Table ρ} {r : ρ} :
    (t.insert? r).isSome ↔ ∀ a ∈ t, clash a r = false := by
  unfold insert?
  split
  · rename_i hc
    exact ⟨fun _ => hc, fun _ => rfl⟩
  · rename_i hc
    exact ⟨fun h => Bool.noConfusion h, fun h => absurd h hc⟩

/-- A row is refused when a lookup by its unique values finds a row. -/
theorem insert?_eq_none_iff {t : Table ρ} {r : ρ} :
    t.insert? r = none ↔ ∃ a, t.find? (clash · r) = some a := by
  rw [← Option.isSome_iff_exists, ← not_iff_not, Bool.not_eq_true, Option.isSome_eq_false_iff,
    Option.isNone_iff_eq_none, find?_eq_none, ← Ne, ← Option.isSome_iff_ne_none]
  exact insert?_isSome

theorem find?_insert? {t t' : Table ρ} {r : ρ} (h : t.insert? r = some t') (p : ρ → Bool) :
    t'.find? p = (t.find? p).or (if p r then some r else none) := by
  unfold find?
  rw [(insert?_eq_some h).2, List.find?_append, List.find?_singleton]

theorem mem_insert? {t t' : Table ρ} {r a : ρ} (h : t.insert? r = some t') :
    a ∈ t' ↔ a ∈ t ∨ a = r := by
  rw [mem_def, (insert?_eq_some h).2, List.mem_append, List.mem_singleton]
  exact Iff.rfl

/-! ## Updating and deleting -/

/-- A lookup that the update cannot disturb finds the same row, updated. -/
theorem find?_update {t : Table ρ} {p q : ρ → Bool} {f : ρ → ρ}
    (hf : ∀ a b, clash (f a) b = clash a b) (hq : ∀ a, q (f a) = q a) :
    (t.update p f hf).find? q = (t.find? q).map fun a => if p a then f a else a := by
  have hcomp : (q ∘ fun a => if p a then f a else a) = q := by
    funext a
    show q (if p a then f a else a) = q a
    split
    · exact hq a
    · rfl
  show (t.rows.map _).find? q = _
  rw [List.find?_map, hcomp]
  rfl

theorem mem_delete {t : Table ρ} {p : ρ → Bool} {a : ρ} :
    a ∈ t.delete p ↔ a ∈ t ∧ p a = false := by
  rw [mem_def, delete, List.mem_filter, Bool.not_eq_true']
  exact Iff.rfl

omit [Entity ρ] in
theorem map_update_of_not {l : List ρ} {p : ρ → Bool} {f : ρ → ρ} (hp : ∀ b ∈ l, p b = false) :
    (l.map fun r => if p r then f r else r) = l := by
  refine (List.map_congr_left fun b hb => ?_).trans (List.map_id l)
  rw [if_neg (by rw [hp b hb]; exact Bool.false_ne_true)]
  rfl

/-- The row that was inserted last is written. -/
theorem rows_update_last {t t' : Table ρ} {r : ρ} (h : t.insert? r = some t') {p : ρ → Bool}
    (hr : p r = true) (hp : ∀ a, p a = true → clash a r = true) (f : ρ → ρ)
    (hf : ∀ a b, clash (f a) b = clash a b) : (t'.update p f hf).rows = t.rows ++ [f r] := by
  obtain ⟨hfresh, hrows⟩ := insert?_eq_some h
  have hothers : ∀ a ∈ t.rows, p a = false := fun a ha => by
    rw [← Bool.not_eq_true]
    intro hpa
    have := hp a hpa
    rw [hfresh a ha] at this
    cases this
  simp only [update, hrows, List.map_append, List.map_singleton, hr, if_true]
  rw [map_update_of_not hothers]

/-- An update of the one row that `p` selects changes a sum over the table by what that row gains. -/
theorem sum_update {t : Table ρ} {p : ρ → Bool} {f : ρ → ρ} {a : ρ} (ha : a ∈ t)
    (hp : ∀ b ∈ t, p b = true ↔ b = a) (g : ρ → ℤ) :
    ((t.rows.map fun r => if p r then f r else r).map g).sum =
      (t.rows.map g).sum + (g (f a) - g a) := by
  -- the table is split at `a`, and `p` selects no row of the two parts
  obtain ⟨l₁, l₂, hl⟩ := List.append_of_mem (mem_def.mp ha)
  have hnd := t.nodup
  rw [hl] at hnd
  obtain ⟨_, hnd₂, hdisj⟩ := List.nodup_append.mp hnd
  have hne : ∀ b, b ∈ l₁ ∨ b ∈ l₂ → p b = false := by
    intro b hb
    have hbt : b ∈ t := by
      rw [mem_def, hl]
      rcases hb with hb | hb <;> simp [hb]
    have hba : b ≠ a := by
      rcases hb with hb | hb
      · exact hdisj b hb a List.mem_cons_self
      · exact fun h => (List.nodup_cons.mp hnd₂).1 (h ▸ hb)
    exact Bool.eq_false_iff.mpr fun h => hba ((hp b hbt).mp h)
  have hrows : (t.rows.map fun r => if p r then f r else r) = l₁ ++ f a :: l₂ := by
    simp only [hl, List.map_append, List.map_cons]
    rw [map_update_of_not fun b hb => hne b (.inl hb), map_update_of_not fun b hb => hne b (.inr hb),
      if_pos ((hp a ha).mpr rfl)]
  rw [hrows, hl]
  simp only [List.map_append, List.map_cons, List.sum_append, List.sum_cons]
  omega

end Table

end Relational
