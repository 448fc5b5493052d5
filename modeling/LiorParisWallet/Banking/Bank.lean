import Mathlib.Algebra.BigOperators.Finprod

/-!
# A bank

What a bank is for, apart from any program: accounts are opened, money that has come from outside is credited
to them, money moves between two accounts of one currency, and the accounts of an owner are closed.  A bank
never overdraws an account, and what it holds in a currency changes only with credits and closings.
-/

namespace Banking

open scoped Classical

noncomputable section

variable {A U C K : Type}

structure Account (U C : Type) where
  owner : U
  currency : C
  balance : ℤ

/-- The accounts by their ids. -/
@[ext] structure Bank (A U C : Type) where
  account : A → Option (Account U C)
  finite : {a | account a ≠ none}.Finite

/-- `K` are the keys by which the owners tell their payments apart. -/
inductive Action (A U C K : Type) where
  | opened (a : A) (owner : U) (currency : C)
  | credited (a : A) (amount : ℤ) (key : K)
  | moved (source target : A) (amount : ℤ) (key : K)
  | closed (owner : U)

namespace Bank

def empty : Bank A U C := ⟨fun _ => none, by simp⟩

def set (b : Bank A U C) (a : A) (x : Account U C) : Bank A U C where
  account := Function.update b.account a (some x)
  finite := by
    refine (b.finite.insert a).subset fun a' ha' => ?_
    by_cases heq : a' = a
    · exact .inl heq
    · refine .inr fun hnone => ha' ?_
      rw [Function.update_of_ne heq]
      exact hnone

/-- Without the accounts of `u`. -/
def without (b : Bank A U C) (u : U) : Bank A U C where
  account a := (b.account a).filter fun x => x.owner ≠ u
  finite := b.finite.subset fun a ha hnone => ha (by rw [hnone]; rfl)

/-- One action of the bank. -/
inductive Step (b : Bank A U C) : Action A U C K → Bank A U C → Prop where
  | opened {a : A} {u : U} {c : C} : b.account a = none →
      (∀ a' x, b.account a' = some x → x.owner = u → x.currency ≠ c) →
        Step b (.opened a u c) (b.set a ⟨u, c, 0⟩)
  | credited {a : A} {x : Account U C} {amount : ℤ} {key : K} : b.account a = some x → 0 < amount →
      Step b (.credited a amount key) (b.set a { x with balance := x.balance + amount })
  | moved {source target : A} {x y : Account U C} {amount : ℤ} {key : K} : b.account source = some x →
      b.account target = some y → source ≠ target → x.owner ≠ y.owner → x.currency = y.currency →
      0 < amount → amount ≤ x.balance →
        Step b (.moved source target amount key)
          ((b.set source { x with balance := x.balance - amount }).set target
            { y with balance := y.balance + amount })
  | closed (u : U) : Step b (.closed u) (b.without u)

@[simp] theorem account_set {b : Bank A U C} {a a' : A} {x : Account U C} :
    (b.set a x).account a' = if a' = a then some x else b.account a' := by
  show Function.update b.account a (some x) a' = _
  rw [Function.update_apply]

theorem account_without {b : Bank A U C} {u : U} {a : A} {x : Account U C} :
    (b.without u).account a = some x ↔ b.account a = some x ∧ x.owner ≠ u := by
  show (b.account a).filter _ = some x ↔ _
  rw [Option.filter_eq_some_iff, decide_eq_true_iff]

/-! ## No account is overdrawn -/

/-- Balances are not negative, and nobody has two accounts of one currency. -/
structure Sound (b : Bank A U C) : Prop where
  nonneg : ∀ a x, b.account a = some x → 0 ≤ x.balance
  unique : ∀ a a' x x', b.account a = some x → b.account a' = some x' → x.owner = x'.owner →
    x.currency = x'.currency → a = a'

variable {b b' : Bank A U C} {action : Action A U C K}

/-- A write to an account that keeps its owner and its currency. -/
theorem Sound.set (h : b.Sound) {a : A} {x y : Account U C} (hx : b.account a = some x)
    (howner : y.owner = x.owner) (hcurrency : y.currency = x.currency) (hnonneg : 0 ≤ y.balance) :
    (b.set a y).Sound where
  nonneg a' z hz := by
    rw [account_set] at hz
    split at hz
    · cases hz
      exact hnonneg
    · exact h.nonneg a' z hz
  unique a₁ a₂ x₁ x₂ h₁ h₂ ho hc := by
    have hold : ∀ a' z, (b.set a y).account a' = some z → ∃ z', b.account a' = some z' ∧
        z'.owner = z.owner ∧ z'.currency = z.currency := by
      intro a' z hz
      rw [account_set] at hz
      split at hz
      · rename_i heq
        cases hz
        exact ⟨x, heq ▸ hx, howner.symm, hcurrency.symm⟩
      · exact ⟨z, hz, rfl, rfl⟩
    obtain ⟨y₁, hy₁, ho₁, hc₁⟩ := hold a₁ x₁ h₁
    obtain ⟨y₂, hy₂, ho₂, hc₂⟩ := hold a₂ x₂ h₂
    exact h.unique a₁ a₂ y₁ y₂ hy₁ hy₂ (ho₁.trans (ho.trans ho₂.symm)) (hc₁.trans (hc.trans hc₂.symm))

theorem Step.sound (hstep : b.Step action b') (h : b.Sound) : b'.Sound := by
  cases hstep with
  | @opened a u c hnone hnew =>
    constructor
    · intro a' z hz
      rw [account_set] at hz
      split at hz
      · cases hz
        exact le_rfl
      · exact h.nonneg a' z hz
    · intro a₁ a₂ x₁ x₂ h₁ h₂ ho hc
      rw [account_set] at h₁ h₂
      split at h₁ <;> split at h₂
      · simp_all
      · cases h₁
        exact absurd hc.symm (hnew a₂ x₂ h₂ ho.symm)
      · cases h₂
        exact absurd hc (hnew a₁ x₁ h₁ ho)
      · exact h.unique a₁ a₂ x₁ x₂ h₁ h₂ ho hc
  | credited hx hamount =>
    have hnonneg := h.nonneg _ _ hx
    exact h.set hx rfl rfl (add_nonneg hnonneg hamount.le)
  | @moved source target x y amount key hx hy hne _ _ hamount henough =>
    have hnonneg := h.nonneg _ _ hy
    have htaken : (b.set source { x with balance := x.balance - amount }).Sound :=
      h.set hx rfl rfl (sub_nonneg.mpr henough)
    refine htaken.set (x := y) ?_ rfl rfl (add_nonneg hnonneg hamount.le)
    rw [account_set, if_neg (Ne.symm hne)]
    exact hy
  | closed u =>
    constructor
    · intro a x hx
      exact h.nonneg a x (account_without.mp hx).1
    · intro a₁ a₂ x₁ x₂ h₁ h₂
      exact h.unique a₁ a₂ x₁ x₂ (account_without.mp h₁).1 (account_without.mp h₂).1

/-! ## What the bank holds -/

/-- What an account counts for in the currency `c`. -/
def worth (c : C) : Option (Account U C) → ℤ
  | some x => if x.currency = c then x.balance else 0
  | none => 0

/-- What the bank holds in the currency `c`. -/
def total (b : Bank A U C) (c : C) : ℤ := finsum fun a => worth c (b.account a)

/-- What `u` has in the currency `c`. -/
def owned (b : Bank A U C) (u : U) (c : C) : ℤ :=
  finsum fun a => worth c ((b.account a).filter fun x => x.owner = u)

variable {c : C}

theorem finite_support {f : A → ℤ} (h : ∀ a, b.account a = none → f a = 0) :
    (Function.support f).Finite :=
  b.finite.subset fun a ha hnone => ha (h a hnone)

theorem finite_worth (b : Bank A U C) (c : C) : (Function.support fun a => worth c (b.account a)).Finite :=
  finite_support fun a hnone => by rw [hnone]; rfl

/-- A sum that changes in one place. -/
theorem finsum_change {f g : A → ℤ} {a : A} (hf : (Function.support f).Finite)
    (h : ∀ x, x ≠ a → g x = f x) : finsum g = finsum f + (g a - f a) := by
  have hg : g = fun x => f x + if x = a then g a - f a else 0 := by
    funext x
    by_cases hx : x = a
    · subst hx
      simp
    · simp [hx, h x hx]
  have hsingle : (Function.support fun x => if x = a then g a - f a else 0).Finite :=
    (Set.finite_singleton a).subset fun x hx => by
      by_contra hne
      exact hx (if_neg hne)
  rw [hg, finsum_add_distrib hf hsingle]
  congr 1
  rw [finsum_eq_single _ a fun x hx => if_neg hx]
  simp

theorem total_set (b : Bank A U C) (a : A) (x : Account U C) (c : C) :
    (b.set a x).total c = b.total c + (worth c (some x) - worth c (b.account a)) := by
  refine (finsum_change (a := a) (b.finite_worth c) fun a' ha' => ?_).trans ?_
  · simp [ha']
  · simp [total]

theorem total_without (b : Bank A U C) (u : U) (c : C) :
    (b.without u).total c = b.total c - b.owned u c := by
  have hsum : b.total c = (b.without u).total c + b.owned u c := by
    rw [total, total, owned, ← finsum_add_distrib ((b.without u).finite_worth c)
      (finite_support (b := b) fun a hnone => by rw [hnone]; rfl)]
    refine finsum_congr fun a => ?_
    show worth c (b.account a) = worth c ((b.account a).filter _) + _
    cases b.account a with
    | none => rfl
    | some x => by_cases hu : x.owner = u <;> simp [Option.filter, hu, worth]
  omega

/-- What an action adds to the money of the currency that the bank holds. -/
def gain (b : Bank A U C) (c : C) : Action A U C K → ℤ
  | .credited a amount _ => if (b.account a).map (·.currency) = some c then amount else 0
  | .closed u => -b.owned u c
  | _ => 0

theorem Step.total (hstep : b.Step action b') (c : C) : b'.total c = b.total c + b.gain c action := by
  cases hstep with
  | opened hnone => simp [total_set, hnone, worth, gain]
  | @credited a x amount key hx _ =>
    rw [total_set, hx]
    by_cases hc : x.currency = c <;> simp [worth, gain, hx, hc]
  | @moved source target x y amount key hx hy hne _ hcurrency _ _ =>
    rw [total_set, total_set, account_set, if_neg (Ne.symm hne), hx, hy]
    by_cases hc : y.currency = c <;> simp [worth, gain, hcurrency, hc]
  | closed u =>
    rw [total_without, gain]
    omega

end Bank

/-! ## Histories -/

/-- An action, and the bank in which it was taken. -/
structure Entry (A U C K : Type) where
  before : Bank A U C
  action : Action A U C K

/-- The entries lead from `b₀` to `b`, one after another. -/
inductive Run (b₀ : Bank A U C) : List (Entry A U C K) → Bank A U C → Prop where
  | nil : Run b₀ [] b₀
  | snoc {entries : List (Entry A U C K)} {b b' : Bank A U C} {action : Action A U C K} :
      Run b₀ entries b → b.Step action b' → Run b₀ (entries ++ [⟨b, action⟩]) b'

variable {b₀ b : Bank A U C} {entries : List (Entry A U C K)}

theorem Run.sound (h : Run b₀ entries b) (h₀ : b₀.Sound) : b.Sound := by
  induction h with
  | nil => exact h₀
  | snoc _ hstep ih => exact hstep.sound ih

/-- What a credit in the currency `c` brings. -/
def Entry.credit (c : C) (e : Entry A U C K) : ℤ :=
  match e.action with
  | .credited a amount _ => if (e.before.account a).map (·.currency) = some c then amount else 0
  | _ => 0

theorem owned_nonneg (h : b.Sound) (u : U) (c : C) : 0 ≤ b.owned u c := by
  refine finsum_nonneg fun a => ?_
  cases hx : (b.account a).filter fun x => x.owner = u with
  | none => exact le_rfl
  | some x =>
    show 0 ≤ if x.currency = c then x.balance else 0
    split
    · exact h.nonneg a x (Option.filter_eq_some_iff.mp hx).1
    · exact le_rfl

/-- What closing accounts takes away in the currency `c`. -/
def Entry.closing (c : C) (e : Entry A U C K) : ℤ :=
  match e.action with
  | .closed u => e.before.owned u c
  | _ => 0

theorem gain_eq (b : Bank A U C) (action : Action A U C K) (c : C) :
    b.gain c action = Entry.credit c ⟨b, action⟩ - Entry.closing c ⟨b, action⟩ := by
  cases action with
  | closed u => simp [Bank.gain, Entry.credit, Entry.closing]
  | _ => exact (sub_zero _).symm

/-- A bank holds what it held and what was credited, less what was closed. -/
theorem Run.total_add (h : Run b₀ entries b) (c : C) :
    b.total c + (entries.map (Entry.closing c)).sum =
      b₀.total c + (entries.map (Entry.credit c)).sum := by
  induction h with
  | nil => simp
  | @snoc entries b b' action _ hstep ih =>
    have hgain := gain_eq b action c
    rw [hstep.total c, List.map_append, List.sum_append, List.map_append, List.sum_append, List.map_singleton,
      List.map_singleton, List.sum_singleton, List.sum_singleton]
    omega

theorem Run.closing_nonneg (h : Run b₀ entries b) (h₀ : b₀.Sound) (c : C) :
    0 ≤ (entries.map (Entry.closing c)).sum := by
  induction h with
  | nil => simp
  | @snoc entries b b' action hrun _ ih =>
    have hlast : 0 ≤ Entry.closing c ⟨b, action⟩ := by
      cases action with
      | closed u => exact owned_nonneg (hrun.sound h₀) u c
      | _ => exact le_rfl
    rw [List.map_append, List.sum_append, List.map_singleton, List.sum_singleton]
    omega

/-- The key of a payment. -/
def Action.moveKey? : Action A U C K → Option K
  | .moved _ _ _ key => some key
  | _ => none

/-- The key of a credit. -/
def Action.creditKey? : Action A U C K → Option K
  | .credited _ _ key => some key
  | _ => none

theorem total_empty (c : C) : (Bank.empty : Bank A U C).total c = 0 := finsum_zero

theorem sound_empty : (Bank.empty : Bank A U C).Sound := ⟨nofun, nofun⟩

end

end Banking
