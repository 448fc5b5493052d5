import Mathlib.Data.Fintype.EquivFin
import LiorParisWallet.Async.Interference
import LiorParisWallet.Async.Sequential
import LiorParisWallet.Server.Requests
import LiorParisWallet.Money.Effects

/-!
# Calls that run alone, with a store that works

The rules for the operations of a call that no other call interrupts, where every operation gets through:
a query returns what is stored, a statement is executed, and a transaction commits unless a unique index
or its own body refuses it.
-/

namespace LiorParisWallet

open Async

/-- The operations of a server that has this world. -/
abbrev Operations : Type := ℕ → (o : Op) → Choice → World → Option (Except Err (Ans o) × World)

/-- What an operation of call `i` does where nothing is out of reach, for the operations `P`. -/
def GetsThrough (P : Operations) (i : ℕ) (o : Op) (w : World) (r : Except Err (Ans o)) (w' : World) : Prop :=
  ∃ ω : Choice, ω.fault = none ∧ P i o ω w = some (r, w')

/-- The same for the operations that compute with integers. -/
abbrev Faultless (i : ℕ) : (o : Op) → World → Except Err (Ans o) → World → Prop := GetsThrough perform i

variable {α β : Type} {P : Operations} {i : ℕ} {w w₁ : World} {o : Op} {Q : Except Err α → World → Prop}

theorem faultless_read {a : Choice → Ans o} (hperform : ∀ ω, P i o ω w = w.read ω (a ω))
    {r : Except Err (Ans o)} (h : GetsThrough P i o w r w₁) : ∃ ω, r = .ok (a ω) ∧ w₁ = w := by
  obtain ⟨ω, hω, hp⟩ := h
  simp only [hperform, World.read, hω, Option.some.injEq, Prod.mk.injEq] at hp
  exact ⟨ω, hp.1.symm, hp.2.symm⟩

theorem faultless_write {a : Ans o} {w' : World} (hperform : ∀ ω, P i o ω w = w.write ω a w₁)
    {r : Except Err (Ans o)} (h : GetsThrough P i o w r w') : r = .ok a ∧ w' = w₁ := by
  obtain ⟨ω, hω, hp⟩ := h
  simp only [hperform, World.write, hω, Option.some.injEq, Prod.mk.injEq] at hp
  exact ⟨hp.1.symm, hp.2.symm⟩

/-- A transaction commits, or its body has thrown. -/
theorem faultless_insert {result : Choice → Except Err (Ans o × Store)}
    (hperform : ∀ ω, P i o ω w = w.insert i ω (result ω)) {r : Except Err (Ans o)}
    (h : GetsThrough P i o w r w₁) : ∃ ω, ω.uuid ∉ w.issuedIds ∧
      ((∃ e, result ω = .error e ∧ r = .error e ∧ w₁ = w) ∨
        ∃ a db, result ω = .ok (a, db) ∧ r = .ok a ∧
          w₁ = { w with db := db, issued := (ω.uuid, i) :: w.issued }) := by
  obtain ⟨ω, hω, hp⟩ := h
  simp only [hperform, World.insert, hω] at hp
  split at hp
  · cases hp
  · rename_i hfresh
    refine ⟨ω, hfresh, ?_⟩
    cases hresult : result ω with
    | error e =>
      simp only [hresult, Option.some.injEq, Prod.mk.injEq] at hp
      exact .inl ⟨e, rfl, hp.1.symm, hp.2.symm⟩
    | ok x =>
      simp only [hresult, Option.some.injEq, Prod.mk.injEq] at hp
      exact .inr ⟨x.1, x.2, rfl, hp.1.symm, hp.2.symm⟩

/-- The rule for a query. -/
theorem wp_read {f : Ans o → Promise α} {a : Choice → Ans o}
    (hperform : ∀ ω, P i o ω w = w.read ω (a ω)) (h : ∀ ω, (f (a ω)).wp (GetsThrough P i) Eq Q w) :
    (await o >>= f).wp (GetsThrough P i) Eq Q w := by
  refine Program.wp_await_alone (fun b w₂ ht => ?_) fun e w₂ ht => ?_
  · obtain ⟨ω, heq, rfl⟩ := faultless_read hperform ht
    cases heq
    exact h ω
  · obtain ⟨ω, heq, -⟩ := faultless_read hperform ht
    cases heq

/-- The rule for a transaction, which gets a new id. -/
theorem wp_insert {f : Ans o → Promise α} {result : Choice → Except Err (Ans o × Store)}
    (hperform : ∀ ω, P i o ω w = w.insert i ω (result ω))
    (hok : ∀ ω a db, ω.uuid ∉ w.issuedIds → result ω = .ok (a, db) →
      (f a).wp (GetsThrough P i) Eq Q { w with db := db, issued := (ω.uuid, i) :: w.issued })
    (herror : ∀ ω e, ω.uuid ∉ w.issuedIds → result ω = .error e → Q (.error e) w) :
    (await o >>= f).wp (GetsThrough P i) Eq Q w := by
  refine Program.wp_await_alone (fun b w₂ ht => ?_) fun e w₂ ht => ?_
  · obtain ⟨ω, hfresh, ⟨e, -, heq, -⟩ | ⟨a, db, hresult, heq, rfl⟩⟩ := faultless_insert hperform ht
    · cases heq
    · cases heq
      exact hok ω b db hfresh hresult
  · obtain ⟨ω, hfresh, ⟨e', hresult, heq, rfl⟩ | ⟨a, db, -, heq, -⟩⟩ := faultless_insert hperform ht
    · cases heq
      exact herror ω e hfresh hresult
    · cases heq

theorem pay_of_none (w : World) {p : Payment} (h : p.providerRef = none) :
    w.pay p = some (p.answer, { w with payments := w.payments ++ [p] }) := by
  rw [World.pay, if_neg (by simp [h])]

/-- Some id is new. -/
theorem insert_total {result : Choice → Except Err (Ans o × Store)}
    (hperform : ∀ ω, P i o ω w = w.insert i ω (result ω)) : ∃ r w', GetsThrough P i o w r w' := by
  obtain ⟨id, hid⟩ := Infinite.exists_notMem_finset w.issuedIds.toFinset
  have hid : id ∉ w.issuedIds := by simpa using hid
  cases hresult : result { uuid := id } with
  | error e =>
    refine ⟨.error e, w, { uuid := id }, rfl, ?_⟩
    simp only [hperform, World.insert, hid, if_false, hresult]
  | ok x =>
    refine ⟨.ok x.1, { w with db := x.2, issued := (id, i) :: w.issued }, { uuid := id }, rfl, ?_⟩
    simp only [hperform, World.insert, hid, if_false, hresult]

/-- Whatever is awaited settles. -/
theorem faultless_total (i : ℕ) (o : Op) (w : World) : ∃ r w', Faultless i o w r w' := by
  cases o with
  | saveWallet data => exact insert_total fun _ => rfl
  | createTransaction data => exact insert_total fun _ => rfl
  | settleTransaction walletId t type change data => exact insert_total fun _ => rfl
  | createTransfer data => exact insert_total fun _ => rfl
  | executeTransfer t fromWalletId toWalletId data => exact insert_total fun _ => rfl
  | createUser data => exact insert_total fun _ => rfl
  | processDeposit amount currency paymentMethod transactionId userId =>
    -- a provider that is out of reach gives no reference
    exact ⟨_, _, {}, rfl, pay_of_none w rfl⟩
  | _ => exact ⟨_, _, {}, rfl, rfl⟩

/-- A run that was computed from choices without a fault. -/
theorem runs_of_execute_faultless {S : Server Op Ans Err Request Reply Choice World} {ωs : List Choice}
    {p : Promise α} {r : Except Err α} {w' : World} (hωs : ∀ ω ∈ ωs, ω.fault = none)
    (h : S.execute i ωs p w = some (r, w')) : p.Runs (GetsThrough S.perform i) w r w' := by
  induction p generalizing ωs w with
  | ret a =>
    rw [Server.execute] at h
    cases h
    exact .ret a _
  | throw e =>
    rw [Server.execute] at h
    cases h
    exact .throw e _
  | await o next ih =>
    cases ωs with
    | nil => cases h
    | cons ω ωs =>
      obtain ⟨⟨r₁, w₁⟩, hp, hrest⟩ := Option.bind_eq_some_iff.mp h
      exact .await ⟨ω, hωs ω List.mem_cons_self, hp⟩
        (ih r₁ (fun ω' hω' => hωs ω' (List.mem_cons_of_mem ω hω')) hrest)

end LiorParisWallet
