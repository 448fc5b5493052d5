import Mathlib.Data.Fintype.EquivFin
import Mathlib.Logic.Relation
import Mathlib.Order.WellFounded
import LiorParisWallet.Locking.Serializability

/-!
# Lock ordering

If every script asks for its locks in ascending order, the transactions never wait for each other in a
circle (`Reachable.no_circular_wait`), and as long as a transaction is unfinished some unfinished
transaction can go on (`Reachable.progress`).
-/

namespace Locking

open Async

variable {D Op Req : Type} {Ans : Op → Type} {ε K α Rep : Type} {V : K → Type}

/-- Whatever database the script is run on, each lock that it asks for is one that it has asked for
    before, or comes after all of those. -/
def Ascending (T : Statements D Op Ans ε K V) (before : K → K → Prop) (p : Script Op Ans ε α) : Prop :=
  ∀ d, T.Along (fun l o _ => (∃ o' ∈ l, T.key o' = T.key o) ∨ ∀ o' ∈ l, before (T.key o') (T.key o))
    [] d p

/-- Call `i` waits for a lock that call `j` holds. -/
def Waits (T : Statements D Op Ans ε K V)
    (s : System (Action Op) (Action.Ans Ans) ε Req Rep (World D Op K)) (i j : ℕ) : Prop :=
  ∃ o, s.awaits i = some (.run o) ∧ j ≠ i ∧ (j, T.key o) ∈ s.world.locks

variable {T : Statements D Op Ans ε K V} {script : Req → Script Op Ans ε Rep}
variable {before : K → K → Prop} {d : D}

variable [DecidableEq K] {s : System (Action Op) (Action.Ans Ans) ε Req Rep (World D Op K)} {i j : ℕ}

/-- Who holds a lock has not finished. -/
theorem Reachable.unfinished (h : Reachable T script d s) {k : K} (hl : (j, k) ∈ s.world.locks) :
    j < s.calls.length ∧ s.outcome j = none := by
  have hi := h.isolated
  obtain ⟨o, ho, -⟩ := hi.exclusive.owner _ hl
  have hne : s.world.statements j ≠ [] := List.ne_nil_of_mem ho
  have hj : j < s.calls.length := by
    by_contra hge
    exact hne (hi.idle j (Nat.le_of_not_lt hge)).1
  refine ⟨hj, ?_⟩
  have hc := List.getElem?_eq_getElem hj
  have hstage := hi.stage j _ hc
  rw [System.outcome, hc, Option.bind_some]
  generalize s.calls[j].program = prog at hstage
  cases hstage with
  | @running q _ _ _ =>
    cases q with
    | ret a => rfl
    | throw e => rfl
    | exec o next => rw [transaction_exec]; rfl
  | failing e _ => rfl
  | committed a hnil _ => exact absurd hnil hne
  | rolledBack e hnil _ => exact absurd hnil hne

/-- A call that waits, and is itself waited for, asks for a later lock than the one it is asked for. -/
theorem before_of_waits (h : Reachable T script d s) (hasc : ∀ req, Ascending T before (script req))
    {o o' : Op} (ho : s.awaits i = some (.run o)) (ho' : s.awaits j = some (.run o'))
    (hw : Waits T s i j) {l : ℕ} (hw' : Waits T s j l) : before (T.key o) (T.key o') := by
  have hx := h.isolated.exclusive
  obtain ⟨o₁, ho₁, hji, hlock⟩ := hw
  obtain rfl : o = o₁ := by
    rw [ho] at ho₁
    cases ho₁
    rfl
  obtain ⟨o₂, ho₂, hlj, hlock'⟩ := hw'
  obtain rfl : o' = o₂ := by
    rw [ho'] at ho₂
    cases ho₂
    rfl
  obtain ⟨o₃, ho₃, hk₃⟩ := hx.owner _ hlock
  obtain ⟨c, next, e, -, hr⟩ := h.ran ho'
  rcases (hr.along (hasc c.request _)).1 with ⟨o₄, ho₄, hk₄⟩ | hall
  · -- call `j` would have the lock that it waits for
    have hown := hx.held j o₄ ho₄ (hk₄ ▸ hx.lockable _ hlock')
    exact absurd (hx.unique _ hlock' _ hown hk₄.symm) hlj
  · have hk : T.key o₃ = T.key o := hk₃
    exact hk ▸ hall o₃ ho₃

/-- An unfinished call waits for another one or can go on. -/
theorem waits_or_steps (h : Reachable T script d s) (hi : i < s.calls.length)
    (hopen : s.outcome i = none) :
    (∃ j, Waits T s i j) ∨ ((server T script).step s i none).isSome := by
  have hc := List.getElem?_eq_getElem hi
  have hstage := h.isolated.stage i _ hc
  rw [System.outcome, hc, Option.bind_some] at hopen
  cases hp : s.calls[i].program with
  | ret a => rw [hp] at hopen; cases hopen
  | throw e => rw [hp] at hopen; cases hopen
  | await o next =>
    by_cases hperf : (perform T i o none s.world).isSome
    · right
      obtain ⟨⟨r, w⟩, hr⟩ := Option.isSome_iff_exists.mp hperf
      rw [Server.step_of_await (S := server T script) hc hp hr]
      rfl
    · left
      cases o with
      | commit => exact absurd rfl hperf
      | rollback => exact absurd rfl hperf
      | run o =>
        simp only [perform] at hperf
        split at hperf
        · rename_i hlocked
          obtain ⟨⟨j, k⟩, hl, hji, rfl⟩ := hlocked
          exact ⟨j, o, System.awaits_eq hc hp, hji, hl⟩
        · split at hperf <;> exact absurd rfl hperf

section

variable [IsTrans K before]

theorem transGen_before (h : Reachable T script d s)
    (hasc : ∀ req, Ascending T before (script req)) {o o' : Op}
    (ho : s.awaits i = some (.run o)) (ho' : s.awaits j = some (.run o'))
    (hw : Relation.TransGen (Waits T s) i j) {l : ℕ} (hw' : Waits T s j l) :
    before (T.key o) (T.key o') := by
  induction hw generalizing o' l with
  | single hij => exact before_of_waits h hasc ho ho' hij hw'
  | @tail j j' _ hjj' ih =>
    obtain ⟨o₁, ho₁, -⟩ := id hjj'
    exact IsTrans.trans _ _ _ (ih ho₁ hjj') (before_of_waits h hasc ho₁ ho' hjj' hw')

variable [Std.Irrefl before]

/-- No calls wait for each other in a circle. -/
theorem Reachable.no_circular_wait (h : Reachable T script d s)
    (hasc : ∀ req, Ascending T before (script req)) (i : ℕ) :
    ¬Relation.TransGen (Waits T s) i i := by
  intro hw
  obtain ⟨j, hij, -⟩ := Relation.TransGen.head'_iff.mp hw
  obtain ⟨o, ho, -⟩ := id hij
  exact irrefl_of before (T.key o) (transGen_before h hasc ho ho hw hij)

/-- As long as a call is unfinished, some unfinished call can go on without a failure. -/
theorem Reachable.progress (h : Reachable T script d s)
    (hasc : ∀ req, Ascending T before (script req)) (hi : i < s.calls.length)
    (hopen : s.outcome i = none) : ∃ j, j < s.calls.length ∧ s.outcome j = none ∧
      ((server T script).step s j none).isSome := by
  -- whoever waits for nobody can go on, and there is such a call because nobody waits in a circle
  let r : Fin s.calls.length → Fin s.calls.length → Prop := fun a b =>
    Relation.TransGen (Waits T s) b a
  have htrans : IsTrans _ r := ⟨fun _ _ _ hab hbc => hbc.trans hab⟩
  have hirrefl : Std.Irrefl r := ⟨fun a ha => h.no_circular_wait hasc a ha⟩
  have hwf := Finite.wellFounded_of_trans_of_irrefl r
  obtain ⟨m, hm, hmin⟩ := hwf.has_min {m | s.outcome m = none} ⟨⟨i, hi⟩, hopen⟩
  refine ⟨m, m.isLt, hm, ?_⟩
  rcases waits_or_steps h m.isLt hm with ⟨j, hw⟩ | hstep
  · obtain ⟨_, _, _, hlock⟩ := id hw
    obtain ⟨hj, hjopen⟩ := h.unfinished hlock
    exact absurd (.single hw) (hmin ⟨j, hj⟩ hjopen)
  · exact hstep

end

end Locking
