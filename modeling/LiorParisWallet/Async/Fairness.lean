import Mathlib.Order.Nat
import LiorParisWallet.Async.System

/-!
# Infinite runs and fairness

Safety speaks of what finite runs reach.  That a call ends is a statement about an infinite run in which
no call is passed over for ever (`Behavior.Fair`): its program is well-founded, so a call that keeps
making steps comes to its end (`Behavior.ends`).
-/

namespace Async

variable {Op : Type} {Ans : Op → Type} {ε Req Rep Ω World : Type}

/-- A run without an end.  At any moment it may also stand still. -/
structure Behavior (S : Server Op Ans ε Req Rep Ω World)
    (allowed : System Op Ans ε Req Rep World → Label Req Ω → Prop) where
  state : ℕ → System Op Ans ε Req Rep World
  next : ∀ t, state (t + 1) = state t ∨
    ∃ l, allowed (state t) l ∧ S.next (state t) l = some (state (t + 1))

namespace System

/-- Call `i` has been made and has ended. -/
def Ended (s : System Op Ans ε Req Rep World) (i : ℕ) : Prop :=
  ∃ c, s.calls[i]? = some c ∧ c.program.result? ≠ none

end System

namespace Behavior

variable {S : Server Op Ans ε Req Rep Ω World}
variable {allowed : System Op Ans ε Req Rep World → Label Req Ω → Prop}

/-- A call that awaits something goes on some time. -/
def Fair (ρ : Behavior S allowed) : Prop :=
  ∀ t i, (ρ.state t).awaits i ≠ none →
    ∃ u, t ≤ u ∧ ∃ ω, S.step (ρ.state u) i ω = some (ρ.state (u + 1))

variable {ρ : Behavior S allowed} {t u i : ℕ} {c : Call Op Ans ε Req Rep}

theorem reaches (htu : t ≤ u) : S.Reaches allowed (ρ.state t) (ρ.state u) := by
  induction u, htu using Nat.le_induction with
  | base => exact .refl
  | succ u _ ih =>
    rcases ρ.next u with hstill | ⟨l, hal, hn⟩
    · rwa [hstill]
    · exact ih.tail hal hn

/-- At the next moment a call is where it was, or it has made a step. -/
theorem call_next (hc : (ρ.state t).calls[i]? = some c) :
    (ρ.state (t + 1)).calls[i]? = some c ∨ ∃ ω, S.step (ρ.state t) i ω = some (ρ.state (t + 1)) := by
  rcases ρ.next t with hstill | ⟨l, -, hn⟩
  · exact .inl (hstill ▸ hc)
  · cases l with
    | start req =>
      have hi := (List.getElem?_eq_some_iff.mp hc).1
      rw [← Option.some.inj hn, List.getElem?_append_left hi]
      exact .inl hc
    | step j ω =>
      by_cases hij : j = i
      · subst hij
        exact .inr ⟨ω, hn⟩
      · obtain ⟨c₀, o, next, r, world, -, -, -, heq⟩ := Server.step_cases hn
        rw [heq, List.getElem?_set_ne hij]
        exact .inl hc

/-- Some time a call makes the step that it is waiting for now. -/
theorem Fair.steps (hfair : ρ.Fair) (hc : (ρ.state t).calls[i]? = some c)
    (hwaits : c.program.next? ≠ none) : ∃ u, t ≤ u ∧ (ρ.state u).calls[i]? = some c ∧
      ∃ ω, S.step (ρ.state u) i ω = some (ρ.state (u + 1)) := by
  have hawaits : (ρ.state t).awaits i ≠ none := by rwa [System.awaits, hc, Option.bind_some]
  obtain ⟨u, htu, hstep⟩ := hfair t i hawaits
  -- until the moment `u` at the latest, the call stands where it stood
  obtain ⟨n, rfl⟩ := Nat.exists_eq_add_of_le htu
  clear hawaits htu
  induction n generalizing t with
  | zero => exact ⟨t, le_rfl, hc, hstep⟩
  | succ n ih =>
    rcases call_next hc with hc' | hnow
    · obtain ⟨u, htu, hu⟩ := ih hc' (by rwa [show t + 1 + n = t + (n + 1) by omega])
      exact ⟨u, by omega, hu⟩
    · exact ⟨t, le_rfl, hc, hnow⟩

/-- Every call ends. -/
theorem Fair.ends (hfair : ρ.Fair) (hc : (ρ.state t).calls[i]? = some c) :
    ∃ u, t ≤ u ∧ (ρ.state u).Ended i := by
  obtain ⟨req, answers, program⟩ := c
  -- the steps of a call lead down its program
  induction program generalizing t answers with
  | ret a => exact ⟨t, le_rfl, _, hc, fun h => nomatch h⟩
  | throw e => exact ⟨t, le_rfl, _, hc, fun h => nomatch h⟩
  | await o next ih =>
    obtain ⟨u, htu, hcu, ω, hstep⟩ := hfair.steps hc fun h => nomatch h
    obtain ⟨c, o', next', r, world, hcu', hp, -, heq⟩ := Server.step_cases hstep
    obtain rfl := Option.some.inj (hcu'.symm.trans hcu)
    cases hp
    have hi := (List.getElem?_eq_some_iff.mp hcu).1
    have hc' : (ρ.state (u + 1)).calls[i]? = some ⟨req, ⟨o, r⟩ :: answers, next r⟩ := by
      rw [heq]
      exact List.getElem?_set_self hi
    obtain ⟨v, huv, hv⟩ := ih r _ hc'
    exact ⟨v, by omega, hv⟩

end Behavior

end Async
