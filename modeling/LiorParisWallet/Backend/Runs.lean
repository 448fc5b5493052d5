import LiorParisWallet.Backend.Contract

/-!
# Runs of the server

A run is a sequence of two kinds of steps: a request arrives, or the operation that a call awaits is performed.
What holds of the idle server and is kept by both holds of every state that is reached (`run_induction`).
-/

namespace LiorParisWallet.Backend

open Async Accounts

variable {P : Packages} {registry : PaymentGatewayRegistry} {w : World} {s s' : State}

/-- Nothing that was known in the one state is unknown in the other. -/
structure Follows (s s' : State) : Prop where
  calls : ∀ c ∈ s.calls, ∃ c' ∈ s'.calls, c'.request = c.request ∧ c.answers ⊆ c'.answers
  known : ∀ id email, s.world.accounts.Known id email → s'.world.accounts.Known id email
  emitted : s.world.accounts.emitted ⊆ s'.world.accounts.emitted
  grows : Grows s.world.money s'.world.money

/-- The request has arrived, with which the listener is called for what was emitted. -/
structure Arrives (s : State) (req : Request) (c : Call Op Ans Exception Request Reply) (s' : State) :
    Prop where
  world : s'.world = s.world
  calls : s'.calls = s.calls ++ [c]
  request : c.request = req
  answers : c.answers = []
  wired : Wired s (.start req)

/-- An operation of a call, performed under its guarantee and with what the call knows. -/
structure Performed (P : Packages) (registry : PaymentGatewayRegistry) (s : State) (i : ℕ)
    (c : Call Op Ans Exception Request Reply) (o : Op) (r : Except Exception (Ans o)) (w' : World) :
    Prop where
  inv : s.world.Inv P
  call : c ∈ s.calls
  perform : ∃ ω, (server P registry).perform i o ω s.world = some (r, w')
  guarantees : Guarantees P c.request i o s.world
  permits : Permits P registry c.request c.answers o
  truthful : ∀ x ∈ c.answers, Truthful P x

/-- The call has gone on with the answer, and the others are as they were. -/
structure Continues (s : State) (c : Call Op Ans Exception Request Reply) (x : Answer Ans Exception)
    (c' : Call Op Ans Exception Request Reply) (s' : State) : Prop where
  mem : c' ∈ s'.calls
  request : c'.request = c.request
  answers : c'.answers = x :: c.answers
  others : ∀ d ∈ s'.calls, d ∈ s.calls ∨ d = c'

theorem Performed.effect {i : ℕ} {c : Call Op Ans Exception Request Reply} {o : Op}
    {r : Except Exception (Ans o)} {w' : World} (h : Performed P registry s i c o r w') :
    Effect P i s.world o r w' :=
  let ⟨_, hperform⟩ := h.perform
  effect_of_perform hperform

theorem emitted_of_effect {i : ℕ} {w w' : World} {o : Op} {r : Except Exception (Ans o)}
    (he : Effect P i w o r w') : w.accounts.emitted ⊆ w'.accounts.emitted := by
  cases he with
  | accounts he =>
    cases he with
    | emit payload => exact List.subset_append_left _ _
    | _ => exact fun _ h => h
  | _ => exact fun _ h => h

theorem follows_of_next {l : Label Request Choice} (hn : (server P registry).next s l = some s')
    (hknown : ∀ id email, s.world.accounts.Known id email → s'.world.accounts.Known id email)
    (hemitted : s.world.accounts.emitted ⊆ s'.world.accounts.emitted)
    (hgrows : Grows s.world.money s'.world.money) : Follows s s' where
  calls c hc := by
    obtain ⟨i, hi⟩ := List.mem_iff_getElem?.mp hc
    obtain ⟨c', hc', hreq, hanswers⟩ := Server.next_call hn hi
    exact ⟨c', List.mem_of_getElem? hc', hreq, hanswers.subset⟩
  known := hknown
  emitted := hemitted
  grows := hgrows

theorem arrives_of_start {req : Request} (hwired : Wired s (.start req))
    (hn : (server P registry).next s (.start req) = some s') : ∃ c, Follows s s' ∧ Arrives s req c s' := by
  have hnext := hn
  cases hn
  exact ⟨_, follows_of_next hnext (fun _ _ h => h) (fun _ h => h) (.refl _), rfl, rfl, rfl, rfl, hwired⟩

theorem performed_of_step (hinitial : w.Initial P) (hr : (server P registry).Reaches Wired ⟨w, []⟩ s) {i : ℕ}
    {ω : Choice} (hn : (server P registry).next s (.step i ω) = some s') :
    ∃ c o r c', (server P registry).perform i o ω s.world = some (r, s'.world) ∧ Follows s s' ∧
      Performed P registry s i c o r s'.world ∧ Continues s c ⟨o, r⟩ c' s' := by
  have hnext := hn
  obtain ⟨c, o, next, r, world, hc, hp, hperform, rfl⟩ := Server.step_cases hn
  have hsound := sound_of_reaches hinitial hr
  have hi : i < s.calls.length := (List.getElem?_eq_some_iff.mp hc).1
  have hpre : Guarantees P c.request i o s.world := (hsound.tracks i hi).pre hsound.inv hc hp
  obtain ⟨hjustified, hinformed⟩ := permits_of_reaches hr c (List.mem_of_getElem? hc)
  rw [hp] at hinformed
  have he := effect_of_perform hperform
  have hf := follows_of_next hnext (known_of_perform hsound.inv hpre he) (emitted_of_effect he)
    (grows_of_perform hpre he)
  have hperformed : Performed P registry s i c o r world :=
    ⟨hsound.inv, List.mem_of_getElem? hc, ⟨ω, hperform⟩, hpre, hinformed.1, fun x hx => (hjustified.of_mem hx).1⟩
  exact ⟨c, o, r, _, hperform, hf, hperformed, List.mem_set hi _, rfl, rfl, fun d hd => List.mem_or_eq_of_mem_set hd⟩

/-- A property of the idle server that both kinds of steps keep holds all along. -/
theorem run_induction {motive : State → Prop} (hinitial : w.Initial P) (idle : motive ⟨w, []⟩)
    (arrives : ∀ {s s' req c}, (server P registry).Reaches Wired ⟨w, []⟩ s → motive s → Follows s s' →
      Arrives s req c s' → motive s')
    (performs : ∀ {s s' i c o r c'}, (server P registry).Reaches Wired ⟨w, []⟩ s → motive s → Follows s s' →
      Performed P registry s i c o r s'.world → Continues s c ⟨o, r⟩ c' s' → motive s')
    (h : (server P registry).Reaches Wired ⟨w, []⟩ s) : motive s := by
  induction h with
  | refl => exact idle
  | @tail s₁ s₂ l hr hwired hn ih =>
    cases l with
    | start req =>
      obtain ⟨c, hf, harrives⟩ := arrives_of_start hwired hn
      exact arrives hr ih hf harrives
    | step i ω =>
      obtain ⟨c, o, r, c', -, hf, hperformed, hcontinues⟩ := performed_of_step hinitial hr hn
      exact performs hr ih hf hperformed hcontinues

end LiorParisWallet.Backend
