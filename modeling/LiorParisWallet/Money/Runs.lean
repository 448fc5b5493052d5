import LiorParisWallet.Async.Interference
import LiorParisWallet.Money.Services

/-!
# Runs of the money server

Every reachable state satisfies the invariant, and a run proves whatever its steps keep: `run_induction`
is the rule by which the results about whole runs are proved.
-/

namespace LiorParisWallet

open Async Relational

variable {registry : PaymentGatewayRegistry} {s s' : State}
variable {allowed : State → Label Request Choice → Prop}

theorem Reachable.sound (h : Reachable registry s) : (moneyContract registry).Sound Post s :=
  let ⟨_, hw, hr⟩ := h
  Contract.sound_reaches server_meets (Contract.sound_idle (inv_initial hw)) hr

/-- The invariant holds in every reachable state. -/
theorem Reachable.inv (h : Reachable registry s) : s.world.Inv := h.sound.inv

theorem Reachable.extend (h : Reachable registry s) (hr : (server registry).Reaches allowed s s') :
    Reachable registry s' :=
  let ⟨w, hw, hr₀⟩ := h
  ⟨w, hw, hr₀.trans hr.any⟩

theorem reachable_initial {w : World} (h : w.Initial) : Reachable registry ⟨w, []⟩ :=
  ⟨w, h, .refl⟩

/-- Every answer that a call has received was given in some reachable state. -/
theorem Reachable.performed (h : Reachable registry s) {i : ℕ} {c : Call Op Ans Err Request Reply}
    (hc : s.calls[i]? = some c) {o : Op} {r : Except Err (Ans o)} (ha : ⟨o, r⟩ ∈ c.answers) :
    ∃ s₀, Reachable registry s₀ ∧ (server registry).Performed i o r s₀ s := by
  obtain ⟨w, hw, hr⟩ := h
  obtain ⟨s₀, hr₀, hperformed⟩ := Server.Reaches.performed hr rfl hc ha
  exact ⟨s₀, ⟨w, hw, hr₀⟩, hperformed⟩

/-- Whatever holds of the answers that any request can get, holds of those that a call has got. -/
theorem Reachable.logged {Q : Request → Except Err Reply → List (Answer Ans Err) → Prop}
    (hserve : ∀ req, (serve registry req).wp Program.Logs Eq (Q req) []) (h : Reachable registry s)
    {c : Call Op Ans Err Request Reply} (hc : c ∈ s.calls) :
    c.program.wp Program.Logs Eq (Q c.request) c.answers := by
  obtain ⟨w, -, hr⟩ := h
  exact Server.Reaches.logged (S := server registry) hserve (fun _ hnone => absurd hnone List.not_mem_nil) hr c hc

/-- A step of a call is one of the effects of the operation that it awaits. -/
theorem Reachable.effect (h : Reachable registry s) {i : ℕ} {ω : Choice}
    (hstep : (server registry).step s i ω = some s') {o : Op} (ho : s.awaits i = some o) :
    ∃ c, s.calls[i]? = some c ∧ Guarantee c.request i o s.world ∧ Effect i s.world o s'.world := by
  obtain ⟨c, o', next, r, w', hc, hp, hperform, rfl⟩ := Server.step_cases hstep
  have hpre := (h.sound.tracks i (List.getElem?_eq_some_iff.mp hc).1).pre h.sound.inv hc hp
  have he : Effect i s.world o' w' := effect_of_perform hperform
  obtain rfl := Option.some.inj ((System.awaits_eq hc hp).symm.trans ho)
  exact ⟨c, hc, hpre, he⟩

/-- What the database, the provider and the generator of ids hold at the end of a run is what every
    step of a call, under its guarantee, has kept. -/
theorem run_induction (hs : Reachable registry s) (hr : (server registry).Reaches allowed s s')
    (J : World → Prop) (init : J s.world)
    (step : ∀ s i ω (c : Call Op Ans Err Request Reply) o w', s.world.Inv → allowed s (.step i ω) →
      s.calls[i]? = some c → s.awaits i = some o → Guarantee c.request i o s.world →
      Effect i s.world o w' → J s.world → J w') : J s'.world := by
  refine Contract.reaches_induction server_meets hs.sound hr (fun s => J s.world) init ?_ ?_
  · exact fun _ _ _ h => h
  · intro s i ω c o next r w' hsound hallowed hc hp hpre hperform hJ
    exact step s i ω c o w' hsound.inv hallowed hc (System.awaits_eq hc hp) hpre (effect_of_perform hperform)
      hJ

/-- A run only lets the world grow. -/
theorem Reachable.grows (hs : Reachable registry s) (hr : (server registry).Reaches allowed s s') :
    Grows s.world s'.world :=
  run_induction hs hr (Grows s.world) (.refl _) fun _ _ _ _ _ _ _ _ _ _ hpre he hg =>
    hg.trans (grows_of_effect hpre he)

/-- Call `i` was made with this request. -/
def Asked (s : State) (i : ℕ) (req : Request) : Prop := ∃ c, s.calls[i]? = some c ∧ c.request = req

theorem Asked.next {i : ℕ} {req : Request} {l : Label Request Choice} (h : Asked s i req)
    (hn : (server registry).next s l = some s') : Asked s' i req := by
  obtain ⟨c, hc, rfl⟩ := h
  obtain ⟨c', hc', hreq, -⟩ := Server.next_call hn hc
  exact ⟨c', hc', hreq⟩

theorem Asked.reaches {i : ℕ} {req : Request} (h : Asked s i req)
    (hr : (server registry).Reaches allowed s s') : Asked s' i req := by
  induction hr with
  | refl => exact h
  | tail _ _ hn ih => exact ih.next hn

/-- An answer that a call has received in a run from `s₀` was given under its guarantee. -/
theorem Reachable.answered {s₀ : State} (hs₀ : Reachable registry s₀)
    (hr : (server registry).Reaches allowed s₀ s) {i : ℕ} (hnew : s₀.calls[i]? = none)
    {c : Call Op Ans Err Request Reply} (hc : s.calls[i]? = some c) {o : Op} {r : Except Err (Ans o)}
    (ha : ⟨o, r⟩ ∈ c.answers) : ∃ (s₁ s₂ : State) (ω : Choice) (c₁ : Call Op Ans Err Request Reply),
      Reachable registry s₁ ∧ allowed s₁ (.step i ω) ∧ s₁.calls[i]? = some c₁ ∧
      c₁.request = c.request ∧ c₁.program.next? = some o ∧ Guarantee c.request i o s₁.world ∧
      perform i o ω s₁.world = some (r, s₂.world) ∧ Reachable registry s₂ ∧
      (server registry).Reaches allowed s₂ s := by
  obtain ⟨s₁, s₂, ω, hr₁, hallowed, ho, hstep, hperform, hr₂⟩ := hr.answered hnew hc ha
  have hs₁ := hs₀.extend hr₁
  have hnext : (server registry).next s₁ (.step i ω) = some s₂ := hstep
  obtain ⟨c₁, hc₁, hguarantee, -⟩ := hs₁.effect hstep ho
  have hasked : Asked s₁ i c₁.request := ⟨c₁, hc₁, rfl⟩
  obtain ⟨c', hc', hreq⟩ := hasked.reaches ((Server.Reaches.refl.tail hallowed hnext).trans hr₂)
  cases hc.symm.trans hc'
  have hawaits : c₁.program.next? = some o := by rwa [System.awaits, hc₁] at ho
  exact ⟨s₁, s₂, ω, c₁, hs₁, hallowed, hc₁, hreq.symm, hawaits, hreq ▸ hguarantee, hperform,
    hs₁.extend (Server.reaches_of_step hstep), hr₂⟩

/-- Induction over a run for what the rows owe to the requests: `R` says which requests were made. -/
theorem Reachable.induction_asked (h : Reachable registry s)
    (J : World → (ℕ → Request → Prop) → Prop) (init : ∀ (w : World) R, w.Initial → J w R)
    (mono : ∀ w R R', (∀ i req, R i req → R' i req) → J w R → J w R')
    (step : ∀ w w' i req o R, w.Inv → R i req → Guarantee req i o w → Effect i w o w' → J w R →
      J w' R) : J s.world (Asked s) := by
  obtain ⟨w, hw, hr⟩ := h
  induction hr with
  | refl => exact init w _ hw
  | @tail s₁ s₂ l hr _ hn ih =>
    have hs₁ : Reachable registry s₁ := ⟨w, hw, hr⟩
    -- calls keep their requests, so whoever has asked before has asked now
    refine mono _ _ _ (fun _ _ hasked => Asked.next hasked hn) ?_
    cases l with
    | start req => cases hn; exact ih
    | step i ω =>
      obtain ⟨c, o, next, r, w', hc, hp, -⟩ := Server.step_cases hn
      obtain ⟨c', hc', hpre, he⟩ := hs₁.effect hn (System.awaits_eq hc hp)
      exact step _ _ i c'.request o _ hs₁.inv ⟨c', hc', rfl⟩ hpre he ih

theorem ReachableBy.induction (h : ReachableBy registry allowed s) (J : World → Prop)
    (init : ∀ w : World, w.Initial → J w)
    (step : ∀ s i ω (c : Call Op Ans Err Request Reply) o w', s.world.Inv → allowed s (.step i ω) →
      s.calls[i]? = some c → s.awaits i = some o → Guarantee c.request i o s.world →
      Effect i s.world o w' → J s.world → J w') : J s.world :=
  let ⟨w, hw, hr⟩ := h
  run_induction (reachable_initial hw) hr J (init w hw) step

end LiorParisWallet
