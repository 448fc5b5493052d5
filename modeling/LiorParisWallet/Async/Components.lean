import LiorParisWallet.Async.Contract
import LiorParisWallet.Async.Knowledge
import LiorParisWallet.Async.Simulation

/-!
# Components

A server may be put together from smaller ones: each of them has operations of its own among those of the
whole and sees a part of its world.  A program of a component can then be run by the whole server (`embed`),
and what was proved of it under the contract of the component holds under the contract of the whole
(`Component.wp_embed`).
-/

namespace Async

variable {Op Op' : Type} {Ans : Op → Type} {Ans' : Op' → Type}
variable {ε ε' Req Req' Rep Rep' Ω Ω' World World' α : Type}

/-- The program of a component, run by the whole server.  How an operation of the component settled is what
    the operation of the whole answers, and an exception is translated by `f`. -/
def Program.embed (op : Op → Op') (answer : ∀ o, Ans' (op o) → Except ε (Ans o)) (f : ε → ε') :
    Program Op Ans ε α → Program Op' Ans' ε' α
  | .ret a => .ret a
  | .throw e => .throw (f e)
  | .await o next => .bind (.call (op o)) fun a => (next (answer o a)).embed op answer f

/-- How the operations of `S` are performed by `S'`. -/
structure Component (S : Server Op Ans ε Req Rep Ω World) (S' : Server Op' Ans' ε' Req' Rep' Ω' World') where
  op : Op → Op'
  answer : ∀ o, Ans' (op o) → Except ε (Ans o)
  part : World' → World
  perform : ∀ {i o ω w r w'}, S'.perform i (op o) ω w = some (r, w') →
    ∃ a ω₀, r = .ok a ∧ S.perform i o ω₀ (part w) = some (answer o a, part w')

namespace Component

variable {S : Server Op Ans ε Req Rep Ω World} {S' : Server Op' Ans' ε' Req' Rep' Ω' World'}
variable (K : Component S S')

def embed (f : ε → ε') (p : Program Op Ans ε α) : Program Op' Ans' ε' α :=
  p.embed K.op K.answer f

/-- A program that keeps the contract `C` with the request `req`, and awaits only operations that `Φ` admits,
    keeps the contract `C'` with the request `req'` as long as the world satisfies `J`. -/
structure Carries (C : Contract S) (C' : Contract S') (Φ : List (Answer Ans ε) → Op → Prop) (req : Req)
    (req' : Req') (i : ℕ) (J : World' → Prop) : Prop where
  inv : ∀ w, C'.Inv w → C.Inv (K.part w)
  rely : ∀ w w', C'.Rely i w w' → C.Rely i (K.part w) (K.part w')
  pre : ∀ answers o w, Φ answers o → J w → C.Pre req i o (K.part w) → C'.Pre req' i (K.op o) w
  kept : ∀ w w', J w → C'.Rely i w w' → J w'
  performed : ∀ o ω w r w', C'.Inv w → C'.Pre req' i o w → S'.perform i o ω w = some (r, w') → J w → J w'

variable {K} {C : Contract S} {C' : Contract S'} {T : Answer Ans ε → Prop}
variable {Φ : List (Answer Ans ε) → Op → Prop} {req : Req} {req' : Req'} {i : ℕ} {J : World' → Prop}

theorem wp_embed (hK : K.Carries C C' Φ req req' i J)
    (hT : ∀ {i o ω w r w'}, S.perform i o ω w = some (r, w') → T ⟨o, r⟩) {f : ε → ε'}
    {p : Program Op Ans ε α} {Q : List (Answer Ans ε) → Except ε α → World → Prop}
    {R : α → List (Answer Ans ε) → Prop} {answers known : List (Answer Ans ε)}
    {answers' : List (Answer Ans' ε')} {w : World'} (hp : p.Informed T Φ R known)
    (h : C.wp req i p Q answers (K.part w)) (hJ : J w) :
    C'.wp req' i (K.embed f p)
      (Contract.returns fun _ a w' => J w' ∧ ∃ answers, Q answers (.ok a) (K.part w')) answers' w := by
  induction p generalizing answers known answers' w with
  | ret a =>
    intro a' ha
    cases ha
    exact ⟨hJ, answers, h⟩
  | throw e => exact fun _ ha => nomatch ha
  | await o next ih =>
    refine Contract.wp_await (o := K.op o) fun w₁ hrely hinv => ?_
    have hJ₁ := hK.kept w w₁ hJ hrely
    obtain ⟨hpre, hnext⟩ := h (K.part w₁) (hK.rely w w₁ hrely) (hK.inv w₁ hinv)
    have hpre' := hK.pre known o w₁ hp.1 hJ₁ hpre
    refine ⟨hpre', fun ω a w₂ hperform => ?_⟩
    obtain ⟨a', ω₀, heq, hperform₀⟩ := K.perform hperform
    cases heq
    exact ih _ (hp.2 _ (hT hperform₀)) (hnext ω₀ _ _ hperform₀)
      (hK.performed _ ω w₁ _ w₂ hinv hpre' hperform hJ₁)

/-- What the operations of the component have answered is among the answers of the whole. -/
def Reports (K : Component S S') (answers : List (Answer Ans ε)) (answers' : List (Answer Ans' ε')) : Prop :=
  ∀ x ∈ answers, ∃ a, ⟨K.op x.1, .ok a⟩ ∈ answers' ∧ K.answer x.1 a = x.2

theorem reports_nil {answers' : List (Answer Ans' ε')} : K.Reports [] answers' := by
  intro x hx
  cases hx

theorem Reports.cons {answers : List (Answer Ans ε)} {answers' : List (Answer Ans' ε')}
    (h : K.Reports answers answers') {o : Op} (a : Ans' (K.op o)) :
    K.Reports (⟨o, K.answer o a⟩ :: answers) (⟨K.op o, .ok a⟩ :: answers') := by
  intro x hx
  rcases List.mem_cons.mp hx with rfl | hx
  · exact ⟨a, List.mem_cons_self, rfl⟩
  · obtain ⟨a', hmem, heq⟩ := h x hx
    exact ⟨a', List.mem_cons_of_mem _ hmem, heq⟩

theorem Reports.mono {answers : List (Answer Ans ε)} {earlier later : List (Answer Ans' ε')}
    (h : K.Reports answers earlier) (hsub : earlier ⊆ later) : K.Reports answers later := by
  intro x hx
  obtain ⟨a, ha, heq⟩ := h x hx
  exact ⟨a, hsub ha, heq⟩

/-- An informed program of the component is informed when the whole server runs it, and remembers what was
    `known` before. -/
theorem informed_embed {T : Answer Ans ε → Prop} {T' : Answer Ans' ε' → Prop}
    {Φ : List (Answer Ans ε) → Op → Prop} {Φ' : List (Answer Ans' ε') → Op' → Prop}
    {Q : α → List (Answer Ans ε) → Prop} {f : ε → ε'} {p : Program Op Ans ε α}
    {answers : List (Answer Ans ε)} {known answers' : List (Answer Ans' ε')}
    (h : p.Informed T Φ Q answers) (hreports : K.Reports answers answers') (hknown : known ⊆ answers')
    (hT : ∀ o a, T' ⟨K.op o, .ok a⟩ → T ⟨o, K.answer o a⟩)
    (hΦ : ∀ answers answers' o, K.Reports answers answers' → known ⊆ answers' → Φ answers o →
      Φ' answers' (K.op o)) :
    (K.embed f p).Informed T' Φ' (fun a answers' => known ⊆ answers' ∧
      ∃ answers, K.Reports answers answers' ∧ Q a answers) answers' := by
  induction p generalizing answers answers' with
  | ret a => exact ⟨hknown, answers, hreports, h⟩
  | throw e => trivial
  | await o next ih =>
    refine Program.informed_await (o := K.op o) (hΦ _ _ o hreports hknown h.1) fun a ha => ?_
    exact ih _ (h.2 (K.answer o a) (hT o a ha)) (hreports.cons a) (List.subset_cons_of_subset _ hknown)

end Component

/-! ## Programs in step -/

namespace Related

variable {ops : (o o' : Op) → (Ans o → Ans o' → Prop) → Prop}
variable {ops' : (o o' : Op') → (Ans' o → Ans' o' → Prop) → Prop}

/-- A program is related to itself if each of its operations is. -/
theorem refl {Φ : Op → Prop} {p : Program Op Ans ε α} (hp : p.All Φ) (hops : ∀ o, Φ o → ops o o Eq) :
    Related ops Eq p p := by
  induction p with
  | ret a => exact .ret rfl
  | throw e => exact .throw e
  | await o next ih =>
    refine .await (hops o hp.1) fun r r' hr => ?_
    rw [hr.eq]
    exact ih r (hp.2 r)

/-- Related programs of a component are related when the whole runs them. -/
theorem embed {op : Op → Op'} {answer : ∀ o, Ans' (op o) → Except ε (Ans o)} {f : ε → ε'} {Q : α → α → Prop}
    {p p' : Program Op Ans ε α} (h : Related ops Q p p')
    (hops : ∀ o o' R, ops o o' R → ∃ R', ops' (op o) (op o') R' ∧
      ∀ a a', R' a a' → Settles R (answer o a) (answer o' a')) :
    Related ops' Q (p.embed op answer f) (p'.embed op answer f) := by
  induction h with
  | ret h => exact .ret h
  | throw e => exact .throw (f e)
  | await ho _ ih =>
    obtain ⟨R', ho', hanswers⟩ := hops _ _ _ ho
    exact .call_bind ho' fun a a' ha => ih _ _ (hanswers a a' ha)

end Related

end Async
