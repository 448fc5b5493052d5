import LiorParisWallet.Async.System
import Mathlib.Data.List.Basic

/-!
# What a call knows

A call knows what its operations have answered, and nothing else.  A program is `Informed` if it never awaits
an operation without having been given the answers that `Φ` asks for, provided that every answer is one of
those that its operation can give (`T`).  In every run, then, whoever has performed such an operation had been
given them.
-/

namespace Async

variable {Op : Type} {Ans : Op → Type} {ε Req Rep Ω World α β : Type}

/-- Every operation was awaited with earlier answers that satisfy `Φ`, and its answer is one that it can
    give. -/
def Justified (T : Answer Ans ε → Prop) (Φ : List (Answer Ans ε) → Op → Prop) : List (Answer Ans ε) → Prop
  | [] => True
  | x :: earlier => (T x ∧ Φ earlier x.1) ∧ Justified T Φ earlier

theorem Justified.of_mem {T : Answer Ans ε → Prop} {Φ : List (Answer Ans ε) → Op → Prop}
    {answers : List (Answer Ans ε)} (h : Justified T Φ answers) {x : Answer Ans ε} (hx : x ∈ answers) :
    T x ∧ ∃ earlier, earlier ⊆ answers ∧ Φ earlier x.1 := by
  induction answers with
  | nil => cases hx
  | cons y earlier ih =>
    cases hx with
    | head => exact ⟨h.1.1, earlier, List.subset_cons_self _ _, h.1.2⟩
    | tail _ hx =>
      obtain ⟨hT, answers, hsub, hΦ⟩ := ih h.2 hx
      exact ⟨hT, answers, List.subset_cons_of_subset _ hsub, hΦ⟩

namespace Program

/-- Every operation is awaited with answers that satisfy `Φ`, and a value is returned with answers that
    satisfy `Q`. -/
def Informed (T : Answer Ans ε → Prop) (Φ : List (Answer Ans ε) → Op → Prop)
    (Q : α → List (Answer Ans ε) → Prop) : Program Op Ans ε α → List (Answer Ans ε) → Prop
  | .ret a, answers => Q a answers
  | .throw _, _ => True
  | .await o next, answers => Φ answers o ∧ ∀ r, T ⟨o, r⟩ → (next r).Informed T Φ Q (⟨o, r⟩ :: answers)

variable {T : Answer Ans ε → Prop} {Φ : List (Answer Ans ε) → Op → Prop}
variable {Q : α → List (Answer Ans ε) → Prop} {R : β → List (Answer Ans ε) → Prop}
variable {p : Program Op Ans ε α} {answers : List (Answer Ans ε)}

theorem Informed.mono {Q' : α → List (Answer Ans ε) → Prop} (h : p.Informed T Φ Q answers)
    (hQ : ∀ a answers, Q a answers → Q' a answers) : p.Informed T Φ Q' answers := by
  induction p generalizing answers with
  | ret a => exact hQ a answers h
  | throw e => trivial
  | await o next ih => exact ⟨h.1, fun r hr => ih r (h.2 r hr)⟩

theorem Informed.bind {f : α → Program Op Ans ε β} (h : p.Informed T Φ Q answers)
    (hf : ∀ a answers, Q a answers → (f a).Informed T Φ R answers) :
    (p >>= f).Informed T Φ R answers := by
  show (p.bind f).Informed T Φ R answers
  induction p generalizing answers with
  | ret a => exact hf a answers h
  | throw e => trivial
  | await o next ih => exact ⟨h.1, fun r hr => ih r (h.2 r hr)⟩

theorem informed_call {o : Op} {Q : Ans o → List (Answer Ans ε) → Prop} (ho : Φ answers o)
    (hQ : ∀ a, T ⟨o, .ok a⟩ → Q a (⟨o, .ok a⟩ :: answers)) :
    (call o : Program Op Ans ε (Ans o)).Informed T Φ Q answers := by
  refine ⟨ho, fun r hr => ?_⟩
  cases r with
  | ok a => exact hQ a hr
  | error e => trivial

/-- The rule for an `await` inside a function. -/
theorem informed_await {o : Op} {f : Ans o → Program Op Ans ε α} (ho : Φ answers o)
    (hf : ∀ a, T ⟨o, .ok a⟩ → (f a).Informed T Φ Q (⟨o, .ok a⟩ :: answers)) :
    (call o >>= f).Informed T Φ Q answers :=
  (informed_call (Q := fun a answers' => T ⟨o, .ok a⟩ ∧ answers' = ⟨o, .ok a⟩ :: answers) ho
    fun _ ha => ⟨ha, rfl⟩).bind fun a _ h => h.2 ▸ hf a h.1

/-- The rule for a check that may throw. -/
theorem informed_check {x : Except ε α} {f : α → Program Op Ans ε β}
    (hf : ∀ a, x = .ok a → (f a).Informed T Φ R answers) :
    (ofExcept x >>= f).Informed T Φ R answers := by
  cases x with
  | ok a => exact hf a rfl
  | error e => trivial

/-- A call does not forget. -/
theorem Informed.remembers (h : p.Informed T Φ Q answers) :
    p.Informed T Φ (fun a answers' => answers ⊆ answers' ∧ Q a answers') answers := by
  suffices h' : ∀ earlier, earlier ⊆ answers →
      p.Informed T Φ (fun a answers' => earlier ⊆ answers' ∧ Q a answers') answers from
    h' answers fun _ hx => hx
  induction p generalizing answers with
  | ret a => exact fun earlier hsub => ⟨hsub, h⟩
  | throw e => exact fun _ _ => trivial
  | await o next ih =>
    exact fun earlier hsub =>
      ⟨h.1, fun r hr => ih r (h.2 r hr) earlier (List.subset_cons_of_subset _ hsub)⟩

theorem Informed.settled (h : p.Informed T Φ Q answers) :
    p.settled.Informed T Φ (fun _ _ => True) answers := by
  induction p generalizing answers with
  | ret a => trivial
  | throw e => trivial
  | await o next ih => exact ⟨h.1, fun r hr => ih r (h.2 r hr)⟩

/-- The rule for `Promise.all`. -/
theorem Informed.both {q : Program Op Ans ε β} (hp : p.Informed T Φ Q answers)
    (hq : ∀ answers, q.Informed T Φ R answers) :
    (both p q).Informed T Φ (fun _ _ => True) answers := by
  refine hp.settled.bind fun x answers _ => (hq answers).settled.bind fun y answers _ => ?_
  cases x <;> cases y <;> trivial

end Program

namespace Server

variable {S : Server Op Ans ε Req Rep Ω World}

/-- In every run, what a call has performed it was informed for, and what is left of it is informed by the
    answers that it has got. -/
theorem Reaches.informed {allowed : System Op Ans ε Req Rep World → Label Req Ω → Prop}
    {s s' : System Op Ans ε Req Rep World} {T : Answer Ans ε → Prop}
    {Φ : Req → List (Answer Ans ε) → Op → Prop} {Q : Req → Rep → List (Answer Ans ε) → Prop}
    (hT : ∀ {i o ω w r w'}, S.perform i o ω w = some (r, w') → T ⟨o, r⟩)
    (hserve : ∀ req, (S.serve req).Informed T (Φ req) (Q req) [])
    (hs : ∀ c ∈ s.calls,
      Justified T (Φ c.request) c.answers ∧ c.program.Informed T (Φ c.request) (Q c.request) c.answers)
    (hr : S.Reaches allowed s s') : ∀ c ∈ s'.calls,
      Justified T (Φ c.request) c.answers ∧ c.program.Informed T (Φ c.request) (Q c.request) c.answers := by
  induction hr with
  | refl => exact hs
  | @tail s₁ s₂ l _ _ hn ih =>
    intro c hc
    cases l with
    | start req =>
      cases hn
      rcases List.mem_append.mp hc with hc | hc
      · exact ih c hc
      · rw [List.mem_singleton.mp hc]
        exact ⟨trivial, hserve req⟩
    | step j ω =>
      obtain ⟨c₀, o, next, r, world, hc₀, hp, hperform, rfl⟩ := step_cases hn
      rcases List.mem_or_eq_of_mem_set hc with hc | rfl
      · exact ih c hc
      · obtain ⟨hjustified, hinformed⟩ := ih c₀ (List.mem_of_getElem? hc₀)
        rw [hp] at hinformed
        exact ⟨⟨⟨hT hperform, hinformed.1⟩, hjustified⟩, hinformed.2 r (hT hperform)⟩

end Server

end Async
