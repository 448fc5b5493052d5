import LiorParisWallet.Async.Components

/-!
# What an exception is to be blamed on

A program that throws has been given an answer that it could not go on with.  `Fatal x earlier` says that the
answer `x` is such an answer after the `earlier` ones, and a program `Blames` them if it throws nothing that
satisfies `E` without one.
-/

namespace Async

variable {Op : Type} {Ans : Op → Type} {ε Req Rep Ω World α β : Type}

/-- One of the answers was fatal when it was given. -/
def Blamed (Fatal : Answer Ans ε → List (Answer Ans ε) → Prop) : List (Answer Ans ε) → Prop
  | [] => False
  | x :: earlier => Fatal x earlier ∨ Blamed Fatal earlier

namespace Program

/-- It throws an exception that satisfies `E` only after a fatal answer, and returns with answers that satisfy
    `Q`. -/
def Blames (E : ε → Prop) (Fatal : Answer Ans ε → List (Answer Ans ε) → Prop)
    (Q : α → List (Answer Ans ε) → Prop) : Program Op Ans ε α → List (Answer Ans ε) → Prop
  | .ret a, answers => Q a answers
  | .throw e, answers => E e → Blamed Fatal answers
  | .await o next, answers => ∀ r, (next r).Blames E Fatal Q (⟨o, r⟩ :: answers)

variable {E : ε → Prop} {Fatal : Answer Ans ε → List (Answer Ans ε) → Prop}
variable {Q Q' : α → List (Answer Ans ε) → Prop} {R : β → List (Answer Ans ε) → Prop}
variable {p : Program Op Ans ε α} {answers : List (Answer Ans ε)}

theorem blames_throw {e : ε} (he : ¬ E e) : (throw e : Program Op Ans ε α).Blames E Fatal Q answers :=
  fun h => absurd h he

theorem Blames.mono (h : p.Blames E Fatal Q answers) (hQ : ∀ a answers, Q a answers → Q' a answers) :
    p.Blames E Fatal Q' answers := by
  induction p generalizing answers with
  | ret a => exact hQ a answers h
  | throw e => exact h
  | await o next ih => exact fun r => ih r (h r)

theorem Blames.bind {f : α → Program Op Ans ε β} (h : p.Blames E Fatal Q answers)
    (hf : ∀ a answers, Q a answers → (f a).Blames E Fatal R answers) :
    (p >>= f).Blames E Fatal R answers := by
  show (p.bind f).Blames E Fatal R answers
  induction p generalizing answers with
  | ret a => exact hf a answers h
  | throw e => exact h
  | await o next ih => exact fun r => ih r (h r)

/-- An operation that throws such an exception is to blame itself. -/
theorem blames_call {o : Op} {Q : Ans o → List (Answer Ans ε) → Prop}
    (hfatal : ∀ e, E e → Fatal ⟨o, .error e⟩ answers) (hQ : ∀ a, Q a (⟨o, .ok a⟩ :: answers)) :
    (call o : Program Op Ans ε (Ans o)).Blames E Fatal Q answers := by
  intro r
  cases r with
  | ok a => exact hQ a
  | error e => exact fun he => .inl (hfatal e he)

/-- The rule for an `await` inside a function. -/
theorem blames_await {o : Op} {f : Ans o → Program Op Ans ε α} (hfatal : ∀ e, E e → Fatal ⟨o, .error e⟩ answers)
    (hf : ∀ a, (f a).Blames E Fatal Q (⟨o, .ok a⟩ :: answers)) :
    (call o >>= f).Blames E Fatal Q answers := by
  intro r
  cases r with
  | ok a => exact hf a
  | error e => exact fun he => .inl (hfatal e he)

theorem Blames.settled (h : p.Blames E Fatal Q answers) :
    p.settled.Blames E Fatal (fun x answers => ∀ e, x = .error e → E e → Blamed Fatal answers) answers := by
  induction p generalizing answers with
  | ret a =>
    intro e he
    cases he
  | throw e =>
    intro e' he
    cases he
    exact h
  | await o next ih => exact fun r => ih r (h r)

/-- What was blamed stays blamed. -/
theorem Blames.of_blamed (h : Blamed Fatal answers) (hp : p.Blames E Fatal Q answers) :
    p.Blames E Fatal (fun _ answers => Blamed Fatal answers) answers := by
  induction p generalizing answers with
  | ret a => exact h
  | throw e => exact hp
  | await o next ih => exact fun r => ih r (.inr h) (hp r)

/-- The rule for `Promise.all`. -/
theorem Blames.both {q : Program Op Ans ε β} (hp : p.Blames E Fatal Q answers)
    (hq : ∀ answers, q.Blames E Fatal R answers) :
    (both p q).Blames E Fatal (fun _ _ => True) answers := by
  refine hp.settled.bind fun x answers hx => ?_
  cases x with
  | ok a =>
    refine (hq answers).settled.bind fun y answers hy => ?_
    cases y with
    | ok b => trivial
    | error e => exact hy e rfl
  | error e =>
    by_cases he : E e
    · exact ((hq answers).settled.of_blamed (hx e rfl he)).bind fun y answers h _ => h
    · exact (hq answers).settled.bind fun y answers _ => blames_throw he

end Program

/-- A program of a component blames, when the whole server runs it, what the component's answers are taken
    from. -/
theorem Component.blames_embed {Op' : Type} {Ans' : Op' → Type} {ε' Req' Rep' Ω' World' : Type}
    {S : Server Op Ans ε Req Rep Ω World} {S' : Server Op' Ans' ε' Req' Rep' Ω' World'} {K : Component S S'}
    {E : ε → Prop} {E' : ε' → Prop} {Fatal : Answer Ans ε → List (Answer Ans ε) → Prop}
    {Fatal' : Answer Ans' ε' → List (Answer Ans' ε') → Prop} {Q : α → List (Answer Ans ε) → Prop} {f : ε → ε'}
    (hE : ∀ e, E' (f e) → E e) (herror : ∀ o e answers, E' e → Fatal' ⟨K.op o, .error e⟩ answers)
    (hfatal : ∀ o a answers answers', K.Reports answers answers' → Fatal ⟨o, K.answer o a⟩ answers →
      Fatal' ⟨K.op o, .ok a⟩ answers')
    {p : Program Op Ans ε α} {answers : List (Answer Ans ε)} {known answers' : List (Answer Ans' ε')}
    (h : p.Blames E Fatal Q answers) (hreports : K.Reports answers answers') (hknown : known ⊆ answers')
    (hblamed : Blamed Fatal answers → Blamed Fatal' answers') :
    (K.embed f p).Blames E' Fatal' (fun a answers' => known ⊆ answers' ∧
      ∃ answers, K.Reports answers answers' ∧ Q a answers) answers' := by
  induction p generalizing answers answers' with
  | ret a => exact ⟨hknown, answers, hreports, h⟩
  | throw e => exact fun he => hblamed (h (hE e he))
  | await o next ih =>
    refine Program.blames_await (o := K.op o) (fun e he => herror o e answers' he) fun a => ?_
    refine ih _ (h (K.answer o a)) (hreports.cons a) (List.subset_cons_of_subset _ hknown) ?_
    rintro (hx | hblame)
    · exact .inl (hfatal o a answers answers' hreports hx)
    · exact .inr (hblamed hblame)

namespace Server

variable {S : Server Op Ans ε Req Rep Ω World} {E : ε → Prop}
variable {Fatal : Answer Ans ε → List (Answer Ans ε) → Prop} {Q : Req → Rep → List (Answer Ans ε) → Prop}
variable {allowed : System Op Ans ε Req Rep World → Label Req Ω → Prop} {w : World}
variable {s : System Op Ans ε Req Rep World}

theorem Reaches.blames (hserve : ∀ req, (S.serve req).Blames E Fatal (Q req) []) (h : S.Reaches allowed ⟨w, []⟩ s) :
    ∀ c ∈ s.calls, c.program.Blames E Fatal (Q c.request) c.answers := by
  induction h with
  | refl =>
    intro c hc
    cases hc
  | @tail s₁ s₂ l _ _ hn ih =>
    cases l with
    | start req =>
      cases hn
      intro c hc
      rcases List.mem_append.mp hc with hc | hc
      · exact ih c hc
      · rw [List.mem_singleton.mp hc]
        exact hserve req
    | step i ω =>
      obtain ⟨c₀, o, next, r, world, hc₀, hp, -, rfl⟩ := step_cases hn
      intro c hc
      rcases List.mem_or_eq_of_mem_set hc with hc | rfl
      · exact ih c hc
      · have h₀ := ih c₀ (List.mem_of_getElem? hc₀)
        rw [hp] at h₀
        exact h₀ r

/-- A call that has thrown such an exception has been given a fatal answer. -/
theorem blamed_of_thrown (hserve : ∀ req, (S.serve req).Blames E Fatal (Q req) [])
    (h : S.Reaches allowed ⟨w, []⟩ s) {c : Call Op Ans ε Req Rep} (hc : c ∈ s.calls) {e : ε}
    (hresult : c.program.result? = some (.error e)) (he : E e) : Blamed Fatal c.answers := by
  have hblames := h.blames hserve c hc
  cases hp : c.program with
  | ret a =>
    rw [hp] at hresult
    cases hresult
  | throw e' =>
    rw [hp] at hresult hblames
    cases hresult
    exact hblames he
  | await o next =>
    rw [hp] at hresult
    cases hresult

end Server

end Async
