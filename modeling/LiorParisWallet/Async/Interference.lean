import LiorParisWallet.Async.System
import Mathlib.Logic.Basic

/-!
# One call among others

`Program.wp` is about one call whose operations do what `T` says, while between any two of them the world
may change as `E` says.  In a system whose other calls perform only operations that are such changes, a
call that starts with a weakest precondition ends with its postcondition (`Server.Among.outcome`).
-/

namespace Async

variable {Op : Type} {Ans : Op → Type} {ε Req Rep Ω World α β : Type}

namespace Program

/-- However the operations settle and the world changes between them, the program ends, if it ends, with
    `Q`. -/
def wp (T : (o : Op) → World → Except ε (Ans o) → World → Prop) (E : World → World → Prop) :
    Program Op Ans ε α → (Except ε α → World → Prop) → World → Prop
  | .ret a, Q, w => ∀ w', E w w' → Q (.ok a) w'
  | .throw e, Q, w => ∀ w', E w w' → Q (.error e) w'
  | .await o next, Q, w => ∀ w₁ r w₂, E w w₁ → T o w₁ r w₂ → (next r).wp T E Q w₂

variable {T : (o : Op) → World → Except ε (Ans o) → World → Prop} {E : World → World → Prop}
variable {p : Program Op Ans ε α} {Q Q' : Except ε α → World → Prop} {w w' : World}

theorem wp_mono (h : p.wp T E Q w) (hQ : ∀ r w, Q r w → Q' r w) : p.wp T E Q' w := by
  induction p generalizing w with
  | ret a => exact fun w' he => hQ _ _ (h w' he)
  | throw e => exact fun w' he => hQ _ _ (h w' he)
  | await o next ih => exact fun w₁ r w₂ he ht => ih r (h w₁ r w₂ he ht)

/-- A change of the world before the next operation is one more change. -/
theorem wp_change (htrans : ∀ {w₁ w₂ w₃}, E w₁ w₂ → E w₂ w₃ → E w₁ w₃) (h : p.wp T E Q w)
    (he : E w w') : p.wp T E Q w' := by
  cases p with
  | ret a => exact fun w'' he' => h w'' (htrans he he')
  | throw e => exact fun w'' he' => h w'' (htrans he he')
  | await o next => exact fun w₁ r w₂ he' ht => h w₁ r w₂ (htrans he he') ht

theorem wp_bind (hrefl : ∀ w, E w w) {f : α → Program Op Ans ε β} {Q : Except ε β → World → Prop}
    (h : p.wp T E (fun r w => match r with
      | .ok a => (f a).wp T E Q w
      | .error e => Q (.error e) w) w) : (p >>= f).wp T E Q w := by
  induction p generalizing w with
  | ret a => exact h w (hrefl w)
  | throw e => exact h
  | await o next ih => exact fun w₁ r w₂ he ht => ih r (h w₁ r w₂ he ht)

theorem wp_handle (hrefl : ∀ w, E w w) {f : ε → Program Op Ans ε α}
    (h : p.wp T E (fun r w => match r with
      | .ok a => Q (.ok a) w
      | .error e => (f e).wp T E Q w) w) : (p.handle f).wp T E Q w := by
  induction p generalizing w with
  | ret a => exact h
  | throw e => exact h w (hrefl w)
  | await o next ih => exact fun w₁ r w₂ he ht => ih r (h w₁ r w₂ he ht)

theorem wp_settled {Q : Except ε (Except ε α) → World → Prop}
    (h : p.wp T E (fun r w => Q (.ok r) w) w) : p.settled.wp T E Q w := by
  induction p generalizing w with
  | ret a => exact h
  | throw e => exact h
  | await o next ih => exact fun w₁ r w₂ he ht => ih r (h w₁ r w₂ he ht)

/-- The rule for one awaited operation: `Q` for every way it may settle, and for what happens after it. -/
theorem wp_call {o : Op} {Q : Except ε (Ans o) → World → Prop}
    (h : ∀ w₁ r w₂, E w w₁ → T o w₁ r w₂ → ∀ w₃, E w₂ w₃ → Q r w₃) :
    (call o : Program Op Ans ε (Ans o)).wp T E Q w := by
  intro w₁ r w₂ he ht
  cases r with
  | ok a => exact h w₁ _ w₂ he ht
  | error e => exact h w₁ _ w₂ he ht

/-- The rule for `try { p } finally { q }`: `q` runs however `p` ends. -/
theorem wp_finally (hrefl : ∀ w, E w w) {q : Program Op Ans ε Unit}
    (h : p.wp T E (fun a w => q.wp T E (fun r w => match r with
      | .ok _ => ∀ w', E w w' → Q a w'
      | .error e => Q (.error e) w) w) w) : (p.finally_ q).wp T E Q w := by
  refine wp_bind hrefl (wp_settled (wp_mono h fun a w hq => ?_))
  refine wp_bind hrefl (wp_mono hq fun r w hr => ?_)
  cases r with
  | error e => exact hr
  | ok _ =>
    cases a with
    | ok a => exact hr
    | error e => exact hr

/-- The rule for `Promise.all`: the two parts run one after the other, whatever becomes of the first. -/
theorem wp_both (hrefl : ∀ w, E w w) {q : Program Op Ans ε β} {Q : Except ε (α × β) → World → Prop}
    (h : p.wp T E (fun a w => q.wp T E (fun b w => ∀ w', E w w' → match a, b with
      | .ok a, .ok b => Q (.ok (a, b)) w'
      | .error e, _ => Q (.error e) w'
      | .ok _, .error e => Q (.error e) w') w) w) : (both p q).wp T E Q w := by
  refine wp_bind hrefl (wp_settled (wp_mono h fun a w hq => ?_))
  refine wp_bind hrefl (wp_settled (wp_mono hq fun b w hr => ?_))
  cases a with
  | error e => exact hr
  | ok a =>
    cases b with
    | error e => exact hr
    | ok b => exact hr

/-! ## Without interference -/

/-- The program, run alone in the world `w`, ends with `r` and leaves the world `w'`. -/
inductive Runs (T : (o : Op) → World → Except ε (Ans o) → World → Prop) :
    Program Op Ans ε α → World → Except ε α → World → Prop where
  | ret (a : α) (w : World) : Runs T (.ret a) w (.ok a) w
  | throw (e : ε) (w : World) : Runs T (.throw e) w (.error e) w
  | await {o : Op} {next : Except ε (Ans o) → Program Op Ans ε α} {r : Except ε (Ans o)}
      {r' : Except ε α} {w w₁ w' : World} :
      T o w r w₁ → Runs T (next r) w₁ r' w' → Runs T (.await o next) w r' w'

/-- A program whose operations can always be performed has a run. -/
theorem runs_exists (htotal : ∀ o w, ∃ r w', T o w r w') (p : Program Op Ans ε α) (w : World) :
    ∃ r w', p.Runs T w r w' := by
  induction p generalizing w with
  | ret a => exact ⟨_, w, .ret a w⟩
  | throw e => exact ⟨_, w, .throw e w⟩
  | await o next ih =>
    obtain ⟨r₁, w₁, ht⟩ := htotal o w
    obtain ⟨r, w', hrun⟩ := ih r₁ w₁
    exact ⟨r, w', .await ht hrun⟩

theorem wp_eq_iff : p.wp T Eq Q w ↔ ∀ r w', p.Runs T w r w' → Q r w' := by
  constructor
  · intro h r w' hrun
    induction hrun with
    | ret a w => exact h w rfl
    | throw e w => exact h w rfl
    | await ht _ ih => exact ih (h _ _ _ rfl ht)
  · intro h
    induction p generalizing w with
    | ret a =>
      rintro _ rfl
      exact h _ _ (.ret a w)
    | throw e =>
      rintro _ rfl
      exact h _ _ (.throw e w)
    | await o next ih =>
      rintro _ r w₂ rfl ht
      exact ih r fun r' w' hrun => h r' w' (.await ht hrun)

/-- The rule for one awaited operation of a program that runs alone. -/
theorem wp_call_alone {o : Op} {Q : Except ε (Ans o) → World → Prop}
    (h : ∀ r w₁, T o w r w₁ → Q r w₁) : (call o : Program Op Ans ε (Ans o)).wp T Eq Q w := by
  refine wp_call ?_
  rintro _ r w₁ rfl ht _ rfl
  exact h r w₁ ht

/-- How `Promise.all` settles. -/
def joined : Except ε α → Except ε β → Except ε (α × β)
  | .ok a, .ok b => .ok (a, b)
  | .ok _, .error e => .error e
  | .error e, _ => .error e

theorem wp_both_alone {q : Program Op Ans ε β} {Q : Except ε (α × β) → World → Prop}
    (h : p.wp T Eq (fun a w => q.wp T Eq (fun b w => Q (joined a b) w) w) w) : (both p q).wp T Eq Q w := by
  refine wp_both (fun _ => rfl) (wp_mono h fun a w hq => wp_mono hq fun b w hQ => ?_)
  rintro _ rfl
  cases a <;> cases b <;> exact hQ

/-- The rule for an `await` inside a function that runs alone. -/
theorem wp_await_alone {o : Op} {f : Ans o → Program Op Ans ε α}
    (hok : ∀ a w₁, T o w (.ok a) w₁ → (f a).wp T Eq Q w₁)
    (herror : ∀ e w₁, T o w (.error e) w₁ → Q (.error e) w₁) : (call o >>= f).wp T Eq Q w := by
  refine wp_bind (fun _ => rfl) (wp_call_alone fun r w₁ ht => ?_)
  cases r with
  | ok a => exact hok a w₁ ht
  | error e => exact herror e w₁ ht

/-- The rule for `return g (← p)`. -/
theorem wp_return_alone {g : α → β} {Q : Except ε β → World → Prop}
    (h : p.wp T Eq (fun r w => Q (r.map g) w) w) : (p >>= fun a => pure (g a)).wp T Eq Q w := by
  refine wp_bind (fun _ => rfl) (wp_mono h fun r w' hQ => ?_)
  cases r with
  | ok a =>
    rintro _ rfl
    exact hQ
  | error e => exact hQ

theorem wp_true : p.wp T E (fun _ _ => True) w := by
  induction p generalizing w with
  | ret a => exact fun _ _ => trivial
  | throw e => exact fun _ _ => trivial
  | await o next ih => exact fun _ r _ _ _ => ih r

/-! ## What a call is answered -/

/-- An operation that leaves nothing but its answer, the latest first. -/
def Logs (o : Op) (answers : List (Answer Ans ε)) (r : Except ε (Ans o))
    (answers' : List (Answer Ans ε)) : Prop :=
  answers' = ⟨o, r⟩ :: answers

/-- The rule for an `await` inside a function, where only the answers matter. -/
theorem wp_await_logs {o : Op} {f : Ans o → Program Op Ans ε α} {answers : List (Answer Ans ε)}
    {Q : Except ε α → List (Answer Ans ε) → Prop}
    (hok : ∀ a, (f a).wp Logs Eq Q (⟨o, .ok a⟩ :: answers))
    (herror : ∀ e, Q (.error e) (⟨o, .error e⟩ :: answers)) :
    (call o >>= f).wp Logs Eq Q answers := by
  refine wp_await_alone (fun a _ ht => ?_) fun e _ ht => ?_
  · rw [show _ = _ from ht]
    exact hok a
  · rw [show _ = _ from ht]
    exact herror e

/-- The answers of the operations that have succeeded. -/
def successes (answers : List (Answer Ans ε)) : List (Answer Ans ε) := answers.filter (·.2.isOk)

theorem sublist_of_successes {answers answers' l : List (Answer Ans ε)}
    (h : successes answers' = successes answers) (hl : l.Sublist answers')
    (hok : ∀ x ∈ l, x.2.isOk = true) : l.Sublist answers := by
  have hfilter : (successes l).Sublist (successes answers') := hl.filter _
  rw [successes, List.filter_eq_self.mpr hok, h] at hfilter
  exact hfilter.trans List.filter_sublist

/-- Whatever a program still awaits may fail.  So what its end says of the successful answers holds of those
    that there are already, and what it says of the operations holds of the one that is awaited now. -/
theorem wp_cut {Q : Except ε α → List (Answer Ans ε) → Prop} {answers : List (Answer Ans ε)} (e : ε)
    (h : p.wp Logs Eq Q answers) : ∃ r answers', Q r answers' ∧ successes answers' = successes answers ∧
      answers ⊆ answers' ∧ ∀ o, p.next? = some o → ⟨o, .error e⟩ ∈ answers' := by
  induction p generalizing answers with
  | ret a => exact ⟨_, answers, h _ rfl, rfl, List.Subset.refl _, fun o ho => by cases ho⟩
  | throw e' => exact ⟨_, answers, h _ rfl, rfl, List.Subset.refl _, fun o ho => by cases ho⟩
  | await o next ih =>
    have hfailed : (next (.error e)).wp Logs Eq Q (⟨o, .error e⟩ :: answers) := h _ _ _ rfl rfl
    obtain ⟨r, answers', hQ, hsuccesses, hsubset, -⟩ := ih (.error e) hfailed
    obtain ⟨hhead, htail⟩ := List.cons_subset.mp hsubset
    refine ⟨r, answers', hQ, hsuccesses, htail, fun o' ho' => ?_⟩
    cases ho'
    exact hhead

theorem length_le_of_wp {n : ℕ} {answers : List (Answer Ans ε)} (e : ε)
    (h : p.wp Logs Eq (fun _ answers => answers.length ≤ n) answers) : answers.length ≤ n := by
  induction p generalizing answers with
  | ret a => exact h _ rfl
  | throw e' => exact h _ rfl
  | await o next ih =>
    have hlength := ih (.error e) (h _ _ _ rfl rfl)
    rw [List.length_cons] at hlength
    omega

/-- A program that ends with `n` answers at most, and has not ended, has got fewer. -/
theorem length_lt_of_wp {n : ℕ} {answers : List (Answer Ans ε)} (e : ε)
    (h : p.wp Logs Eq (fun _ answers => answers.length ≤ n) answers) (hnone : p.result? = none) :
    answers.length < n := by
  cases p with
  | ret a => cases hnone
  | throw e' => cases hnone
  | await o next => exact length_le_of_wp e (h _ _ (⟨o, .error e⟩ :: answers) rfl rfl)

end Program

namespace Server

variable {S : Server Op Ans ε Req Rep Ω World}

/-- Whatever holds of the answers that every entry point can get, holds of the answers that the calls of a
    run have got. -/
theorem Reaches.logged {allowed : System Op Ans ε Req Rep World → Label Req Ω → Prop}
    {s s' : System Op Ans ε Req Rep World} {Q : Req → Except ε Rep → List (Answer Ans ε) → Prop}
    (hserve : ∀ req, (S.serve req).wp Program.Logs Eq (Q req) [])
    (hs : ∀ c ∈ s.calls, c.program.wp Program.Logs Eq (Q c.request) c.answers)
    (hr : S.Reaches allowed s s') :
    ∀ c ∈ s'.calls, c.program.wp Program.Logs Eq (Q c.request) c.answers := by
  induction hr with
  | refl => exact hs
  | @tail s₁ s₂ l _ _ hn ih =>
    intro c hc
    cases l with
    | start req =>
      cases hn
      rcases List.mem_append.mp hc with hc | hc
      · exact ih c hc
      · rw [List.mem_singleton.mp hc]
        exact hserve req
    | step j ω =>
      obtain ⟨c₀, o, next, r, world, hc₀, hp, -, rfl⟩ := step_cases hn
      rcases List.mem_or_eq_of_mem_set hc with hc | rfl
      · exact ih c hc
      · have h₀ := ih c₀ (List.mem_of_getElem? hc₀)
        rw [hp] at h₀
        exact h₀ _ r _ rfl rfl

/-- A call that has ended has its property. -/
theorem logged_outcome {c : Call Op Ans ε Req Rep} {Q : Except ε Rep → List (Answer Ans ε) → Prop}
    (h : c.program.wp Program.Logs Eq Q c.answers) {r : Except ε Rep}
    (hr : c.program.result? = some r) : Q r c.answers := by
  cases hp : c.program with
  | ret a =>
    rw [hp] at h hr
    cases hr
    exact h _ rfl
  | throw e =>
    rw [hp] at h hr
    cases hr
    exact h _ rfl
  | await o next =>
    rw [hp] at hr
    cases hr

/-- Only these requests are made, and operations make only these choices. -/
def Admits (R : Req → Prop) (A : Op → Ω → Prop) (s : System Op Ans ε Req Rep World) :
    Label Req Ω → Prop
  | .start req => R req
  | .step i ω => ∀ o, s.awaits i = some o → A o ω

instance {R : Req → Prop} {A : Op → Ω → Prop} [∀ req, Decidable (R req)] [∀ o ω, Decidable (A o ω)]
    (s : System Op Ans ε Req Rep World) : ∀ l, Decidable (Admits R A s l)
  | .start req => inferInstanceAs (Decidable (R req))
  | .step i ω =>
      match h : s.awaits i with
      | none => .isTrue fun o ho => by cases h.symm.trans ho
      | some o => decidable_of_iff (A o ω)
          ⟨fun ha o' ho' => by cases h.symm.trans ho'; exact ha, fun ha => ha o h⟩

/-- Call `i` has `p` left to run, and the others await only operations that satisfy `Φ`. -/
structure Among (Φ : Op → Prop) (i : ℕ) (p : Program Op Ans ε Rep)
    (s : System Op Ans ε Req Rep World) : Prop where
  own : ∃ c, s.calls[i]? = some c ∧ c.program = p
  others : ∀ j c, j ≠ i → s.calls[j]? = some c → c.program.All Φ

variable {Φ : Op → Prop} {i : ℕ} {R : Req → Prop} {A : Op → Ω → Prop} {E : World → World → Prop}
variable {s s' : System Op Ans ε Req Rep World} {p : Program Op Ans ε Rep}

/-- What an operation of call `i` does. -/
def Transition (S : Server Op Ans ε Req Rep Ω World) (A : Op → Ω → Prop) (i : ℕ) (o : Op) (w : World)
    (r : Except ε (Ans o)) (w' : World) : Prop :=
  ∃ ω, A o ω ∧ S.perform i o ω w = some (r, w')

/-- What the environment of call `i` needs in order to consist of the changes `E`. -/
structure Surrounds (S : Server Op Ans ε Req Rep Ω World) (R : Req → Prop) (A : Op → Ω → Prop)
    (Φ : Op → Prop) (E : World → World → Prop) : Prop where
  refl : ∀ w, E w w
  trans : ∀ {w₁ w₂ w₃}, E w₁ w₂ → E w₂ w₃ → E w₁ w₃
  serves : ∀ req, R req → (S.serve req).All Φ
  changes : ∀ {j o ω w r w'}, Φ o → A o ω → S.perform j o ω w = some (r, w') → E w w'

/-- One step of the system: the call has made a step of its own, or its surroundings have changed the
    world. -/
theorem Among.next {Q : Except ε Rep → World → Prop} (hE : S.Surrounds R A Φ E)
    (h : Among Φ i p s) (hwp : p.wp (S.Transition A i) E Q s.world) {l : Label Req Ω}
    (ha : Admits R A s l) (hn : S.next s l = some s') :
    ∃ p', Among Φ i p' s' ∧ p'.wp (S.Transition A i) E Q s'.world := by
  obtain ⟨⟨c, hc, hp⟩, hothers⟩ := h
  have hi := (List.getElem?_eq_some_iff.mp hc).1
  cases l with
  | start req =>
    cases hn
    refine ⟨p, ⟨⟨c, by rw [List.getElem?_append_left hi]; exact hc, hp⟩, fun j c' hj hc' => ?_⟩, hwp⟩
    rw [List.getElem?_append] at hc'
    split at hc'
    · exact hothers j c' hj hc'
    · -- the new call
      rw [List.mem_singleton.mp (List.mem_of_getElem? hc')]
      exact hE.serves req ha
  | step j ω =>
    obtain ⟨c₀, o, next, r, world, hc₀, hp₀, hperf, rfl⟩ := step_cases hn
    have hadmitted : A o ω := ha o (System.awaits_eq hc₀ hp₀)
    by_cases hij : j = i
    · subst hij
      obtain rfl : c₀ = c := Option.some.inj (hc₀.symm.trans hc)
      obtain rfl := hp₀.symm.trans hp
      refine ⟨next r, ⟨⟨_, List.getElem?_set_self hi, rfl⟩, fun k c' hk hc' => ?_⟩,
        hwp _ r world (hE.refl _) ⟨ω, hadmitted, hperf⟩⟩
      rw [List.getElem?_set_ne (Ne.symm hk)] at hc'
      exact hothers k c' hk hc'
    · have hall : c₀.program.All Φ := hothers j c₀ hij hc₀
      rw [hp₀] at hall
      refine ⟨p, ⟨⟨c, by rw [List.getElem?_set_ne hij]; exact hc, hp⟩, fun k c' hk hc' => ?_⟩,
        Program.wp_change hE.trans hwp (hE.changes hall.1 hadmitted hperf)⟩
      by_cases hkj : k = j
      · subst hkj
        rw [List.getElem?_set_self (List.getElem?_eq_some_iff.mp hc₀).1] at hc'
        cases hc'
        exact hall.2 r
      · rw [List.getElem?_set_ne (Ne.symm hkj)] at hc'
        exact hothers k c' hk hc'

theorem Among.reaches {Q : Except ε Rep → World → Prop} (hE : S.Surrounds R A Φ E)
    (h : Among Φ i p s) (hwp : p.wp (S.Transition A i) E Q s.world)
    (hr : S.Reaches (Admits R A) s s') :
    ∃ p', Among Φ i p' s' ∧ p'.wp (S.Transition A i) E Q s'.world := by
  induction hr with
  | refl => exact ⟨p, h, hwp⟩
  | tail _ ha hn ih =>
    obtain ⟨p₁, h₁, hwp₁⟩ := ih
    exact h₁.next hE hwp₁ ha hn

/-- A call that has ended has its postcondition, and nothing of it is left. -/
theorem Among.outcome {Q : Except ε Rep → World → Prop} (hE : S.Surrounds R A Φ E)
    (h : Among Φ i p s) (hwp : p.wp (S.Transition A i) E Q s.world)
    (hr : S.Reaches (Admits R A) s s') {r : Except ε Rep} (ho : s'.outcome i = some r) :
    Q r s'.world ∧ ∀ c ∈ s'.calls, c.program.All Φ := by
  obtain ⟨p', ⟨⟨c, hc, rfl⟩, hothers⟩, hwp'⟩ := h.reaches hE hwp hr
  have hresult : c.program.result? = some r := by rwa [System.outcome, hc] at ho
  have hown : Q r s'.world ∧ c.program.All Φ := by
    cases hp : c.program with
    | ret a =>
      rw [hp] at hresult hwp'
      cases hresult
      exact ⟨hwp' _ (hE.refl _), trivial⟩
    | throw e =>
      rw [hp] at hresult hwp'
      cases hresult
      exact ⟨hwp' _ (hE.refl _), trivial⟩
    | await o next =>
      rw [hp] at hresult
      cases hresult
  refine ⟨hown.1, fun c' hc' => ?_⟩
  obtain ⟨j, hj⟩ := List.mem_iff_getElem?.mp hc'
  by_cases hji : j = i
  · subst hji
    cases hc.symm.trans hj
    exact hown.2
  · exact hothers j c' hji hj

end Server

end Async
