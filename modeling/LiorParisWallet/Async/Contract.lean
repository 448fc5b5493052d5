import LiorParisWallet.Async.System

/-!
# Contracts: rely/guarantee reasoning for interleaved calls

A contract fixes what holds of the world at every moment (`Inv`), what a call owes when it lets an
operation go (`Pre`), and what a call may rely on while it waits (`Rely`).  If every entry point, run
alone, meets the contract (`Meets`), then so does every interleaving of any number of calls
(`sound_reaches`): each operation is performed under its precondition, and a call that returns does so
in a world that satisfies its postcondition.
-/

namespace Async

variable {Op : Type} {Ans : Op → Type} {ε Req Rep Ω World α β : Type}

structure Contract (S : Server Op Ans ε Req Rep Ω World) where
  Inv : World → Prop
  /-- What call `i`, made with this request, guarantees when it performs an operation. -/
  Pre : Req → ℕ → Op → World → Prop
  /-- What the steps of other calls do to the world, as call `i` sees it. -/
  Rely : ℕ → World → World → Prop
  rely_refl : ∀ i w, Rely i w w
  rely_trans : ∀ {i w₁ w₂ w₃}, Rely i w₁ w₂ → Rely i w₂ w₃ → Rely i w₁ w₃
  inv_perform : ∀ {req i o ω w r w'}, Inv w → Pre req i o w →
    S.perform i o ω w = some (r, w') → Inv w'
  rely_perform : ∀ {req i j o ω w r w'}, i ≠ j → Inv w → Pre req j o w →
    S.perform j o ω w = some (r, w') → Rely i w w'

namespace Contract

variable {S : Server Op Ans ε Req Rep Ω World} (C : Contract S)

/-- From the world `w`, however the other calls interfere, call `i` keeps its side of the contract and
    ends, if it ends, so that `Q` holds of its answers, its result and the world. -/
def wp (req : Req) (i : ℕ) (p : Program Op Ans ε α)
    (Q : List (Answer Ans ε) → Except ε α → World → Prop)
    (answers : List (Answer Ans ε)) (w : World) : Prop :=
  match p with
  | .ret a => Q answers (.ok a) w
  | .throw e => Q answers (.error e) w
  -- other calls act before the operation does, and may leave any world that they are relied on to leave
  | .await o next => ∀ w₁, C.Rely i w w₁ → C.Inv w₁ → C.Pre req i o w₁ ∧
      ∀ ω r w₂, S.perform i o ω w₁ = some (r, w₂) →
        wp req i (next r) Q (⟨o, r⟩ :: answers) w₂

variable {C} {req : Req} {i : ℕ} {answers : List (Answer Ans ε)} {w w' : World}

theorem wp_mono {p : Program Op Ans ε α} {Q Q' : List (Answer Ans ε) → Except ε α → World → Prop}
    (h : C.wp req i p Q answers w) (hQ : ∀ answers r w, Q answers r w → Q' answers r w) :
    C.wp req i p Q' answers w := by
  induction p generalizing answers w with
  | ret a => exact hQ _ _ _ h
  | throw e => exact hQ _ _ _ h
  | await o next ih =>
    intro w₁ hrely hinv
    exact ⟨(h w₁ hrely hinv).1, fun ω r w₂ hp => ih r ((h w₁ hrely hinv).2 ω r w₂ hp)⟩

/-- Sequencing: what follows starts where the first part ended, unless that threw. -/
theorem wp_bind {p : Program Op Ans ε α} {f : α → Program Op Ans ε β}
    {Q : List (Answer Ans ε) → Except ε β → World → Prop} :
    C.wp req i (p >>= f) Q answers w ↔
      C.wp req i p (fun answers r w => match r with
        | .ok a => C.wp req i (f a) Q answers w
        | .error e => Q answers (.error e) w) answers w := by
  induction p generalizing answers w with
  | ret a => exact Iff.rfl
  | throw e => exact Iff.rfl
  | await o next ih =>
    refine forall_congr' fun w₁ => forall_congr' fun _ => forall_congr' fun _ =>
      and_congr Iff.rfl ?_
    exact forall_congr' fun ω => forall_congr' fun r => forall_congr' fun w₂ =>
      forall_congr' fun _ => ih r

theorem wp_settled {p : Program Op Ans ε α}
    {Q : List (Answer Ans ε) → Except ε (Except ε α) → World → Prop} :
    C.wp req i p.settled Q answers w ↔
      C.wp req i p (fun answers r w => Q answers (.ok r) w) answers w := by
  induction p generalizing answers w with
  | ret a => exact Iff.rfl
  | throw e => exact Iff.rfl
  | await o next ih =>
    refine forall_congr' fun w₁ => forall_congr' fun _ => forall_congr' fun _ =>
      and_congr Iff.rfl ?_
    exact forall_congr' fun ω => forall_congr' fun r => forall_congr' fun w₂ =>
      forall_congr' fun _ => ih r

theorem wp_handle {p : Program Op Ans ε α} {f : ε → Program Op Ans ε α}
    {Q : List (Answer Ans ε) → Except ε α → World → Prop} :
    C.wp req i (p.handle f) Q answers w ↔
      C.wp req i p (fun answers r w => match r with
        | .ok a => Q answers (.ok a) w
        | .error e => C.wp req i (f e) Q answers w) answers w := by
  induction p generalizing answers w with
  | ret a => exact Iff.rfl
  | throw e => exact Iff.rfl
  | await o next ih =>
    refine forall_congr' fun w₁ => forall_congr' fun _ => forall_congr' fun _ =>
      and_congr Iff.rfl ?_
    exact forall_congr' fun ω => forall_congr' fun r => forall_congr' fun w₂ =>
      forall_congr' fun _ => ih r

/-- The rule for one awaited operation: its precondition, and then `Q` for every way it may settle. -/
theorem wp_call {o : Op} {Q : List (Answer Ans ε) → Except ε (Ans o) → World → Prop}
    (h : ∀ w₁, C.Rely i w w₁ → C.Inv w₁ → C.Pre req i o w₁ ∧
      ∀ ω r w₂, S.perform i o ω w₁ = some (r, w₂) → Q (⟨o, r⟩ :: answers) r w₂) :
    C.wp req i (.call o) Q answers w := by
  intro w₁ hrely hinv
  refine ⟨(h w₁ hrely hinv).1, fun ω r w₂ hp => ?_⟩
  have hQ := (h w₁ hrely hinv).2 ω r w₂ hp
  cases r with
  | ok a => exact hQ
  | error e => exact hQ

theorem wp_ofExcept {x : Except ε α} {Q : List (Answer Ans ε) → Except ε α → World → Prop} :
    C.wp req i (.ofExcept x) Q answers w ↔ Q answers x w := by
  cases x <;> exact Iff.rfl

/-- The postcondition of a function that promises nothing when it throws. -/
def returns (Φ : List (Answer Ans ε) → α → World → Prop) (answers : List (Answer Ans ε))
    (r : Except ε α) (w : World) : Prop :=
  ∀ a, r = .ok a → Φ answers a w

theorem wp_returns_pure {Φ : List (Answer Ans ε) → α → World → Prop} {a : α} (h : Φ answers a w) :
    C.wp req i (pure a) (returns Φ) answers w := by
  intro b hb
  cases hb
  exact h

theorem wp_returns_throw {Φ : List (Answer Ans ε) → α → World → Prop} {e : ε} :
    C.wp req i (throw e) (returns Φ) answers w :=
  fun _ h => nomatch h

/-- The rule for an `await` inside a function: the rest of it runs only if the operation succeeds. -/
theorem wp_await {o : Op} {f : Ans o → Program Op Ans ε α}
    {Φ : List (Answer Ans ε) → α → World → Prop}
    (h : ∀ w₁, C.Rely i w w₁ → C.Inv w₁ → C.Pre req i o w₁ ∧
      ∀ ω a w₂, S.perform i o ω w₁ = some (.ok a, w₂) →
        C.wp req i (f a) (returns Φ) (⟨o, .ok a⟩ :: answers) w₂) :
    C.wp req i (.call o >>= f) (returns Φ) answers w := by
  refine wp_bind.mpr (wp_call fun w₁ hrely hinv => ⟨(h w₁ hrely hinv).1, fun ω r w₂ hp => ?_⟩)
  cases r with
  | ok a => exact (h w₁ hrely hinv).2 ω a w₂ hp
  | error e => exact fun _ h => nomatch h

/-- A function that awaits another: the rest of it runs only if the first part returns. -/
theorem wp_returns_bind {p : Program Op Ans ε α} {f : α → Program Op Ans ε β}
    {Ψ : List (Answer Ans ε) → α → World → Prop} {Φ : List (Answer Ans ε) → β → World → Prop}
    (hp : C.wp req i p (returns Ψ) answers w)
    (hf : ∀ answers a w, Ψ answers a w → C.wp req i (f a) (returns Φ) answers w) :
    C.wp req i (p >>= f) (returns Φ) answers w := by
  refine wp_bind.mpr (wp_mono hp fun answers r w hr => ?_)
  cases r with
  | ok a => exact hf answers a w (hr a rfl)
  | error e => exact fun _ h => nomatch h

/-- The rule for a check that may throw. -/
theorem wp_check {x : Except ε α} {f : α → Program Op Ans ε β}
    {Φ : List (Answer Ans ε) → β → World → Prop}
    (h : ∀ a, x = .ok a → C.wp req i (f a) (returns Φ) answers w) :
    C.wp req i (.ofExcept x >>= f) (returns Φ) answers w := by
  cases x with
  | ok a => exact h a rfl
  | error e => exact wp_returns_throw

/-- The rule for `Promise.all`: the two parts run one after the other. -/
theorem wp_both {p : Program Op Ans ε α} {q : Program Op Ans ε β}
    {Φ : List (Answer Ans ε) → α × β → World → Prop}
    (h : C.wp req i p (fun answers a w => C.wp req i q (fun answers b w =>
      ∀ x y, a = .ok x → b = .ok y → Φ answers (x, y) w) answers w) answers w) :
    C.wp req i (.both p q) (returns Φ) answers w := by
  refine wp_bind.mpr (wp_settled.mpr (wp_mono h fun answers a w hq => ?_))
  refine wp_bind.mpr (wp_settled.mpr (wp_mono hq fun answers b w hΦ => ?_))
  cases a with
  | error e => exact fun _ h => nomatch h
  | ok x =>
    cases b with
    | error e => exact fun _ h => nomatch h
    | ok y => exact wp_returns_pure (hΦ x y rfl rfl)

/-- The rule for `try { p } finally { q }`: `q` runs however `p` ends. -/
theorem wp_finally {p : Program Op Ans ε α} {q : Program Op Ans ε Unit}
    {Q : List (Answer Ans ε) → Except ε α → World → Prop}
    (h : C.wp req i p (fun answers a w => C.wp req i q (fun answers r w => match r with
      | .ok _ => Q answers a w
      | .error e => Q answers (.error e) w) answers w) answers w) :
    C.wp req i (p.finally_ q) Q answers w := by
  refine wp_bind.mpr (wp_settled.mpr (wp_mono h fun answers a w hq => ?_))
  refine wp_bind.mpr (wp_mono hq fun answers r w hr => ?_)
  cases r with
  | ok _ => exact wp_ofExcept.mpr hr
  | error e => exact hr

/-- A program of which every operation may be performed at any time keeps the contract, and is answered
    nothing but such operations. -/
theorem wp_of_all {p : Program Op Ans ε α} {Φ : Op → Prop} (hp : p.All Φ)
    (hΦ : ∀ o w, Φ o → C.Pre req i o w) (hanswers : ∀ x ∈ answers, Φ x.1) :
    C.wp req i p (fun answers _ _ => ∀ x ∈ answers, Φ x.1) answers w := by
  induction p generalizing answers w with
  | ret a => exact hanswers
  | throw e => exact hanswers
  | await o next ih =>
    exact fun w₁ _ _ => ⟨hΦ o w₁ hp.1, fun ω r w₂ _ =>
      ih r (hp.2 r) (List.forall_mem_cons.mpr ⟨hp.1, hanswers⟩)⟩

/-! ## Interleavings -/

/-- Call `i` is in `s`, and what is left of it keeps the contract and its postcondition `Q`. -/
def Tracks (C : Contract S) (Q : Req → List (Answer Ans ε) → Except ε Rep → World → Prop) (i : ℕ)
    (s : System Op Ans ε Req Rep World) : Prop :=
  ∃ c, s.calls[i]? = some c ∧ ∃ w, C.Rely i w s.world ∧
    C.wp c.request i c.program (Q c.request) c.answers w

/-- Every entry point keeps the contract when it is called in a world that satisfies the invariant. -/
def Meets (C : Contract S)
    (Post : ℕ → Req → List (Answer Ans ε) → Except ε Rep → World → Prop) : Prop :=
  ∀ i req w, C.Inv w → C.wp req i (S.serve req) (Post i req) [] w

structure Sound (C : Contract S)
    (Post : ℕ → Req → List (Answer Ans ε) → Except ε Rep → World → Prop)
    (s : System Op Ans ε Req Rep World) : Prop where
  inv : C.Inv s.world
  tracks : ∀ i, i < s.calls.length → C.Tracks (Post i) i s

variable {Post : ℕ → Req → List (Answer Ans ε) → Except ε Rep → World → Prop}
variable {allowed : System Op Ans ε Req Rep World → Label Req Ω → Prop}
variable {s s' : System Op Ans ε Req Rep World}

/-- The operation that a call awaits is performed under its precondition. -/
theorem Tracks.pre {Q : Req → List (Answer Ans ε) → Except ε Rep → World → Prop}
    (h : C.Tracks Q i s) (hinv : C.Inv s.world) {c : Call Op Ans ε Req Rep}
    (hc : s.calls[i]? = some c) {o : Op} {next : Except ε (Ans o) → Program Op Ans ε Rep}
    (hp : c.program = .await o next) : C.Pre c.request i o s.world := by
  obtain ⟨c', hc', w, hrely, hwp⟩ := h
  obtain rfl : c' = c := Option.some.inj (hc'.symm.trans hc)
  rw [hp] at hwp
  exact (hwp _ hrely hinv).1

theorem Tracks.awaited {Q : Req → List (Answer Ans ε) → Except ε Rep → World → Prop}
    (h : C.Tracks Q i s) (hinv : C.Inv s.world) {c : Call Op Ans ε Req Rep}
    (hc : s.calls[i]? = some c) {o : Op} (ho : c.program.next? = some o) : C.Pre c.request i o s.world := by
  cases hp : c.program with
  | ret a => simp only [hp] at ho; cases ho
  | throw e => simp only [hp] at ho; cases ho
  | await o' next =>
    simp only [hp] at ho
    cases ho
    exact h.pre hinv hc hp

/-- A call's own step: the rest of it starts in the world that its operation left. -/
theorem Tracks.own {Q : Req → List (Answer Ans ε) → Except ε Rep → World → Prop} {ω : Ω}
    (h : C.Tracks Q i s) (hinv : C.Inv s.world) (hn : S.step s i ω = some s') :
    ∃ c, s'.calls[i]? = some c ∧ C.wp c.request i c.program (Q c.request) c.answers s'.world := by
  obtain ⟨c, o, next, r, world, hc, hp, hperf, rfl⟩ := Server.step_cases hn
  obtain ⟨c', hc', w, hrely, hwp⟩ := h
  obtain rfl : c' = c := Option.some.inj (hc'.symm.trans hc)
  rw [hp] at hwp
  exact ⟨_, List.getElem?_set_self (List.getElem?_eq_some_iff.mp hc).1,
    (hwp _ hrely hinv).2 _ _ _ hperf⟩

theorem Tracks.next {Q : Req → List (Answer Ans ε) → Except ε Rep → World → Prop}
    {l : Label Req Ω} (h : C.Tracks Q i s) (hs : C.Sound Post s) (hn : S.next s l = some s') :
    C.Tracks Q i s' := by
  cases l with
  | start req =>
    cases hn
    obtain ⟨c, hc, hw⟩ := h
    have hi := (List.getElem?_eq_some_iff.mp hc).1
    exact ⟨c, by rw [List.getElem?_append_left hi]; exact hc, hw⟩
  | step j ω =>
    by_cases hij : i = j
    · subst hij
      obtain ⟨c, hc, hwp⟩ := h.own hs.inv hn
      exact ⟨c, hc, _, C.rely_refl _ _, hwp⟩
    · -- the step of another call is one more thing that call `i` has relied on
      obtain ⟨c, o, next, r, world, hc, hp, hperf, rfl⟩ := Server.step_cases hn
      obtain ⟨c', hc', w, hrely, hwp⟩ := h
      have hpre := (hs.tracks j (List.getElem?_eq_some_iff.mp hc).1).pre hs.inv hc hp
      refine ⟨c', by rw [List.getElem?_set_ne (Ne.symm hij)]; exact hc', w, ?_, hwp⟩
      exact C.rely_trans hrely (C.rely_perform hij hs.inv hpre hperf)

/-- A step keeps every call on track, provided that a call that it starts begins well. -/
theorem sound_next_of {l : Label Req Ω}
    (hstart : ∀ req, l = .start req →
      C.wp req s.calls.length (S.serve req) (Post s.calls.length req) [] s.world)
    (hs : C.Sound Post s) (hn : S.next s l = some s') : C.Sound Post s' := by
  have htracks : ∀ i, i < s.calls.length → C.Tracks (Post i) i s' :=
    fun i hi => (hs.tracks i hi).next hs hn
  cases l with
  | start req =>
    cases hn
    refine ⟨hs.inv, fun i hi => ?_⟩
    by_cases hlt : i < s.calls.length
    · exact htracks i hlt
    · -- the new call is the last one, and nothing of it has run
      rw [List.length_append, List.length_singleton] at hi
      obtain rfl : i = s.calls.length := by omega
      exact ⟨_, List.getElem?_concat_length, _, C.rely_refl _ _, hstart req rfl⟩
  | step j ω =>
    obtain ⟨c, o, next, r, world, hc, hp, hperf, rfl⟩ := Server.step_cases hn
    -- the precondition holds because call `j` was tracked up to this step
    have hpre := (hs.tracks j (List.getElem?_eq_some_iff.mp hc).1).pre hs.inv hc hp
    refine ⟨C.inv_perform hs.inv hpre hperf, fun i hi => htracks i ?_⟩
    rwa [List.length_set] at hi

theorem sound_next {l : Label Req Ω} (hm : C.Meets Post) (hs : C.Sound Post s)
    (hn : S.next s l = some s') : C.Sound Post s' :=
  sound_next_of (fun req _ => hm _ req _ hs.inv) hs hn

/-- Every interleaving of calls keeps the contract. -/
theorem sound_reaches (hm : C.Meets Post) (hs : C.Sound Post s) (h : S.Reaches allowed s s') :
    C.Sound Post s' := by
  induction h with
  | refl => exact hs
  | tail _ _ hn ih => exact sound_next hm ih hn

/-- A system that has not been called yet. -/
theorem sound_idle (hinv : C.Inv w) : C.Sound Post ⟨w, []⟩ :=
  ⟨hinv, fun _ hi => absurd hi (Nat.not_lt_zero _)⟩

/-- The world was changed by others than the calls, as every call can rely on. -/
theorem Sound.interfered (hs : C.Sound Post s) (hinv : C.Inv w') (hrely : ∀ i, C.Rely i s.world w') :
    C.Sound Post { s with world := w' } where
  inv := hinv
  tracks i hi := by
    obtain ⟨c, hc, w, hrely₀, hwp⟩ := hs.tracks i hi
    exact ⟨c, hc, w, C.rely_trans hrely₀ (hrely i), hwp⟩

/-- A call that has ended did so in a world with its postcondition. -/
theorem Tracks.outcome {Q : Req → List (Answer Ans ε) → Except ε Rep → World → Prop}
    (h : C.Tracks Q i s) {c : Call Op Ans ε Req Rep} (hc : s.calls[i]? = some c)
    {r : Except ε Rep} (hr : c.program.result? = some r) :
    ∃ w, C.Rely i w s.world ∧ Q c.request c.answers r w := by
  obtain ⟨c', hc', w, hrely, hwp⟩ := h
  obtain rfl : c' = c := Option.some.inj (hc'.symm.trans hc)
  refine ⟨w, hrely, ?_⟩
  cases hp : c'.program with
  | ret a => rw [hp] at hwp hr; cases hr; exact hwp
  | throw e => rw [hp] at hwp hr; cases hr; exact hwp
  | await o next => rw [hp] at hr; cases hr

/-- A call that returns in this very step leaves a world with its postcondition. -/
theorem Tracks.returns {Q : Req → List (Answer Ans ε) → Except ε Rep → World → Prop} {ω : Ω}
    (h : C.Tracks Q i s) (hinv : C.Inv s.world) (hn : S.step s i ω = some s')
    {c : Call Op Ans ε Req Rep} (hc : s'.calls[i]? = some c)
    {r : Except ε Rep} (hr : c.program.result? = some r) : Q c.request c.answers r s'.world := by
  obtain ⟨c', hc', hwp⟩ := h.own hinv hn
  obtain rfl : c' = c := Option.some.inj (hc'.symm.trans hc)
  cases hp : c'.program with
  | ret a => rw [hp] at hwp hr; cases hr; exact hwp
  | throw e => rw [hp] at hwp hr; cases hr; exact hwp
  | await o next => rw [hp] at hr; cases hr

/-- Induction over a run: what holds at its start, is indifferent to new calls and is kept by every
    operation performed under the contract holds at its end. -/
theorem reaches_induction (hm : C.Meets Post) (hs : C.Sound Post s) (h : S.Reaches allowed s s')
    (J : System Op Ans ε Req Rep World → Prop) (init : J s)
    (start : ∀ s req, C.Sound Post s → J s →
      J { s with calls := s.calls ++ [⟨req, [], S.serve req⟩] })
    (step : ∀ s i ω (c : Call Op Ans ε Req Rep) o next r world, C.Sound Post s →
      allowed s (.step i ω) → s.calls[i]? = some c → c.program = .await o next →
      C.Pre c.request i o s.world → S.perform i o ω s.world = some (r, world) → J s →
      J ⟨world, s.calls.set i ⟨c.request, ⟨o, r⟩ :: c.answers, next r⟩⟩) : J s' := by
  induction h with
  | refl => exact init
  | @tail s₁ s₂ l hr ha hn ih =>
    have hs₁ := sound_reaches hm hs hr
    cases l with
    | start req => cases hn; exact start _ _ hs₁ ih
    | step i ω =>
      obtain ⟨c, o, next, r, world, hc, hp, hperf, rfl⟩ := Server.step_cases hn
      have hpre := (hs₁.tracks i (List.getElem?_eq_some_iff.mp hc).1).pre hs₁.inv hc hp
      exact step _ i ω c o next r world hs₁ ha hc hp hpre hperf ih

/-! ## Calls that begin

A call may rely on the world knowing nothing of it when it begins, if only its own operations leave
traces of it.
-/

section New

variable {New : ℕ → World → Prop}

/-- Only the operations of call `i` change whether `New i` holds. -/
def Unmarked (S : Server Op Ans ε Req Rep Ω World) (New : ℕ → World → Prop) : Prop :=
  ∀ {i j o ω w r w'}, i ≠ j → New i w → S.perform j o ω w = some (r, w') → New i w'

/-- Every entry point keeps the contract when it begins. -/
def MeetsNew (C : Contract S) (New : ℕ → World → Prop)
    (Post : ℕ → Req → List (Answer Ans ε) → Except ε Rep → World → Prop) : Prop :=
  ∀ i req w, C.Inv w → New i w → C.wp req i (S.serve req) (Post i req) [] w

structure SoundNew (C : Contract S) (New : ℕ → World → Prop)
    (Post : ℕ → Req → List (Answer Ans ε) → Except ε Rep → World → Prop)
    (s : System Op Ans ε Req Rep World) : Prop extends C.Sound Post s where
  fresh : ∀ i, s.calls.length ≤ i → New i s.world

theorem soundNew_next {l : Label Req Ω} (hm : C.MeetsNew New Post) (hnew : Unmarked S New)
    (hs : C.SoundNew New Post s) (hn : S.next s l = some s') : C.SoundNew New Post s' := by
  refine ⟨sound_next_of (fun req _ => hm _ req _ hs.inv (hs.fresh _ (Nat.le_refl _))) hs.toSound hn,
    fun i hi => ?_⟩
  cases l with
  | start req =>
    cases hn
    rw [List.length_append, List.length_singleton] at hi
    exact hs.fresh i (Nat.le_of_succ_le hi)
  | step j ω =>
    obtain ⟨c, o, next, r, world, hc, hp, hperf, rfl⟩ := Server.step_cases hn
    have hj := (List.getElem?_eq_some_iff.mp hc).1
    rw [List.length_set] at hi
    exact hnew (by omega : i ≠ j) (hs.fresh i hi) hperf

theorem soundNew_reaches (hm : C.MeetsNew New Post) (hnew : Unmarked S New)
    (hs : C.SoundNew New Post s) (h : S.Reaches allowed s s') : C.SoundNew New Post s' := by
  induction h with
  | refl => exact hs
  | tail _ _ hn ih => exact soundNew_next hm hnew ih hn

end New

end Contract

end Async
