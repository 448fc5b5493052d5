import LiorParisWallet.Async.System

/-!
# One call after the other

`Server.Runs` is the meaning of a program that nothing interrupts: it performs its operations one after
the other and ends.  A session is a list of requests each of which is made when the one before it has
been answered.  Both are particular runs of the interleaved system (`Runs.reaches`, `Session.reaches`).
-/

namespace Async

variable {Op : Type} {Ans : Op → Type} {ε Req Rep Ω World α β : Type}

/-- A request, how it was answered, and the worlds before and after. -/
structure Exchange (ε Req Rep World : Type) where
  request : Req
  reply : Except ε Rep
  before : World
  after : World

namespace Server

variable (S : Server Op Ans ε Req Rep Ω World)

/-- The program, run alone by call `i` in the world `w`, ends with `r` and leaves the world `w'`. -/
inductive Runs (i : ℕ) : Program Op Ans ε α → World → Except ε α → World → Prop where
  | ret (a : α) (w : World) : Runs i (.ret a) w (.ok a) w
  | throw (e : ε) (w : World) : Runs i (.throw e) w (.error e) w
  | await {o : Op} {next : Except ε (Ans o) → Program Op Ans ε α} {ω : Ω} {r : Except ε (Ans o)}
      {r' : Except ε α} {w w₁ w' : World} :
      S.perform i o ω w = some (r, w₁) → Runs i (next r) w₁ r' w' → Runs i (.await o next) w r' w'

/-- The same, computed from the choices that the operations make. -/
def execute (i : ℕ) : List Ω → Program Op Ans ε α → World → Option (Except ε α × World)
  | _, .ret a, w => some (.ok a, w)
  | _, .throw e, w => some (.error e, w)
  | [], .await _ _, _ => none
  | ω :: ωs, .await o next, w => (S.perform i o ω w).bind fun x => execute i ωs (next x.1) x.2

/-- The requests are made one after the other, the first of them as call `i`. -/
inductive Session : ℕ → World → List (Exchange ε Req Rep World) → World → Prop where
  | nil (i : ℕ) (w : World) : Session i w [] w
  | cons {i : ℕ} {req : Req} {r : Except ε Rep} {w w₁ w' : World}
      {xs : List (Exchange ε Req Rep World)} :
      Runs S i (S.serve req) w r w₁ → Session (i + 1) w₁ xs w' →
        Session i w (⟨req, r, w, w₁⟩ :: xs) w'

variable {S} {i : ℕ} {w w' : World}

theorem runs_of_execute {ωs : List Ω} {p : Program Op Ans ε α} {r : Except ε α}
    (h : S.execute i ωs p w = some (r, w')) : S.Runs i p w r w' := by
  induction p generalizing ωs w with
  | ret a =>
    rw [execute] at h
    cases h
    exact .ret a _
  | throw e =>
    rw [execute] at h
    cases h
    exact .throw e _
  | await o next ih =>
    cases ωs with
    | nil => cases h
    | cons ω ωs =>
      obtain ⟨⟨r₁, w₁⟩, hp, hrest⟩ := Option.bind_eq_some_iff.mp h
      exact .await hp (ih r₁ hrest)

/-! ## Rules -/

theorem runs_pure {a : α} {r : Except ε α} :
    S.Runs i (pure a) w r w' ↔ r = .ok a ∧ w' = w := by
  constructor
  · intro h
    cases h
    exact ⟨rfl, rfl⟩
  · rintro ⟨rfl, rfl⟩
    exact .ret a _

theorem runs_throw {e : ε} {r : Except ε α} :
    S.Runs i (throw e : Program Op Ans ε α) w r w' ↔ r = .error e ∧ w' = w := by
  constructor
  · intro h
    cases h
    exact ⟨rfl, rfl⟩
  · rintro ⟨rfl, rfl⟩
    exact .throw e _

theorem runs_ofExcept {x r : Except ε α} :
    S.Runs i (.ofExcept x) w r w' ↔ r = x ∧ w' = w := by
  cases x with
  | ok a => exact runs_pure
  | error e => exact runs_throw

theorem runs_call {o : Op} {r : Except ε (Ans o)} :
    S.Runs i (.call o) w r w' ↔ ∃ ω, S.perform i o ω w = some (r, w') := by
  constructor
  · intro h
    cases h with
    | await hp hrest =>
      obtain ⟨rfl, rfl⟩ := runs_ofExcept.mp hrest
      exact ⟨_, hp⟩
  · rintro ⟨ω, hp⟩
    exact .await hp (runs_ofExcept.mpr ⟨rfl, rfl⟩)

/-- Sequencing: what follows runs in the world that the first part left, unless that threw. -/
theorem runs_bind {p : Program Op Ans ε α} {f : α → Program Op Ans ε β} {r : Except ε β} :
    S.Runs i (p >>= f) w r w' ↔
      (∃ a w₁, S.Runs i p w (.ok a) w₁ ∧ S.Runs i (f a) w₁ r w') ∨
        ∃ e, S.Runs i p w (.error e) w' ∧ r = .error e := by
  constructor
  · intro h
    induction p generalizing w with
    | ret a => exact .inl ⟨a, w, .ret a w, h⟩
    | throw e =>
      obtain ⟨rfl, rfl⟩ := runs_throw.mp h
      exact .inr ⟨e, .throw e _, rfl⟩
    | await o next ih =>
      cases h with
      | await hp hrest =>
        rcases ih _ hrest with ⟨a, w₁, hrun, hf⟩ | ⟨e, hrun, rfl⟩
        · exact .inl ⟨a, w₁, .await hp hrun, hf⟩
        · exact .inr ⟨e, .await hp hrun, rfl⟩
  · rintro (⟨a, w₁, hrun, hf⟩ | ⟨e, hrun, rfl⟩)
    · generalize hr : (Except.ok a : Except ε α) = r₁ at hrun
      induction hrun with
      | ret a' w₀ =>
        cases hr
        exact hf
      | throw e w₀ => cases hr
      | await hp _ ih => exact .await hp (ih hf hr)
    · generalize hr : (Except.error e : Except ε α) = r₁ at hrun
      induction hrun with
      | ret a' w₀ => cases hr
      | throw e' w₀ =>
        cases hr
        exact .throw e w₀
      | await hp _ ih => exact .await hp (ih hr)

/-- A run that succeeds has succeeded in its first part. -/
theorem runs_bind_ok {p : Program Op Ans ε α} {f : α → Program Op Ans ε β} {b : β} :
    S.Runs i (p >>= f) w (.ok b) w' ↔
      ∃ a w₁, S.Runs i p w (.ok a) w₁ ∧ S.Runs i (f a) w₁ (.ok b) w' := by
  refine runs_bind.trans (or_iff_left ?_)
  rintro ⟨e, -, h⟩
  cases h

/-! ## All or nothing -/

/-- The program, run alone in `w`, returns with `Φ` or throws, and has then left the world `w₀`. -/
def Yields (S : Server Op Ans ε Req Rep Ω World) (i : ℕ) (w₀ : World) (p : Program Op Ans ε α)
    (w : World) (Φ : α → World → Prop) : Prop :=
  ∀ r w', S.Runs i p w r w' → match r with
    | .ok a => Φ a w'
    | .error _ => w' = w₀

section Yields

variable {w₀ : World} {Φ : α → World → Prop} {Ψ : β → World → Prop} {p : Program Op Ans ε α}

theorem yields_pure {a : α} (h : Φ a w) : S.Yields i w₀ (pure a) w Φ := by
  intro r w' hrun
  obtain ⟨rfl, rfl⟩ := runs_pure.mp hrun
  exact h

theorem yields_throw {e : ε} : S.Yields i w (throw e : Program Op Ans ε α) w Φ := by
  intro r w' hrun
  obtain ⟨rfl, rfl⟩ := runs_throw.mp hrun
  rfl

theorem yields_ofExcept {x : Except ε α} (h : ∀ a, x = .ok a → Φ a w) :
    S.Yields i w (.ofExcept x) w Φ := by
  cases x with
  | ok a => exact yields_pure (h a rfl)
  | error e => exact yields_throw

theorem yields_bind {f : α → Program Op Ans ε β} (hp : S.Yields i w₀ p w Φ)
    (hf : ∀ a w₁, Φ a w₁ → S.Yields i w₀ (f a) w₁ Ψ) : S.Yields i w₀ (p >>= f) w Ψ := by
  intro r w' hrun
  rcases runs_bind.mp hrun with ⟨a, w₁, hp', hf'⟩ | ⟨e, hp', rfl⟩
  · exact hf a w₁ (hp _ _ hp') r w' hf'
  · exact hp _ _ hp'

theorem yields_call {o : Op} {Φ : Ans o → World → Prop}
    (h : ∀ ω r w', S.perform i o ω w = some (r, w') → match r with
      | .ok a => Φ a w'
      | .error _ => w' = w₀) : S.Yields i w₀ (.call o) w Φ := by
  intro r w' hrun
  obtain ⟨ω, hp⟩ := runs_call.mp hrun
  have hr := h ω r w' hp
  cases r with
  | ok a => exact hr
  | error e => exact hr

end Yields

/-! ## Sessions -/

/-- A call that runs alone does so in the system. -/
theorem Runs.reaches {p : Program Op Ans ε Rep} {r : Except ε Rep} (h : S.Runs i p w r w')
    {s : System Op Ans ε Req Rep World} (hw : s.world = w) {c : Call Op Ans ε Req Rep}
    (hc : s.calls[i]? = some c) (hp : c.program = p) :
    ∃ s', S.Reaches Any s s' ∧ s'.world = w' ∧ s'.calls.length = s.calls.length ∧
      s'.outcome i = some r := by
  induction h generalizing s c with
  | ret a w =>
    refine ⟨s, .refl, hw, rfl, ?_⟩
    rw [System.outcome, hc, Option.bind_some, hp]
    rfl
  | throw e w =>
    refine ⟨s, .refl, hw, rfl, ?_⟩
    rw [System.outcome, hc, Option.bind_some, hp]
    rfl
  | await hperf _ ih =>
    subst hw
    have hi := (List.getElem?_eq_some_iff.mp hc).1
    obtain ⟨s', hr, hw', hlength, ho⟩ :=
      ih (s := ⟨_, s.calls.set i ⟨c.request, _, _⟩⟩) rfl (List.getElem?_set_self hi) rfl
    exact ⟨s', (reaches_of_step (step_of_await hc hp hperf)).trans hr, hw',
      hlength.trans List.length_set, ho⟩

/-- A session is a run of the system. -/
theorem Session.reaches {xs : List (Exchange ε Req Rep World)} (h : S.Session i w xs w')
    {s : System Op Ans ε Req Rep World} (hw : s.world = w) (hi : s.calls.length = i) :
    ∃ s', S.Reaches Any s s' ∧ s'.world = w' := by
  induction h generalizing s with
  | nil i w => exact ⟨s, .refl, hw⟩
  | @cons i req r w w₁ w' xs hrun _ ih =>
    subst hw hi
    have hstart : S.next s (.start req) =
        some { s with calls := s.calls ++ [⟨req, [], S.serve req⟩] } := rfl
    obtain ⟨s₁, hr₁, hw₁, hlength, -⟩ := hrun.reaches (s := { s with
      calls := s.calls ++ [⟨req, [], S.serve req⟩] }) rfl List.getElem?_concat_length rfl
    rw [List.length_append, List.length_singleton] at hlength
    obtain ⟨s', hr, hw'⟩ := ih hw₁ hlength
    exact ⟨s', ((Reaches.refl.tail trivial hstart).trans hr₁).trans hr, hw'⟩

/-- Every exchange of a session is a run of its own. -/
theorem Session.runs {xs : List (Exchange ε Req Rep World)} (h : S.Session i w xs w')
    {x : Exchange ε Req Rep World} (hx : x ∈ xs) :
    ∃ j, S.Runs j (S.serve x.request) x.before x.reply x.after := by
  induction h with
  | nil i w => cases hx
  | @cons i req r w w₁ w' xs hrun _ ih =>
    rcases List.mem_cons.mp hx with rfl | hx
    · exact ⟨i, hrun⟩
    · exact ih hx

/-- What every run of a call keeps holds before each exchange of a session and at its end. -/
theorem Session.preserves {I : World → Prop} {xs : List (Exchange ε Req Rep World)} (h : S.Session i w xs w')
    (hruns : ∀ {j : ℕ} {req : Req} {r : Except ε Rep} {w w' : World}, S.Runs j (S.serve req) w r w' → I w → I w')
    (hw : I w) : (∀ x ∈ xs, I x.before) ∧ I w' := by
  induction h with
  | nil i w => exact ⟨nofun, hw⟩
  | cons hrun _ ih =>
    obtain ⟨hbefore, hafter⟩ := ih (hruns hrun hw)
    exact ⟨List.forall_mem_cons.mpr ⟨hw, hbefore⟩, hafter⟩

end Server

end Async
