import LiorParisWallet.Async.Program

/-!
# Interleaved calls

A server runs any number of calls of its entry points at once.  One step of the system starts a call or
lets one call go from the `await` it stands at to the next one: the awaited operation acts on the world
atomically, with a choice `Ω` for whatever the program does not determine (a generated id, the answer
of another party, a failure).  The order of the steps is arbitrary.
-/

namespace Async

/-- What a server answers to a request, and what the operations it awaits do.  `perform i o ω w` is the
    operation `o` of call `i` in the world `w`; it is `none` where the choice `ω` cannot occur. -/
structure Server (Op : Type) (Ans : Op → Type) (ε Req Rep Ω World : Type) where
  serve : Req → Program Op Ans ε Rep
  perform : ℕ → (o : Op) → Ω → World → Option (Except ε (Ans o) × World)

/-- An awaited operation together with the way it settled. -/
abbrev Answer {Op : Type} (Ans : Op → Type) (ε : Type) : Type :=
  (o : Op) × Except ε (Ans o)

/-- A call in progress, with the answers it has received so far (the latest first). -/
structure Call (Op : Type) (Ans : Op → Type) (ε Req Rep : Type) where
  request : Req
  answers : List (Answer Ans ε)
  program : Program Op Ans ε Rep

/-- The world and every call made so far; the number of a call is its position. -/
structure System (Op : Type) (Ans : Op → Type) (ε Req Rep World : Type) where
  world : World
  calls : List (Call Op Ans ε Req Rep)

inductive Label (Req Ω : Type) where
  | start (req : Req)
  | step (i : ℕ) (ω : Ω)
deriving DecidableEq

variable {Op : Type} {Ans : Op → Type} {ε Req Rep Ω World : Type}

namespace System

/-- Call `i` has ended, and this is how. -/
def outcome (s : System Op Ans ε Req Rep World) (i : ℕ) : Option (Except ε Rep) :=
  s.calls[i]?.bind (·.program.result?)

/-- The operation call `i` awaits. -/
def awaits (s : System Op Ans ε Req Rep World) (i : ℕ) : Option Op :=
  s.calls[i]?.bind (·.program.next?)

theorem awaits_eq {s : System Op Ans ε Req Rep World} {i : ℕ} {c : Call Op Ans ε Req Rep} {o : Op}
    {next : Except ε (Ans o) → Program Op Ans ε Rep} (hc : s.calls[i]? = some c)
    (hp : c.program = .await o next) : s.awaits i = some o := by
  rw [awaits, hc, Option.bind_some, hp]
  rfl

end System

namespace Server

variable (S : Server Op Ans ε Req Rep Ω World)

def step (s : System Op Ans ε Req Rep World) (i : ℕ) (ω : Ω) :
    Option (System Op Ans ε Req Rep World) := do
  let c ← s.calls[i]?
  match c.program with
  | .await o next =>
      let (r, world) ← S.perform i o ω s.world
      some ⟨world, s.calls.set i ⟨c.request, ⟨o, r⟩ :: c.answers, next r⟩⟩
  | _ => none

def next (s : System Op Ans ε Req Rep World) :
    Label Req Ω → Option (System Op Ans ε Req Rep World)
  | .start req => some { s with calls := s.calls ++ [⟨req, [], S.serve req⟩] }
  | .step i ω => S.step s i ω

/-- The system after a list of labels. -/
def run : List (Label Req Ω) → System Op Ans ε Req Rep World →
    Option (System Op Ans ε Req Rep World)
  | [], s => some s
  | l :: ls, s => (S.next s l).bind (run ls)

/-- The same, provided that `allowed` admits every step. -/
def runUnder (allowed : System Op Ans ε Req Rep World → Label Req Ω → Prop)
    [∀ s l, Decidable (allowed s l)] : List (Label Req Ω) → System Op Ans ε Req Rep World →
    Option (System Op Ans ε Req Rep World)
  | [], s => some s
  | l :: ls, s => if allowed s l then (S.next s l).bind (runUnder allowed ls) else none

/-- The system after a schedule.  A label that is not possible, for instance because the call has ended,
    is passed over. -/
def drive : List (Label Req Ω) → System Op Ans ε Req Rep World → System Op Ans ε Req Rep World
  | [], s => s
  | l :: ls, s => drive ls ((S.next s l).getD s)

/-- A run from `s` whose every step is one that `allowed` admits. -/
inductive Reaches (allowed : System Op Ans ε Req Rep World → Label Req Ω → Prop)
    (s : System Op Ans ε Req Rep World) : System Op Ans ε Req Rep World → Prop where
  | refl : Reaches allowed s s
  | tail {s' s'' : System Op Ans ε Req Rep World} {l : Label Req Ω} :
      Reaches allowed s s' → allowed s' l → S.next s' l = some s'' → Reaches allowed s s''

/-- No restriction on the steps. -/
def Any (_ : System Op Ans ε Req Rep World) (_ : Label Req Ω) : Prop := True

/-- On the way to `s'`, call `i` performed `o` in the state `s`, and the answer was `r`. -/
def Performed (i : ℕ) (o : Op) (r : Except ε (Ans o)) (s s' : System Op Ans ε Req Rep World) : Prop :=
  s.awaits i = some o ∧ ∃ ω s₁, S.step s i ω = some s₁ ∧
    S.perform i o ω s.world = some (r, s₁.world) ∧ S.Reaches Any s₁ s'

variable {S}
variable {allowed allowed' : System Op Ans ε Req Rep World → Label Req Ω → Prop}
variable {s s' s'' : System Op Ans ε Req Rep World}

theorem Reaches.trans (h : S.Reaches allowed s s') (h' : S.Reaches allowed s' s'') :
    S.Reaches allowed s s'' := by
  induction h' with
  | refl => exact h
  | tail _ ha hn ih => exact ih.tail ha hn

theorem Reaches.mono (h : S.Reaches allowed s s') (ha : ∀ s l, allowed s l → allowed' s l) :
    S.Reaches allowed' s s' := by
  induction h with
  | refl => exact .refl
  | tail _ hal hn ih => exact ih.tail (ha _ _ hal) hn

theorem Reaches.any (h : S.Reaches allowed s s') : S.Reaches Any s s' :=
  h.mono fun _ _ _ => trivial

theorem reaches_of_step {i : ℕ} {ω : Ω} (h : S.step s i ω = some s') : S.Reaches Any s s' :=
  Reaches.refl.tail (l := .step i ω) trivial h

theorem reaches_of_run {ls : List (Label Req Ω)} (h : S.run ls s = some s') :
    S.Reaches Any s s' := by
  induction ls generalizing s with
  | nil => cases h; exact .refl
  | cons l ls ih =>
    obtain ⟨s₁, hn, hr⟩ := Option.bind_eq_some_iff.mp h
    exact (Reaches.refl.tail trivial hn).trans (ih hr)

theorem reaches_of_runUnder [∀ s l, Decidable (allowed s l)] {ls : List (Label Req Ω)}
    (h : S.runUnder allowed ls s = some s') : S.Reaches allowed s s' := by
  induction ls generalizing s with
  | nil => cases h; exact .refl
  | cons l ls ih =>
    unfold runUnder at h
    split at h
    · rename_i ha
      obtain ⟨s₁, hn, hr⟩ := Option.bind_eq_some_iff.mp h
      exact (Reaches.refl.tail ha hn).trans (ih hr)
    · cases h

/-- A schedule leads to a state that a run reaches. -/
theorem reaches_drive (ls : List (Label Req Ω)) (s : System Op Ans ε Req Rep World) :
    S.Reaches Any s (S.drive ls s) := by
  induction ls generalizing s with
  | nil => exact .refl
  | cons l ls ih =>
    unfold drive
    cases hn : S.next s l with
    | none => exact ih s
    | some s₁ => exact (Reaches.refl.tail trivial hn).trans (ih s₁)

/-- Everything that one step of a call can do. -/
theorem step_cases {i : ℕ} {ω : Ω} (h : S.step s i ω = some s') :
    ∃ c o next r world, s.calls[i]? = some c ∧ c.program = .await o next ∧
      S.perform i o ω s.world = some (r, world) ∧
      s' = ⟨world, s.calls.set i ⟨c.request, ⟨o, r⟩ :: c.answers, next r⟩⟩ := by
  obtain ⟨c, hc, h⟩ := Option.bind_eq_some_iff.mp h
  cases hp : c.program with
  | ret a => simp only [hp] at h; cases h
  | throw e => simp only [hp] at h; cases h
  | await o next =>
    simp only [hp] at h
    obtain ⟨⟨r, world⟩, hperf, h⟩ := Option.bind_eq_some_iff.mp h
    exact ⟨c, o, next, r, world, hc, hp, hperf, (Option.some.inj h).symm⟩

theorem step_of_await {i : ℕ} {ω : Ω} {c : Call Op Ans ε Req Rep} {o : Op}
    {next : Except ε (Ans o) → Program Op Ans ε Rep} {r : Except ε (Ans o)} {world : World}
    (hc : s.calls[i]? = some c) (hp : c.program = .await o next)
    (hperf : S.perform i o ω s.world = some (r, world)) : S.step s i ω =
      some ⟨world, s.calls.set i ⟨c.request, ⟨o, r⟩ :: c.answers, next r⟩⟩ := by
  obtain ⟨req, answers, program⟩ := c
  subst hp
  unfold step
  rw [hc]
  show (S.perform i o ω s.world).bind _ = _
  rw [hperf]
  rfl

/-- Every answer of a call that was not made in `s` was given on the way from `s`, when the call had just the
    earlier ones. -/
theorem Reaches.answered_at (h : S.Reaches allowed s s') {i : ℕ} (hnew : s.calls[i]? = none)
    {c : Call Op Ans ε Req Rep} (hc : s'.calls[i]? = some c) {o : Op} {r : Except ε (Ans o)}
    {later earlier : List (Answer Ans ε)} (ha : c.answers = later ++ ⟨o, r⟩ :: earlier) :
    ∃ s₀ s₁ ω c₀, S.Reaches allowed s s₀ ∧ allowed s₀ (.step i ω) ∧ s₀.calls[i]? = some c₀ ∧
      c₀.answers = earlier ∧ s₀.awaits i = some o ∧ S.step s₀ i ω = some s₁ ∧
      S.perform i o ω s₀.world = some (r, s₁.world) ∧ S.Reaches allowed s₁ s' := by
  induction h generalizing c later with
  | refl =>
    rw [hnew] at hc
    cases hc
  | @tail s₂ s₃ l hr hal hn ih =>
    have hearlier : ∀ c₂ later₂, s₂.calls[i]? = some c₂ → c₂.answers = later₂ ++ ⟨o, r⟩ :: earlier →
        ∃ s₀ s₁ ω c₀, S.Reaches allowed s s₀ ∧ allowed s₀ (.step i ω) ∧ s₀.calls[i]? = some c₀ ∧
          c₀.answers = earlier ∧ s₀.awaits i = some o ∧ S.step s₀ i ω = some s₁ ∧
          S.perform i o ω s₀.world = some (r, s₁.world) ∧ S.Reaches allowed s₁ s₃ := by
      intro c₂ later₂ hc₂ ha₂
      obtain ⟨s₀, s₁, ω, c₀, hr₀, ha₀, hc₀, hanswers, ho, hstep, hperf, hr₁⟩ := ih hc₂ ha₂
      exact ⟨s₀, s₁, ω, c₀, hr₀, ha₀, hc₀, hanswers, ho, hstep, hperf, hr₁.tail hal hn⟩
    cases l with
    | start req =>
      cases hn
      rw [List.getElem?_append] at hc
      split at hc
      · exact hearlier c later hc ha
      · -- the call has just been made, and nothing was answered yet
        rw [List.mem_singleton.mp (List.mem_of_getElem? hc)] at ha
        cases later <;> cases ha
    | step j ω =>
      obtain ⟨c₀, o₀, next, r₀, world, hc₀, hp, hperf, rfl⟩ := step_cases hn
      by_cases hij : j = i
      · subst hij
        rw [List.getElem?_set_self (List.getElem?_eq_some_iff.mp hc₀).1] at hc
        cases hc
        cases later with
        | nil =>
          obtain ⟨hhead, htail⟩ := List.cons_eq_cons.mp ha
          cases hhead
          exact ⟨s₂, _, ω, c₀, hr, hal, hc₀, htail, System.awaits_eq hc₀ hp, hn, hperf, .refl⟩
        | cons x later => exact hearlier c₀ later hc₀ (List.cons_eq_cons.mp ha).2
      · rw [List.getElem?_set_ne hij] at hc
        exact hearlier c later hc ha

theorem Reaches.answered (h : S.Reaches allowed s s') {i : ℕ} (hnew : s.calls[i]? = none)
    {c : Call Op Ans ε Req Rep} (hc : s'.calls[i]? = some c) {o : Op} {r : Except ε (Ans o)}
    (ha : ⟨o, r⟩ ∈ c.answers) : ∃ s₀ s₁ ω, S.Reaches allowed s s₀ ∧ allowed s₀ (.step i ω) ∧
      s₀.awaits i = some o ∧ S.step s₀ i ω = some s₁ ∧
      S.perform i o ω s₀.world = some (r, s₁.world) ∧ S.Reaches allowed s₁ s' := by
  obtain ⟨later, earlier, ha⟩ := List.mem_iff_append.mp ha
  obtain ⟨s₀, s₁, ω, c₀, hr₀, hal, -, -, hrest⟩ := h.answered_at hnew hc ha
  exact ⟨s₀, s₁, ω, hr₀, hal, hrest⟩

/-- Every answer that a call has received was given in some state of the run. -/
theorem Reaches.performed (h : S.Reaches Any s s') (hidle : s.calls = []) {i : ℕ}
    {c : Call Op Ans ε Req Rep} (hc : s'.calls[i]? = some c) {o : Op} {r : Except ε (Ans o)}
    (ha : ⟨o, r⟩ ∈ c.answers) : ∃ s₀, S.Reaches Any s s₀ ∧ S.Performed i o r s₀ s' := by
  have hnew : s.calls[i]? = none := by rw [hidle]; rfl
  obtain ⟨s₀, s₁, ω, hr₀, -, ho, hstep, hperf, hr₁⟩ := h.answered hnew hc ha
  exact ⟨s₀, hr₀, ho, ω, s₁, hstep, hperf, hr₁⟩

/-- Where two servers serve alike, and whatever an operation does on the one it may do on the other as well,
    with some other choice, the other reaches all the states that the one reaches. -/
theorem Reaches.of_simulates {S' : Server Op Ans ε Req Rep Ω World} (hserve : S'.serve = S.serve)
    (hsim : ∀ s₁ i ω o r w, S.Reaches allowed s s₁ → allowed s₁ (.step i ω) → s₁.awaits i = some o →
      S'.perform i o ω s₁.world = some (r, w) →
        ∃ ω', allowed s₁ (.step i ω') ∧ S.perform i o ω' s₁.world = some (r, w))
    (h : S'.Reaches allowed s s') : S.Reaches allowed s s' := by
  induction h with
  | refl => exact .refl
  | @tail s₁ s₂ l _ hal hn ih =>
    cases l with
    | start req =>
      refine ih.tail hal ?_
      rw [← hn]
      simp only [next, hserve]
    | step i ω =>
      obtain ⟨c, o, next, r, world, hc, hp, hperf, rfl⟩ := step_cases hn
      obtain ⟨ω', hal', hperf'⟩ := hsim s₁ i ω o r world ih hal (System.awaits_eq hc hp) hperf
      exact ih.tail hal' (step_of_await hc hp hperf')

/-- Where two servers serve alike, and operations do the same in every state that the one reaches, the
    other reaches no other states. -/
theorem Reaches.of_agree {S' : Server Op Ans ε Req Rep Ω World} (hserve : S'.serve = S.serve)
    (hagree : ∀ s₁ i ω o, S.Reaches allowed s s₁ → allowed s₁ (.step i ω) → s₁.awaits i = some o →
      S'.perform i o ω s₁.world = S.perform i o ω s₁.world)
    (h : S'.Reaches allowed s s') : S.Reaches allowed s s' :=
  h.of_simulates hserve fun s₁ i ω o _ _ hr hal ho hperf =>
    ⟨ω, hal, (hagree s₁ i ω o hr hal ho).symm.trans hperf⟩

/-- A call keeps its request and the answers that it has got. -/
theorem next_call {l : Label Req Ω} (h : S.next s l = some s') {i : ℕ}
    {c : Call Op Ans ε Req Rep} (hc : s.calls[i]? = some c) :
    ∃ c', s'.calls[i]? = some c' ∧ c'.request = c.request ∧ c.answers <:+ c'.answers := by
  cases l with
  | start req =>
    cases h
    have hi := (List.getElem?_eq_some_iff.mp hc).1
    exact ⟨c, by rw [List.getElem?_append_left hi]; exact hc, rfl, List.suffix_rfl⟩
  | step j ω =>
    obtain ⟨c₀, o, next, r, world, hc₀, _, _, rfl⟩ := step_cases h
    by_cases hij : j = i
    · subst hij
      rw [hc₀] at hc
      cases hc
      exact ⟨_, List.getElem?_set_self (List.getElem?_eq_some_iff.mp hc₀).1, rfl, List.suffix_cons _ _⟩
    · exact ⟨c, by rw [List.getElem?_set_ne hij]; exact hc, rfl, List.suffix_rfl⟩

theorem Reaches.call (h : S.Reaches allowed s s') {i : ℕ} {c : Call Op Ans ε Req Rep}
    (hc : s.calls[i]? = some c) :
    ∃ c', s'.calls[i]? = some c' ∧ c'.request = c.request ∧ c.answers <:+ c'.answers := by
  induction h with
  | refl => exact ⟨c, hc, rfl, List.suffix_rfl⟩
  | tail _ _ hn ih =>
    obtain ⟨c₁, hc₁, hreq, hanswers⟩ := ih
    obtain ⟨c₂, hc₂, hreq', hanswers'⟩ := next_call hn hc₁
    exact ⟨c₂, hc₂, hreq'.trans hreq, hanswers.trans hanswers'⟩

/-- What a call has performed, it was answered. -/
theorem Performed.mem_answers {i : ℕ} {o : Op} {r : Except ε (Ans o)} (h : S.Performed i o r s s')
    {c : Call Op Ans ε Req Rep} (hc : s'.calls[i]? = some c) : ⟨o, r⟩ ∈ c.answers := by
  obtain ⟨ho, ω, s₁, hstep, hperf, hr⟩ := h
  obtain ⟨c₀, o', next, r', world, hc₀, hp, hperf', rfl⟩ := step_cases hstep
  obtain rfl : o = o' := Option.some.inj (ho.symm.trans (System.awaits_eq hc₀ hp))
  obtain rfl : r = r' := congrArg Prod.fst (Option.some.inj (hperf.symm.trans hperf'))
  obtain ⟨c', hc', -, hanswers⟩ := hr.call
    (List.getElem?_set_self (List.getElem?_eq_some_iff.mp hc₀).1)
  obtain rfl := Option.some.inj (hc.symm.trans hc')
  exact hanswers.subset List.mem_cons_self

/-- A call that has ended stays as it ended. -/
theorem next_outcome {l : Label Req Ω} (h : S.next s l = some s') {i : ℕ} {r : Except ε Rep}
    (ho : s.outcome i = some r) : s'.outcome i = some r := by
  obtain ⟨c, hc, hr⟩ := Option.bind_eq_some_iff.mp ho
  cases l with
  | start req =>
    cases h
    rw [System.outcome, List.getElem?_append_left (List.getElem?_eq_some_iff.mp hc).1]
    exact ho
  | step j ω =>
    obtain ⟨c₀, o, next, r₀, world, hc₀, hp, _, rfl⟩ := step_cases h
    have hij : j ≠ i := by
      rintro rfl
      rw [hc₀] at hc
      cases hc
      rw [hp] at hr
      cases hr
    rw [System.outcome, List.getElem?_set_ne hij]
    exact ho

theorem Reaches.outcome (h : S.Reaches allowed s s') {i : ℕ} {r : Except ε Rep}
    (ho : s.outcome i = some r) : s'.outcome i = some r := by
  induction h with
  | refl => exact ho
  | tail _ _ hn ih => exact next_outcome hn ih

end Server

end Async
