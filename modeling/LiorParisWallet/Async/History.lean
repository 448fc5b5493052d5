import LiorParisWallet.Async.System
import Mathlib.Order.Nat

/-!
# Recorded runs

`Server.recorded` is the same server with a log of everything that has been performed, so that a statement
about a state can speak of the run that led to it: of the order of the operations, of the worlds they met,
of what a call has done.  Nothing reads the log, so recorded runs are the runs of the server
(`Server.Reaches.record`, `Server.Reaches.forget`).
-/

namespace Async

/-- An operation that was performed: by which call, in which world, and how it settled. -/
structure Event (Op : Type) (Ans : Op → Type) (ε World : Type) where
  call : ℕ
  op : Op
  answer : Except ε (Ans op)
  world : World

/-- A world with what has been performed on the way to it, in order. -/
structure Recorded (Op : Type) (Ans : Op → Type) (ε World : Type) where
  world : World
  log : List (Event Op Ans ε World)

variable {Op : Type} {Ans : Op → Type} {ε Req Rep Ω World : Type}

namespace Recorded

variable (w : Recorded Op Ans ε World)

/-- The moments of the run so far: the worlds in which something was performed, and the present one. -/
def worlds : List World := w.log.map (·.world) ++ [w.world]

/-- What call `i` has been answered, the latest first. -/
def answersOf (i : ℕ) : List (Answer Ans ε) :=
  (w.log.filterMap fun e => if e.call = i then some ⟨e.op, e.answer⟩ else none).reverse

theorem world_mem_worlds : w.world ∈ w.worlds :=
  List.mem_append_right _ (List.mem_singleton_self _)

theorem worlds_getElem?_length : w.worlds[w.log.length]? = some w.world := by
  have hlength : w.log.length = (w.log.map (·.world)).length := List.length_map _ |>.symm
  rw [worlds, hlength]
  exact List.getElem?_concat_length

variable {w} in
theorem worlds_getElem? {n : ℕ} {e : Event Op Ans ε World} (h : w.log[n]? = some e) :
    w.worlds[n]? = some e.world := by
  have hn := (List.getElem?_eq_some_iff.mp h).1
  rw [worlds, List.getElem?_append_left (by rwa [List.length_map]), List.getElem?_map, h]
  rfl

theorem length_worlds : w.worlds.length = w.log.length + 1 := by
  rw [worlds, List.length_append, List.length_map, List.length_singleton]

variable {w} in
/-- Induction from one moment to a later one, over the events between them. -/
theorem worlds_induction {J : World → Prop} {m n : ℕ} {w₁ w₂ : World} (hmn : m ≤ n)
    (hm : w.worlds[m]? = some w₁) (hn : w.worlds[n]? = some w₂) (init : J w₁)
    (step : ∀ k e w', m ≤ k → k < n → w.log[k]? = some e → w.worlds[k + 1]? = some w' →
      J e.world → J w') : J w₂ := by
  induction n, hmn using Nat.le_induction generalizing w₂ with
  | base =>
    rw [hm] at hn
    cases hn
    exact init
  | succ n hle ih =>
    have hlt := (List.getElem?_eq_some_iff.mp hn).1
    rw [length_worlds] at hlt
    have he : w.log[n]? = some w.log[n] := List.getElem?_eq_getElem (by omega)
    refine step n _ w₂ hle (Nat.lt_succ_self n) he hn (ih (worlds_getElem? he) ?_)
    exact fun k e w' hk hkn => step k e w' hk (Nat.lt_succ_of_lt hkn)

end Recorded

namespace Server

variable (S : Server Op Ans ε Req Rep Ω World)

def recorded : Server Op Ans ε Req Rep Ω (Recorded Op Ans ε World) where
  serve := S.serve
  perform i o ω w := (S.perform i o ω w.world).map fun x =>
    (x.1, ⟨x.2, w.log ++ [⟨i, o, x.1, w.world⟩]⟩)

end Server

/-- A system that runs on a recorded world. -/
abbrev History (Op : Type) (Ans : Op → Type) (ε Req Rep World : Type) : Type :=
  System Op Ans ε Req Rep (Recorded Op Ans ε World)

/-- The state without the record. -/
def System.forget (s : History Op Ans ε Req Rep World) : System Op Ans ε Req Rep World :=
  ⟨s.world.world, s.calls⟩

/-- The state with the record of a run that begins here. -/
def System.record (s : System Op Ans ε Req Rep World) : History Op Ans ε Req Rep World :=
  ⟨⟨s.world, []⟩, s.calls⟩

namespace Server

variable {S : Server Op Ans ε Req Rep Ω World} {s s' : History Op Ans ε Req Rep World}
variable {allowed : History Op Ans ε Req Rep World → Label Req Ω → Prop} {i : ℕ} {ω : Ω}

theorem recorded_perform {o : Op} {w w' : Recorded Op Ans ε World} {r : Except ε (Ans o)} :
    S.recorded.perform i o ω w = some (r, w') ↔
      S.perform i o ω w.world = some (r, w'.world) ∧ w'.log = w.log ++ [⟨i, o, r, w.world⟩] := by
  refine Option.map_eq_some_iff.trans ⟨?_, ?_⟩
  · rintro ⟨⟨r', w''⟩, hp, h⟩
    cases h
    exact ⟨hp, rfl⟩
  · rintro ⟨hp, hlog⟩
    refine ⟨_, hp, ?_⟩
    cases w'
    cases hlog
    rfl

/-- What a step adds to the log. -/
theorem recorded_step (h : S.recorded.step s i ω = some s') : ∃ c o next r, s.calls[i]? = some c ∧
    c.program = .await o next ∧ S.perform i o ω s.world.world = some (r, s'.world.world) ∧
      s'.world.log = s.world.log ++ [⟨i, o, r, s.world.world⟩] ∧
      s'.calls = s.calls.set i ⟨c.request, ⟨o, r⟩ :: c.answers, next r⟩ := by
  obtain ⟨c, o, next, r, w, hc, hp, hperf, rfl⟩ := step_cases h
  obtain ⟨hperf, hlog⟩ := recorded_perform.mp hperf
  exact ⟨c, o, next, r, hc, hp, hperf, hlog, rfl⟩

theorem next_forget {l : Label Req Ω} (h : S.recorded.next s l = some s') :
    S.next s.forget l = some s'.forget := by
  cases l with
  | start req =>
    cases h
    rfl
  | step i ω =>
    obtain ⟨c, o, next, r, hc, hp, hperf, -, hcalls⟩ := recorded_step h
    refine (step_of_await (s := s.forget) hc hp hperf).trans (congrArg some ?_)
    unfold System.forget
    rw [hcalls]

/-- A recorded run is a run of the server. -/
theorem Reaches.forget (h : S.recorded.Reaches allowed s s') : S.Reaches Any s.forget s'.forget := by
  induction h with
  | refl => exact .refl
  | tail _ _ hn ih => exact ih.tail trivial (next_forget hn)

/-- A run of the server can be recorded. -/
theorem Reaches.record {s s' : System Op Ans ε Req Rep World} (h : S.Reaches Any s s') :
    ∃ t, S.recorded.Reaches Any s.record t ∧ t.forget = s' := by
  induction h with
  | refl => exact ⟨_, .refl, rfl⟩
  | @tail s₁ s₂ l _ _ hn ih =>
    obtain ⟨t, hr, rfl⟩ := ih
    cases l with
    | start req =>
      cases hn
      exact ⟨_, hr.tail (l := .start req) trivial rfl, rfl⟩
    | step i ω =>
      obtain ⟨c, o, next, r, w, hc, hp, hperf, rfl⟩ := step_cases hn
      have hperf' : S.recorded.perform i o ω t.world =
          some (r, ⟨w, t.world.log ++ [⟨i, o, r, t.world.world⟩]⟩) :=
        recorded_perform.mpr ⟨hperf, rfl⟩
      have hstep := step_of_await (S := S.recorded) (s := t) hc hp hperf'
      exact ⟨_, hr.tail (l := .step i ω) trivial hstep, rfl⟩

theorem Reaches.log_prefix (h : S.recorded.Reaches allowed s s') :
    s.world.log <+: s'.world.log := by
  induction h with
  | refl => exact List.prefix_rfl
  | @tail s₁ s₂ l _ _ hn ih =>
    cases l with
    | start req =>
      cases hn
      exact ih
    | step i ω =>
      obtain ⟨c, o, next, r, -, -, -, hlog, -⟩ := recorded_step hn
      exact ih.trans (hlog ▸ List.prefix_append _ _)

/-- The moments of a run stay its moments. -/
theorem Reaches.worlds_prefix (h : S.recorded.Reaches allowed s s') :
    s.world.worlds <+: s'.world.worlds := by
  induction h with
  | refl => exact List.prefix_rfl
  | @tail s₁ s₂ l _ _ hn ih =>
    cases l with
    | start req =>
      cases hn
      exact ih
    | step i ω =>
      obtain ⟨c, o, next, r, -, -, -, hlog, -⟩ := recorded_step hn
      refine ih.trans ⟨[s₂.world.world], ?_⟩
      simp only [Recorded.worlds, hlog, List.map_append, List.map_cons, List.map_nil]

/-- On the run from `s` to `s'`, the event `e` was the step that came after `m` others. -/
def Occurs (S : Server Op Ans ε Req Rep Ω World)
    (allowed : History Op Ans ε Req Rep World → Label Req Ω → Prop)
    (s s' : History Op Ans ε Req Rep World) (m : ℕ) (e : Event Op Ans ε World) : Prop :=
  ∃ s₁ s₂ ω, S.recorded.Reaches allowed s s₁ ∧ allowed s₁ (.step e.call ω) ∧
    S.recorded.step s₁ e.call ω = some s₂ ∧ S.recorded.Reaches allowed s₂ s' ∧
    s₁.awaits e.call = some e.op ∧
    S.perform e.call e.op ω s₁.world.world = some (e.answer, s₂.world.world) ∧
    e.world = s₁.world.world ∧ s₁.world.log.length = m

/-- What is in the log was performed, in the world that the log names, by a step of the run. -/
theorem Reaches.occurs (h : S.recorded.Reaches allowed s s') {m : ℕ} {e : Event Op Ans ε World}
    (hm : s.world.log.length ≤ m) (he : s'.world.log[m]? = some e) : Occurs S allowed s s' m e := by
  induction h with
  | refl =>
    rw [List.getElem?_eq_none hm] at he
    cases he
  | @tail s₁ s₂ l hr ha hn ih =>
    -- the event is either one of the earlier part of the run or the last one
    have hearlier : s₁.world.log[m]? = some e → Occurs S allowed s s₂ m e := by
      intro he
      obtain ⟨t₁, t₂, ω, hr₁, hal, hstep, hr₂, hrest⟩ := ih he
      exact ⟨t₁, t₂, ω, hr₁, hal, hstep, hr₂.tail ha hn, hrest⟩
    cases l with
    | start req =>
      cases hn
      exact hearlier he
    | step i ω =>
      have hstep : S.recorded.step s₁ i ω = some s₂ := hn
      obtain ⟨c, o, next, r, hc, hp, hperf, hlog, -⟩ := recorded_step hstep
      rw [hlog, List.getElem?_append] at he
      split at he
      · exact hearlier he
      · rename_i hlt
        have hzero : m - s₁.world.log.length = 0 := by
          by_contra hne
          rw [List.getElem?_eq_none (by rw [List.length_singleton]; omega)] at he
          cases he
        rw [hzero] at he
        cases he
        exact ⟨s₁, s₂, ω, hr, ha, hstep, .refl, System.awaits_eq hc hp, hperf, rfl, by omega⟩

/-- The first moment of a run is the world in which it began. -/
theorem Reaches.worlds_zero (h : S.recorded.Reaches allowed s s') (hlog : s.world.log = []) :
    s'.world.worlds[0]? = some s.world.world := by
  obtain ⟨l, hl⟩ := h.worlds_prefix
  rw [← hl, Recorded.worlds, hlog]
  rfl

/-- The world that an event has left is the next moment. -/
theorem Occurs.next_world {m : ℕ} {e : Event Op Ans ε World} (h : Occurs S allowed s s' m e) :
    ∃ s₁ ω w, S.recorded.Reaches allowed s s₁ ∧ s₁.awaits e.call = some e.op ∧
      e.world = s₁.world.world ∧ S.perform e.call e.op ω e.world = some (e.answer, w) ∧
      s'.world.worlds[m + 1]? = some w := by
  obtain ⟨s₁, s₂, ω, hr₁, -, hstep, hr₂, hawaits, hperf, hworld, hm⟩ := h
  refine ⟨s₁, ω, s₂.world.world, hr₁, hawaits, hworld, hworld ▸ hperf, ?_⟩
  obtain ⟨c, o, next, r, -, -, -, hlog, -⟩ := recorded_step hstep
  have hlength : s₂.world.log.length = m + 1 := by
    rw [hlog, List.length_append, List.length_singleton, hm]
  obtain ⟨l, hl⟩ := hr₂.worlds_prefix
  have hlast := s₂.world.worlds_getElem?_length
  rw [hlength] at hlast
  rw [← hl, List.getElem?_append_left (List.getElem?_eq_some_iff.mp hlast).1]
  exact hlast

/-- The answers of a call are in the log, and nothing of a call that was not made yet. -/
theorem Reaches.answersOf (h : S.recorded.Reaches allowed s s') (hidle : s.calls = [])
    (hlog : s.world.log = []) (i : ℕ) :
    s'.world.answersOf i = ((s'.calls[i]?.map (·.answers)).getD []) := by
  induction h with
  | refl =>
    rw [hidle, Recorded.answersOf, hlog]
    rfl
  | @tail s₁ s₂ l hr ha hn ih =>
    cases l with
    | start req =>
      cases hn
      rw [ih, List.getElem?_append]
      split
      · rfl
      · rename_i hi
        rw [List.getElem?_eq_none (Nat.le_of_not_lt hi)]
        cases i - s₁.calls.length <;> rfl
    | step j ω =>
      have hstep : S.recorded.step s₁ j ω = some s₂ := hn
      obtain ⟨c, o, next, r, hc, hp, hperf, hlog, hcalls⟩ := recorded_step hstep
      have hj := (List.getElem?_eq_some_iff.mp hc).1
      rw [Recorded.answersOf, hlog, List.filterMap_append, List.reverse_append, hcalls]
      rw [Recorded.answersOf] at ih
      rw [ih]
      by_cases hij : j = i
      · subst hij
        rw [List.getElem?_set_self hj, hc]
        simp
      · rw [List.getElem?_set_ne hij]
        simp [hij]

end Server

end Async
