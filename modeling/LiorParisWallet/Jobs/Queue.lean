import Mathlib.Data.List.Basic

/-!
# Job queues

A queue keeps the jobs that were ever added to it, a job being known by its position.  A worker takes a
job that waits, and the attempt that begins then ends with `complete` or `fail`; a job that has failed
waits for the next attempt until its attempts are used up.
-/

namespace Jobs

inductive Status where
  | waiting
  | active
  | completed
  | failed
deriving DecidableEq, Repr

/-- A job with what was added, `origin` saying on whose account it was, and how far it has come. -/
structure Entry (τ α : Type) where
  name : String
  data : α
  origin : τ
  status : Status
  /-- The attempts that have begun. -/
  attemptsStarted : ℕ
  /-- The attempts that have ended. -/
  attemptsMade : ℕ
deriving DecidableEq, Repr

namespace Entry

variable {τ α : Type}

def new (name : String) (data : α) (origin : τ) : Entry τ α :=
  ⟨name, data, origin, .waiting, 0, 0⟩

def take (e : Entry τ α) : Entry τ α :=
  { e with status := .active, attemptsStarted := e.attemptsStarted + 1 }

def complete (e : Entry τ α) : Entry τ α :=
  { e with status := .completed, attemptsMade := e.attemptsMade + 1 }

/-- The attempt has failed, and `attempts` are allowed in all. -/
def fail (attempts : ℕ) (e : Entry τ α) : Entry τ α :=
  { e with
    status := if e.attemptsMade + 1 < attempts then .waiting else .failed
    attemptsMade := e.attemptsMade + 1 }

/-- The status and the counters fit together. -/
def Valid (attempts : ℕ) (e : Entry τ α) : Prop :=
  match e.status with
  | .waiting => e.attemptsStarted = e.attemptsMade ∧ e.attemptsMade < attempts
  | .active => e.attemptsStarted = e.attemptsMade + 1 ∧ e.attemptsMade < attempts
  | .completed => e.attemptsStarted = e.attemptsMade ∧ 0 < e.attemptsMade ∧ e.attemptsMade ≤ attempts
  | .failed => e.attemptsStarted = e.attemptsMade ∧ e.attemptsMade = attempts

/-- There will be no further attempt. -/
def Over (e : Entry τ α) : Prop := e.status = .completed ∨ e.status = .failed

/-- What the attempts do to a job in the course of time. -/
structure Later (e e' : Entry τ α) : Prop where
  name : e'.name = e.name
  data : e'.data = e.data
  origin : e'.origin = e.origin
  started : e.attemptsStarted ≤ e'.attemptsStarted
  made : e.attemptsMade ≤ e'.attemptsMade
  ended : e.Over → e' = e

variable {attempts : ℕ} {e e' e'' : Entry τ α}

theorem valid_new (h : 0 < attempts) (name : String) (data : α) (origin : τ) :
    (new name data origin).Valid attempts :=
  ⟨rfl, h⟩

theorem Valid.started_le (h : e.Valid attempts) : e.attemptsStarted ≤ attempts := by
  unfold Valid at h
  split at h <;> omega

theorem Valid.active (h : e.Valid attempts) (hactive : e.status = .active) :
    e.attemptsStarted = e.attemptsMade + 1 ∧ e.attemptsMade < attempts := by
  rwa [Valid, hactive] at h

theorem Valid.waiting (h : e.Valid attempts) (hwaiting : e.status = .waiting) :
    e.attemptsStarted = e.attemptsMade ∧ e.attemptsMade < attempts := by
  rwa [Valid, hwaiting] at h

theorem Valid.completed (h : e.Valid attempts) (hcompleted : e.status = .completed) :
    e.attemptsStarted = e.attemptsMade ∧ 0 < e.attemptsMade ∧ e.attemptsMade ≤ attempts := by
  rwa [Valid, hcompleted] at h

theorem Valid.failed (h : e.Valid attempts) (hfailed : e.status = .failed) :
    e.attemptsStarted = e.attemptsMade ∧ e.attemptsMade = attempts := by
  rwa [Valid, hfailed] at h

theorem Valid.take (h : e.Valid attempts) (hwaiting : e.status = .waiting) :
    e.take.Valid attempts :=
  ⟨congrArg (· + 1) (h.waiting hwaiting).1, (h.waiting hwaiting).2⟩

theorem Valid.complete (h : e.Valid attempts) (hactive : e.status = .active) :
    e.complete.Valid attempts :=
  ⟨(h.active hactive).1, Nat.succ_pos _, (h.active hactive).2⟩

theorem Valid.fail (h : e.Valid attempts) (hactive : e.status = .active) :
    (e.fail attempts).Valid attempts := by
  obtain ⟨hstarted, hmade⟩ := h.active hactive
  by_cases hleft : e.attemptsMade + 1 < attempts
  · simp only [Entry.fail, if_pos hleft]
    exact ⟨hstarted, hleft⟩
  · simp only [Entry.fail, if_neg hleft]
    exact ⟨hstarted, show e.attemptsMade + 1 = attempts by omega⟩

namespace Later

theorem refl (e : Entry τ α) : e.Later e :=
  ⟨rfl, rfl, rfl, Nat.le_refl _, Nat.le_refl _, fun _ => rfl⟩

theorem trans (h : e.Later e') (h' : e'.Later e'') : e.Later e'' where
  name := h'.name.trans h.name
  data := h'.data.trans h.data
  origin := h'.origin.trans h.origin
  started := Nat.le_trans h.started h'.started
  made := Nat.le_trans h.made h'.made
  ended hover := by
    obtain rfl := h.ended hover
    exact h'.ended hover

end Later

theorem not_over_of_waiting (h : e.status = .waiting) : ¬ e.Over := by
  rintro (h' | h') <;> rw [h] at h' <;> cases h'

theorem not_over_of_active (h : e.status = .active) : ¬ e.Over := by
  rintro (h' | h') <;> rw [h] at h' <;> cases h'

theorem later_take (h : e.status = .waiting) : e.Later e.take :=
  ⟨rfl, rfl, rfl, Nat.le_succ _, Nat.le_refl _, fun hover => absurd hover (not_over_of_waiting h)⟩

theorem later_complete (h : e.status = .active) : e.Later e.complete :=
  ⟨rfl, rfl, rfl, Nat.le_refl _, Nat.le_succ _, fun hover => absurd hover (not_over_of_active h)⟩

theorem later_fail (h : e.status = .active) : e.Later (e.fail attempts) :=
  ⟨rfl, rfl, rfl, Nat.le_refl _, Nat.le_succ _, fun hover => absurd hover (not_over_of_active h)⟩

end Entry

/-- The jobs in the order in which they were added. -/
abbrev Queue (τ α : Type) : Type := List (Entry τ α)

namespace Queue

variable {τ α : Type} {q : Queue τ α} {e e' : Entry τ α} {f : Entry τ α → Entry τ α} {k n : ℕ}

/-- A job that the queue has after another was added. -/
theorem getElem?_add (h : (q ++ [e])[k]? = some e') :
    q[k]? = some e' ∨ k = q.length ∧ e' = e := by
  rw [List.getElem?_append] at h
  split at h
  · exact .inl h
  · rename_i hk
    cases hj : k - q.length with
    | zero =>
      rw [hj] at h
      exact .inr ⟨by omega, (Option.some.inj h).symm⟩
    | succ j =>
      rw [hj] at h
      cases h

theorem getElem?_add_left (h : q[k]? = some e') : (q ++ [e])[k]? = some e' := by
  rw [List.getElem?_append_left (List.getElem?_eq_some_iff.mp h).1, h]

theorem getElem?_modify_self (h : q[k]? = some e) : (q.modify k f)[k]? = some (f e) := by
  rw [List.getElem?_modify_eq, h]
  rfl

/-- A job that the queue has after the job `k` was changed. -/
theorem getElem?_modify (h : (q.modify k f)[n]? = some e') :
    ∃ e, q[n]? = some e ∧ e' = if k = n then f e else e := by
  rw [List.getElem?_modify] at h
  obtain ⟨e, he, heq⟩ := Option.map_eq_some_iff.mp h
  exact ⟨e, he, heq.symm⟩

end Queue

end Jobs
