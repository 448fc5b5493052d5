import LiorParisWallet.Async.Program

/-!
# Transactions as scripts

A `Script` is the body of a database transaction: it executes statements one after the other, and a
statement that fails ends it.  `Script.runOn` is its serial meaning, with nobody else at work; `Ran` is
the same run, stopped after some statements.
-/

namespace Locking

open Async

/-- A transaction that still has to execute statements from `Op`. -/
inductive Script (Op : Type) (Ans : Op → Type) (ε : Type) (α : Type) where
  | ret (a : α)
  | throw (e : ε)
  | exec (o : Op) (next : Ans o → Script Op Ans ε α)

namespace Script

variable {Op : Type} {Ans : Op → Type} {ε α β D : Type}

def bind (p : Script Op Ans ε α) (f : α → Script Op Ans ε β) : Script Op Ans ε β :=
  match p with
  | .ret a => f a
  | .throw e => .throw e
  | .exec o next => .exec o fun a => (next a).bind f

instance : Monad (Script Op Ans ε) where
  pure := .ret
  bind := .bind

def call (o : Op) : Script Op Ans ε (Ans o) := .exec o .ret

/-- Runs the script alone on the database `d`. -/
def runOn (exec : (o : Op) → D → Except ε (Ans o × D)) (d : D) :
    Script Op Ans ε α → Except ε (α × D)
  | .ret a => .ok (a, d)
  | .throw e => .error e
  | .exec o next =>
      match exec o d with
      | .ok (a, d) => (next a).runOn exec d
      | .error e => .error e

theorem runOn_bind (exec : (o : Op) → D → Except ε (Ans o × D)) (d : D) (p : Script Op Ans ε α)
    (f : α → Script Op Ans ε β) :
    (p >>= f).runOn exec d = (p.runOn exec d).bind fun x => (f x.1).runOn exec x.2 := by
  show (p.bind f).runOn exec d = _
  induction p generalizing d with
  | ret a => rfl
  | throw e => rfl
  | exec o next ih =>
    rw [Script.bind, runOn, runOn]
    cases exec o d with
    | ok x => exact ih x.1 x.2
    | error e => rfl

end Script

/-- The statements that a database understands.  `exec` is what a statement does; all it depends on and
    all it changes is the part of the database that `key` names, of which `view` is the content.  A lock
    can only be had on a part that is `lockable`: a row that is not there cannot be locked. -/
structure Statements (D Op : Type) (Ans : Op → Type) (ε K : Type) (V : K → Type) where
  exec : (o : Op) → D → Except ε (Ans o × D)
  key : Op → K
  view : D → (k : K) → V k
  lockable : (k : K) → V k → Bool
  exec_of_view : ∀ {o d d' e a}, exec o d = .ok (a, d') → view e (key o) = view d (key o) →
    ∃ e', exec o e = .ok (a, e') ∧ view e' (key o) = view d' (key o)
  frame : ∀ {o d d' a k}, exec o d = .ok (a, d') → k ≠ key o → view d' k = view d k
  view_of_not_lockable : ∀ {o d d' a}, exec o d = .ok (a, d') →
    lockable (key o) (view d (key o)) = false → view d' (key o) = view d (key o)
  lockable_exec : ∀ {o d d' a}, exec o d = .ok (a, d') →
    lockable (key o) (view d (key o)) = true → lockable (key o) (view d' (key o)) = true

namespace Statements

variable {D Op : Type} {Ans : Op → Type} {ε K α : Type} {V : K → Type}
variable (T : Statements D Op Ans ε K V)

/-- The database with the statement executed; one that fails does nothing. -/
def apply (d : D) (o : Op) : D :=
  match T.exec o d with
  | .ok (_, d) => d
  | .error _ => d

def replay (statements : List Op) (d : D) : D := statements.foldl T.apply d

/-- On the database `d`, the script `p` has executed these statements, `q` is left of it, and it sees
    the database as `e`. -/
inductive Ran (d : D) (p : Script Op Ans ε α) : List Op → Script Op Ans ε α → D → Prop where
  | refl : Ran d p [] p d
  | tail {l : List Op} {o : Op} {next : Ans o → Script Op Ans ε α} {a : Ans o} {e e' : D} :
      Ran d p l (.exec o next) e → T.exec o e = .ok (a, e') → Ran d p (l ++ [o]) (next a) e'

/-- Run on the database `d` after the statements `l`, the script satisfies `Φ` at every statement that
    it comes to: of the statements before it, of the statement itself and of what it sees. -/
def Along (Φ : List Op → Op → D → Prop) (l : List Op) (d : D) : Script Op Ans ε α → Prop
  | .ret _ => True
  | .throw _ => True
  | .exec o next => Φ l o d ∧ ∀ a e, T.exec o d = .ok (a, e) → Along Φ (l ++ [o]) e (next a)

theorem Along.mono {T : Statements D Op Ans ε K V} {Φ Ψ : List Op → Op → D → Prop} {l : List Op} {d : D}
    {p : Script Op Ans ε α} (h : T.Along Φ l d p) (hΦ : ∀ l o d, Φ l o d → Ψ l o d) :
    T.Along Ψ l d p := by
  induction p generalizing l d with
  | ret a => trivial
  | throw e => trivial
  | exec o next ih => exact ⟨hΦ _ _ _ h.1, fun a e hexec => ih a (h.2 a e hexec)⟩

/-- What is done with the result of a script is no statement. -/
theorem Along.map {T : Statements D Op Ans ε K V} {Φ : List Op → Op → D → Prop} {l : List Op} {d : D}
    {β : Type} {p : Script Op Ans ε α} (h : T.Along Φ l d p) (f : α → β) :
    T.Along Φ l d (p >>= fun a => pure (f a)) := by
  show T.Along Φ l d (p.bind fun a => .ret (f a))
  induction p generalizing l d with
  | ret a => trivial
  | throw e => trivial
  | exec o next ih => exact ⟨h.1, fun a e hexec => ih a (h.2 a e hexec)⟩

/-- The part `k` of the database can be locked. -/
def Lockable (d : D) (k : K) : Prop := T.lockable k (T.view d k) = true

instance (d : D) (k : K) : Decidable (T.Lockable d k) :=
  inferInstanceAs (Decidable (_ = true))

variable {T} {d d' e : D} {p q : Script Op Ans ε α} {l : List Op} {o : Op} {k : K}

theorem apply_of_exec {a : Ans o} (h : T.exec o d = .ok (a, d')) : T.apply d o = d' := by
  unfold apply
  rw [h]

theorem Lockable.congr (h : T.view d' k = T.view d k) : T.Lockable d' k ↔ T.Lockable d k := by
  unfold Lockable
  rw [h]

/-- A statement makes nothing lockable that was not, and nothing unlockable that was. -/
theorem lockable_of_exec {a : Ans o} (h : T.exec o d = .ok (a, d')) :
    T.Lockable d' k ↔ T.Lockable d k := by
  by_cases hk : k = T.key o
  · subst hk
    by_cases hl : T.Lockable d (T.key o)
    · exact iff_of_true (T.lockable_exec h hl) hl
    · exact Lockable.congr (T.view_of_not_lockable h (Bool.eq_false_iff.mpr hl))
  · exact Lockable.congr (T.frame h hk)

namespace Ran

/-- What a script sees is the replay of its statements. -/
theorem replay_eq (h : T.Ran d p l q e) : T.replay l d = e := by
  induction h with
  | refl => rfl
  | tail _ hexec ih =>
    unfold replay at ih ⊢
    rw [List.foldl_append, ih]
    exact apply_of_exec hexec

theorem runOn_eq (h : T.Ran d p l q e) : p.runOn T.exec d = q.runOn T.exec e := by
  induction h with
  | refl => rfl
  | tail _ hexec ih =>
    rw [ih, Script.runOn, hexec]

theorem along {Φ : List Op → Op → D → Prop} (h : T.Ran d p l q e) (hp : T.Along Φ [] d p) :
    T.Along Φ l e q := by
  induction h with
  | refl => exact hp
  | tail _ hexec ih => exact ih.2 _ _ hexec

/-- Nothing changes in a part that no statement is about. -/
theorem view_of_untouched (h : T.Ran d p l q e) (hk : ∀ o ∈ l, k ≠ T.key o) :
    T.view e k = T.view d k := by
  induction h with
  | refl => rfl
  | @tail l o next a e e' _ hexec ih =>
    rw [T.frame hexec (hk o List.mem_concat_self), ih fun o ho => hk o (List.mem_append_left _ ho)]

theorem lockable_iff (h : T.Ran d p l q e) : T.Lockable e k ↔ T.Lockable d k := by
  induction h with
  | refl => exact Iff.rfl
  | tail _ hexec ih => exact (lockable_of_exec hexec).trans ih

/-- Nothing changes in a part that cannot be locked. -/
theorem view_of_not_lockable (h : T.Ran d p l q e) (hk : ¬T.Lockable d k) :
    T.view e k = T.view d k := by
  induction h with
  | refl => rfl
  | @tail l o next a e e' hr hexec ih =>
    have hke : ¬T.Lockable e k := fun hl => hk (hr.lockable_iff.mp hl)
    by_cases hko : k = T.key o
    · subst hko
      rw [T.view_of_not_lockable hexec (Bool.eq_false_iff.mpr hke), ih]
    · rw [T.frame hexec hko, ih]

/-- The same statements run on another database that agrees in the parts they are about, and they see
    the same there. -/
theorem transport (h : T.Ran d p l q e) (hv : ∀ o ∈ l, T.view d' (T.key o) = T.view d (T.key o)) :
    ∃ e', T.Ran d' p l q e' ∧ ∀ k, T.view d' k = T.view d k → T.view e' k = T.view e k := by
  induction h with
  | refl => exact ⟨d', .refl, fun _ hk => hk⟩
  | @tail l o next a e e₁ _ hexec ih =>
    obtain ⟨e', hr', hagree⟩ := ih fun o ho => hv o (List.mem_append_left _ ho)
    have hko : T.view e' (T.key o) = T.view e (T.key o) := hagree _ (hv o List.mem_concat_self)
    obtain ⟨e₁', hexec', hview⟩ := T.exec_of_view hexec hko
    refine ⟨e₁', hr'.tail hexec', fun k hk => ?_⟩
    by_cases hk' : k = T.key o
    · subst hk'
      exact hview
    · rw [T.frame hexec' hk', T.frame hexec hk', hagree k hk]

end Ran

end Statements

end Locking
