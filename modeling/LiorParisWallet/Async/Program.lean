import Mathlib.Data.List.Basic

/-!
# Asynchronous programs

An `async` function runs without interruption from one `await` to the next.  `Program` is the tree of
such a function: it returns, it throws, or it awaits an operation and goes on with the way that
operation settled.  Everything between two awaits is an ordinary Lean term.
-/

namespace Async

/-- An asynchronous function that still has to run: operations are taken from `Op`, the operation `o`
    answers in `Ans o`, and exceptions are taken from `ε`. -/
inductive Program (Op : Type) (Ans : Op → Type) (ε : Type) (α : Type) where
  | ret (a : α)
  | throw (e : ε)
  | await (o : Op) (next : Except ε (Ans o) → Program Op Ans ε α)

namespace Program

variable {Op : Type} {Ans : Op → Type} {ε α β : Type}

def bind (p : Program Op Ans ε α) (f : α → Program Op Ans ε β) : Program Op Ans ε β :=
  match p with
  | .ret a => f a
  | .throw e => .throw e
  | .await o next => .await o fun r => (next r).bind f

instance : Monad (Program Op Ans ε) where
  pure := .ret
  bind := .bind

/-- `try { p } catch (e) { f(e) }` -/
def handle (p : Program Op Ans ε α) (f : ε → Program Op Ans ε α) : Program Op Ans ε α :=
  match p with
  | .ret a => .ret a
  | .throw e => f e
  | .await o next => .await o fun r => (next r).handle f

instance : MonadExceptOf ε (Program Op Ans ε) where
  throw := .throw
  tryCatch := .handle

/-- A synchronous function that may throw. -/
def ofExcept : Except ε α → Program Op Ans ε α
  | .ok a => .ret a
  | .error e => .throw e

/-- `await o`: an operation that fails throws in the function that awaits it. -/
def call (o : Op) : Program Op Ans ε (Ans o) :=
  .await o ofExcept

/-- Runs `p` to its end and keeps the way it settled. -/
def settled (p : Program Op Ans ε α) : Program Op Ans ε (Except ε α) :=
  match p with
  | .ret a => .ret (.ok a)
  | .throw e => .ret (.error e)
  | .await o next => .await o fun r => (next r).settled

/-- `await Promise.all([p, q])`: both run, whatever becomes of the other, and the first that failed
    is what the caller sees. -/
def both (p : Program Op Ans ε α) (q : Program Op Ans ε β) : Program Op Ans ε (α × β) := do
  -- the operations of `p` come first; those of other calls may come between any two of them
  let a ← p.settled
  let b ← q.settled
  match a, b with
  | .ok a, .ok b => pure (a, b)
  | .error e, _ => throw e
  | .ok _, .error e => throw e

/-- `try { p } finally { q }` -/
def finally_ (p : Program Op Ans ε α) (q : Program Op Ans ε Unit) : Program Op Ans ε α := do
  let a ← p.settled
  -- an exception of `q` takes the place of the outcome of `p`
  q
  ofExcept a

/-- The operation that a program awaits next. -/
def next? : Program Op Ans ε α → Option Op
  | .await o _ => some o
  | _ => none

/-- The way a finished program ended. -/
def result? : Program Op Ans ε α → Option (Except ε α)
  | .ret a => some (.ok a)
  | .throw e => some (.error e)
  | .await _ _ => none

/-- Whatever the answers, the program awaits only operations that satisfy `Φ`. -/
def All (Φ : Op → Prop) : Program Op Ans ε α → Prop
  | .ret _ => True
  | .throw _ => True
  | .await o next => Φ o ∧ ∀ r, (next r).All Φ

section All

variable {Φ : Op → Prop} {p : Program Op Ans ε α}

theorem All.bind (hp : p.All Φ) {f : α → Program Op Ans ε β} (hf : ∀ a, (f a).All Φ) :
    (p >>= f).All Φ := by
  show (p.bind f).All Φ
  induction p with
  | ret a => exact hf a
  | throw e => trivial
  | await o next ih => exact ⟨hp.1, fun r => ih r (hp.2 r)⟩

theorem All.handle (hp : p.All Φ) {f : ε → Program Op Ans ε α} (hf : ∀ e, (f e).All Φ) :
    (p.handle f).All Φ := by
  induction p with
  | ret a => trivial
  | throw e => exact hf e
  | await o next ih => exact ⟨hp.1, fun r => ih r (hp.2 r)⟩

theorem All.settled (hp : p.All Φ) : p.settled.All Φ := by
  induction p with
  | ret a => trivial
  | throw e => trivial
  | await o next ih => exact ⟨hp.1, fun r => ih r (hp.2 r)⟩

theorem all_ofExcept (x : Except ε α) : (ofExcept x : Program Op Ans ε α).All Φ := by
  cases x <;> trivial

theorem all_call {o : Op} (ho : Φ o) : (call o : Program Op Ans ε (Ans o)).All Φ :=
  ⟨ho, fun r => all_ofExcept r⟩

/-- The rule for an `await` inside a function. -/
theorem all_await {o : Op} {f : Ans o → Program Op Ans ε α} (ho : Φ o) (hf : ∀ a, (f a).All Φ) :
    (call o >>= f).All Φ :=
  (all_call ho).bind hf

theorem All.both (hp : p.All Φ) {q : Program Op Ans ε β} (hq : q.All Φ) : (both p q).All Φ := by
  refine hp.settled.bind fun a => hq.settled.bind fun b => ?_
  cases a <;> cases b <;> trivial

theorem All.finally_ (hp : p.All Φ) {q : Program Op Ans ε Unit} (hq : q.All Φ) :
    (p.finally_ q).All Φ :=
  hp.settled.bind fun a => hq.bind fun _ => all_ofExcept a

end All

end Program

end Async
