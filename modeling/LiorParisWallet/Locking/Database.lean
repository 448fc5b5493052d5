import LiorParisWallet.Async.System
import LiorParisWallet.Locking.Script

/-!
# A database with locks

Any number of transactions are open at once.  A statement waits while another open transaction holds
the lock that it needs, sees the latest committed state with the transaction's own statements on top of
it, and its lock is held until the transaction commits or is rolled back.  Nothing else keeps the
transactions apart.
-/

namespace Locking

open Async

/-- What a client of the database awaits. -/
inductive Action (Op : Type) where
  | run (o : Op)
  | commit
  | rollback

abbrev Action.Ans {Op : Type} (Ans : Op → Type) : Action Op → Type
  | .run o => Ans o
  | .commit => Unit
  | .rollback => Unit

variable {D Op Req : Type} {Ans : Op → Type} {ε K α Rep : Type} {V : K → Type}

namespace Script

/-- The statements of the script, awaited one by one. -/
def toProgram : Script Op Ans ε α → Program (Action Op) (Action.Ans Ans) ε α
  | .ret a => .ret a
  | .throw e => .throw e
  | .exec o next => .await (.run o) fun
      | .ok a => (next a).toProgram
      | .error e => .throw e

/-- The transaction around the script: what it has done is committed when it returns, and rolled back
    when it throws. -/
def transaction (p : Script Op Ans ε α) : Program (Action Op) (Action.Ans Ans) ε α :=
  .handle (.bind p.toProgram fun a => .bind (.call .commit) fun _ => .ret a)
    fun e => .bind (.call .rollback) fun _ => .throw e

end Script

structure World (D Op K : Type) where
  committed : D
  /-- What each open transaction has executed. -/
  statements : ℕ → List Op
  /-- The locks that are held, each with the transaction that holds it. -/
  locks : List (ℕ × K)
  /-- The transactions that have been committed, in this order. -/
  commits : List ℕ

namespace World

variable (T : Statements D Op Ans ε K V) (w : World D Op K)

/-- The database as transaction `i` sees it. -/
def view (i : ℕ) : D := T.replay (w.statements i) w.committed

/-- Another transaction holds the lock. -/
def Locked (i : ℕ) (k : K) : Prop := ∃ l ∈ w.locks, l.1 ≠ i ∧ l.2 = k

instance [DecidableEq K] (i : ℕ) (k : K) : Decidable (w.Locked i k) :=
  inferInstanceAs (Decidable (∃ l ∈ w.locks, _))

/-- Transaction `i` has executed `o`, and holds the lock of it if there is one. -/
def executed (i : ℕ) (o : Op) : World D Op K :=
  { w with
    statements := Function.update w.statements i (w.statements i ++ [o])
    locks := if T.Lockable w.committed (T.key o) then (i, T.key o) :: w.locks else w.locks }

/-- Transaction `i` is over, and so are its locks. -/
def release (i : ℕ) : World D Op K :=
  { w with
    statements := Function.update w.statements i []
    locks := w.locks.filter (·.1 != i) }

def commit (i : ℕ) : World D Op K :=
  { w.release i with
    committed := w.view T i
    commits := w.commits ++ [i] }

/-- A database without open transactions. -/
def idle (d : D) : World D Op K := ⟨d, fun _ => [], [], []⟩

end World

/-- What an action of transaction `i` does.  The choice is whether it fails although it could be done. -/
def perform [DecidableEq K] (T : Statements D Op Ans ε K V) (i : ℕ) :
    (a : Action Op) → Option ε → World D Op K → Option (Except ε (Action.Ans Ans a) × World D Op K)
  | .run _, some e, w => some (.error e, w)
  | .run o, none, w =>
      if w.Locked i (T.key o) then none
      else match T.exec o (w.view T i) with
        | .ok (a, _) => some (.ok a, w.executed T i o)
        | .error e => some (.error e, w)
  | .commit, some e, w => some (.error e, w)
  | .commit, none, w => some (.ok (), w.commit T i)
  | .rollback, _, w => some (.ok (), w.release i)

/-- The database and its clients: each request is served by one transaction. -/
def server [DecidableEq K] (T : Statements D Op Ans ε K V) (script : Req → Script Op Ans ε Rep) :
    Server (Action Op) (Action.Ans Ans) ε Req Rep (Option ε) (World D Op K) where
  serve req := (script req).transaction
  perform := perform T

/-- A state that some run reaches from the idle database `d`. -/
def Reachable [DecidableEq K] (T : Statements D Op Ans ε K V) (script : Req → Script Op Ans ε Rep)
    (d : D) (s : System (Action Op) (Action.Ans Ans) ε Req Rep (World D Op K)) : Prop :=
  (server T script).Reaches Server.Any ⟨World.idle d, []⟩ s

/-- The requests whose transactions have been committed, in this order. -/
def committedRequests (s : System (Action Op) (Action.Ans Ans) ε Req Rep (World D Op K)) : List Req :=
  s.world.commits.filterMap fun i => s.calls[i]?.map (·.request)

/-- The requests served one after the other. -/
def serially (T : Statements D Op Ans ε K V) (script : Req → Script Op Ans ε Rep) :
    List Req → D → Except ε D
  | [], d => .ok d
  | req :: reqs, d =>
      match (script req).runOn T.exec d with
      | .ok (_, d) => serially T script reqs d
      | .error e => .error e

end Locking
