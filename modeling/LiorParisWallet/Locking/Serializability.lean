import LiorParisWallet.Locking.Database

/-!
# Serializability

Locks that are held until the end make the transactions serializable: at every moment of every run the
committed state is what the committed transactions leave when they run one after the other, in the order
of their commits (`Reachable.isolated`).  What carries the induction is that the statements of an open
transaction could be repeated now: on the latest committed state they have the answers that they had.
-/

namespace Locking

open Async

variable {D Op Req : Type} {Ans : Op → Type} {ε K α β Rep : Type} {V : K → Type}
variable {T : Statements D Op Ans ε K V} {script : Req → Script Op Ans ε Rep}
variable {w w' : World D Op K} {i j : ℕ} {k : K} {d : D}

/-! ## One step of a transaction -/

/-- What one step of transaction `i` can be, by what is left of its script. -/
inductive Move (T : Statements D Op Ans ε K V) (i : ℕ) (w : World D Op K) :
    Script Op Ans ε α → World D Op K → Program (Action Op) (Action.Ans Ans) ε α → Prop where
  | executed {o : Op} {next : Ans o → Script Op Ans ε α} {a : Ans o} {e : D} :
      ¬w.Locked i (T.key o) → T.exec o (w.view T i) = .ok (a, e) →
        Move T i w (.exec o next) (w.executed T i o) (next a).transaction
  | failed {q : Script Op Ans ε α} (e : ε) : Move T i w q w (Script.throw e).transaction
  | committed (a : α) : Move T i w (.ret a) (w.commit T i) (.ret a)
  | rolledBack (e : ε) : Move T i w (.throw e) (w.release i) (.throw e)

theorem transaction_exec (o : Op) (next : Ans o → Script Op Ans ε α) :
    (Script.exec o next).transaction = .await (.run o) fun
      | .ok a => (next a).transaction
      | .error e => (Script.throw e).transaction := by
  simp only [Script.transaction, Script.toProgram, Program.bind, Program.handle]
  congr 1
  funext r
  cases r <;> rfl

theorem move_of_perform [DecidableEq K] {q : Script Op Ans ε α} {a : Action Op}
    {next : Except ε (Action.Ans Ans a) → Program (Action Op) (Action.Ans Ans) ε α}
    (hq : q.transaction = .await a next) {ω : Option ε} {r : Except ε (Action.Ans Ans a)}
    (h : perform T i a ω w = some (r, w')) : Move T i w q w' (next r) := by
  cases q with
  | ret x =>
    cases hq
    cases ω with
    | some e =>
      cases h
      exact .failed e
    | none =>
      cases h
      exact .committed x
  | throw e =>
    cases hq
    cases h
    exact .rolledBack e
  | exec o next' =>
    rw [transaction_exec] at hq
    cases hq
    cases ω with
    | some e =>
      cases h
      exact .failed e
    | none =>
      simp only [perform] at h
      split at h
      · cases h
      · rename_i hfree
        cases hexec : T.exec o (w.view T i) with
        | ok x =>
          rw [hexec] at h
          cases h
          exact .executed hfree hexec
        | error e =>
          rw [hexec] at h
          cases h
          exact .failed e

/-! ## The invariant -/

/-- How far the transaction of call `i` has got with the script `p`. -/
inductive Stage (T : Statements D Op Ans ε K V) (w : World D Op K) (i : ℕ) (p : Script Op Ans ε α) :
    Program (Action Op) (Action.Ans Ans) ε α → Prop where
  | running {q : Script Op Ans ε α} {e : D} : T.Ran w.committed p (w.statements i) q e →
      i ∉ w.commits → Stage T w i p q.transaction
  | failing (e : ε) : i ∉ w.commits → Stage T w i p (Script.throw e).transaction
  | committed (a : α) : w.statements i = [] → i ∈ w.commits → Stage T w i p (.ret a)
  | rolledBack (e : ε) : w.statements i = [] → i ∉ w.commits → Stage T w i p (.throw e)

/-- The locks are on what the open transactions have worked on, and no two have the same lock. -/
structure Exclusive (T : Statements D Op Ans ε K V) (w : World D Op K) : Prop where
  owner : ∀ l ∈ w.locks, ∃ o ∈ w.statements l.1, T.key o = l.2
  lockable : ∀ l ∈ w.locks, T.Lockable w.committed l.2
  held : ∀ i, ∀ o ∈ w.statements i, T.Lockable w.committed (T.key o) → (i, T.key o) ∈ w.locks
  unique : ∀ l ∈ w.locks, ∀ l' ∈ w.locks, l.2 = l'.2 → l.1 = l'.1

structure Isolated (T : Statements D Op Ans ε K V) (script : Req → Script Op Ans ε Rep) (d : D)
    (s : System (Action Op) (Action.Ans Ans) ε Req Rep (World D Op K)) : Prop where
  stage : ∀ i c, s.calls[i]? = some c → Stage T s.world i (script c.request) c.program
  idle : ∀ i, s.calls.length ≤ i → s.world.statements i = [] ∧ i ∉ s.world.commits
  exclusive : Exclusive T s.world
  once : s.world.commits.Nodup
  serial : serially T script (committedRequests s) d = .ok s.world.committed

theorem exclusive_idle (d : D) : Exclusive T (World.idle d) where
  owner _ hl := absurd hl List.not_mem_nil
  lockable _ hl := absurd hl List.not_mem_nil
  held _ _ ho _ := absurd ho List.not_mem_nil
  unique _ hl := absurd hl List.not_mem_nil

theorem World.mem_release {l : ℕ × K} : l ∈ (w.release i).locks ↔ l ∈ w.locks ∧ l.1 ≠ i := by
  simp only [World.release, List.mem_filter, bne_iff_ne]

theorem World.statements_release_of_ne (h : j ≠ i) : (w.release i).statements j = w.statements j :=
  Function.update_of_ne h _ _

theorem World.statements_release : (w.release i).statements i = [] :=
  Function.update_self _ _ _

theorem World.statements_executed_of_ne {o : Op} (h : j ≠ i) :
    (w.executed T i o).statements j = w.statements j :=
  Function.update_of_ne h _ _

theorem World.statements_executed {o : Op} :
    (w.executed T i o).statements i = w.statements i ++ [o] :=
  Function.update_self _ _ _

theorem World.mem_executed {o : Op} {l : ℕ × K} : l ∈ (w.executed T i o).locks ↔
    l ∈ w.locks ∨ (T.Lockable w.committed (T.key o) ∧ l = (i, T.key o)) := by
  show l ∈ (if T.Lockable w.committed (T.key o) then (i, T.key o) :: w.locks else w.locks) ↔ _
  by_cases h : T.Lockable w.committed (T.key o)
  · rw [if_pos h, List.mem_cons, and_iff_right h]
    exact Or.comm
  · rw [if_neg h]
    exact (or_iff_left fun hl => h hl.1).symm

theorem Exclusive.executed {o : Op} (h : Exclusive T w) (hfree : ¬w.Locked i (T.key o)) :
    Exclusive T (w.executed T i o) where
  owner l hl := by
    rcases World.mem_executed.mp hl with hl | ⟨-, rfl⟩
    · obtain ⟨o', ho', hk⟩ := h.owner l hl
      by_cases hi : l.1 = i
      · refine ⟨o', ?_, hk⟩
        rw [hi, World.statements_executed]
        exact List.mem_append_left _ (hi ▸ ho')
      · exact ⟨o', by rwa [World.statements_executed_of_ne hi], hk⟩
    · exact ⟨o, by rw [World.statements_executed]; exact List.mem_concat_self, rfl⟩
  lockable l hl := by
    rcases World.mem_executed.mp hl with hl | ⟨hlock, rfl⟩
    · exact h.lockable l hl
    · exact hlock
  held j o' ho' hlock := by
    by_cases hj : j = i
    · subst hj
      rw [World.statements_executed, List.mem_append, List.mem_singleton] at ho'
      rcases ho' with ho' | rfl
      · exact World.mem_executed.mpr (.inl (h.held j o' ho' hlock))
      · exact World.mem_executed.mpr (.inr ⟨hlock, rfl⟩)
    · rw [World.statements_executed_of_ne hj] at ho'
      exact World.mem_executed.mpr (.inl (h.held j o' ho' hlock))
  unique l hl l' hl' heq := by
    -- the new lock was free, so whoever has it already is transaction `i`
    have hown : ∀ l ∈ w.locks, l.2 = T.key o → l.1 = i := by
      intro l hl hk
      by_contra hne
      exact hfree ⟨l, hl, hne, hk⟩
    rcases World.mem_executed.mp hl with hl | ⟨-, rfl⟩ <;>
      rcases World.mem_executed.mp hl' with hl' | ⟨-, rfl⟩
    · exact h.unique l hl l' hl' heq
    · exact hown l hl heq
    · exact (hown l' hl' heq.symm).symm
    · rfl

/-- Giving up locks is harmless, also when the committed state changes but nothing becomes lockable or
    unlockable. -/
theorem Exclusive.release (h : Exclusive T w) (hw : w'.statements = (w.release i).statements)
    (hl : w'.locks = (w.release i).locks)
    (hc : ∀ k, T.Lockable w'.committed k ↔ T.Lockable w.committed k) : Exclusive T w' where
  owner l hm := by
    rw [hl, World.mem_release] at hm
    rw [hw, World.statements_release_of_ne hm.2]
    exact h.owner l hm.1
  lockable l hm := by
    rw [hl, World.mem_release] at hm
    exact (hc _).mpr (h.lockable l hm.1)
  held j o ho hlock := by
    rw [hw] at ho
    by_cases hj : j = i
    · subst hj
      rw [World.statements_release] at ho
      cases ho
    · rw [World.statements_release_of_ne hj] at ho
      rw [hl, World.mem_release]
      exact ⟨h.held j o ho ((hc _).mp hlock), hj⟩
  unique l hm l' hm' heq := by
    rw [hl, World.mem_release] at hm hm'
    exact h.unique l hm.1 l' hm'.1 heq

/-- What transaction `j` has worked on is as it was, whatever transaction `i` has done. -/
theorem Exclusive.view_eq (h : Exclusive T w) (hij : i ≠ j) {p q : Script Op Ans ε α} {e : D}
    (hr : T.Ran w.committed p (w.statements i) q e) {o : Op} (ho : o ∈ w.statements j) :
    T.view e (T.key o) = T.view w.committed (T.key o) := by
  by_cases hlock : T.Lockable w.committed (T.key o)
  · refine hr.view_of_untouched fun o' ho' heq => hij ?_
    -- both would hold the lock
    have hi := h.held i o' ho' (heq ▸ hlock)
    have hj := h.held j o ho hlock
    exact h.unique _ hi _ hj heq.symm
  · exact hr.view_of_not_lockable hlock

/-! ## Preservation -/

/-- The transaction of another call does not notice a step that leaves the committed state alone. -/
theorem Stage.congr {p : Script Op Ans ε α} {prog : Program (Action Op) (Action.Ans Ans) ε α}
    (h : Stage T w i p prog) (hc : w'.committed = w.committed)
    (hs : w'.statements i = w.statements i) (hi : i ∈ w'.commits ↔ i ∈ w.commits) :
    Stage T w' i p prog := by
  cases h with
  | running hr hnot => exact .running (by rw [hc, hs]; exact hr) fun hm => hnot (hi.mp hm)
  | failing e hnot => exact .failing e fun hm => hnot (hi.mp hm)
  | committed a hnil hm => exact .committed a (hs.trans hnil) (hi.mpr hm)
  | rolledBack e hnil hnot => exact .rolledBack e (hs.trans hnil) fun hm => hnot (hi.mp hm)

/-- A commit of another transaction: the statements of this one would have the same answers on the new
    committed state. -/
theorem Stage.of_commit {p : Script Op Ans ε α} {prog : Program (Action Op) (Action.Ans Ans) ε α}
    (h : Stage T w j p prog) (hx : Exclusive T w) (hij : i ≠ j) {p' q' : Script Op Ans ε β} {e : D}
    (hr : T.Ran w.committed p' (w.statements i) q' e) : Stage T (w.commit T i) j p prog := by
  have hview : (w.commit T i).committed = e := hr.replay_eq
  have hs : (w.commit T i).statements j = w.statements j :=
    World.statements_release_of_ne (Ne.symm hij)
  have hi : j ∈ (w.commit T i).commits ↔ j ∈ w.commits := by
    rw [World.commit, List.mem_append, List.mem_singleton]
    exact or_iff_left (Ne.symm hij)
  cases h with
  | running hrun hnot =>
    have hsame : ∀ o ∈ w.statements j, T.view e (T.key o) = T.view w.committed (T.key o) :=
      fun o ho => hx.view_eq hij hr ho
    obtain ⟨e', hrun', -⟩ := hrun.transport hsame
    exact .running (by rw [hview, hs]; exact hrun') fun hm => hnot (hi.mp hm)
  | failing e hnot => exact .failing e fun hm => hnot (hi.mp hm)
  | committed a hnil hm => exact .committed a (hs.trans hnil) (hi.mpr hm)
  | rolledBack e hnil hnot => exact .rolledBack e (hs.trans hnil) fun hm => hnot (hi.mp hm)

/-- What is left of the script of an open transaction: it is either what remains after statements that
    could be repeated now, or an exception. -/
def Remains (T : Statements D Op Ans ε K V) (w : World D Op K) (i : ℕ) (p q : Script Op Ans ε α) :
    Prop :=
  (∃ e, T.Ran w.committed p (w.statements i) q e) ∨ ∃ e, q = .throw e

theorem Stage.move [DecidableEq K] {p : Script Op Ans ε α} {a : Action Op}
    {next : Except ε (Action.Ans Ans a) → Program (Action Op) (Action.Ans Ans) ε α}
    (h : Stage T w i p (.await a next)) {ω : Option ε} {r : Except ε (Action.Ans Ans a)}
    (hperf : perform T i a ω w = some (r, w')) :
    ∃ q, Remains T w i p q ∧ i ∉ w.commits ∧ Move T i w q w' (next r) := by
  generalize hprog : Program.await a next = prog at h
  cases h with
  | running hr hnot => exact ⟨_, .inl ⟨_, hr⟩, hnot, move_of_perform hprog.symm hperf⟩
  | failing e hnot => exact ⟨_, .inr ⟨e, rfl⟩, hnot, move_of_perform hprog.symm hperf⟩
  | committed a _ _ => cases hprog
  | rolledBack e _ _ => cases hprog

section

variable {p q : Script Op Ans ε α} {prog : Program (Action Op) (Action.Ans Ans) ε α}

theorem Move.frame (h : Move T i w q w' prog) (hij : i ≠ j) :
    w'.statements j = w.statements j ∧ (j ∈ w'.commits ↔ j ∈ w.commits) := by
  cases h with
  | executed _ _ => exact ⟨World.statements_executed_of_ne (Ne.symm hij), Iff.rfl⟩
  | failed e => exact ⟨rfl, Iff.rfl⟩
  | committed a =>
    refine ⟨World.statements_release_of_ne (Ne.symm hij), ?_⟩
    rw [World.commit, List.mem_append, List.mem_singleton]
    exact or_iff_left (Ne.symm hij)
  | rolledBack e => exact ⟨World.statements_release_of_ne (Ne.symm hij), Iff.rfl⟩

/-- A script that is about to return has only statements behind it that could be repeated now. -/
theorem Remains.ran {a : α} (h : Remains T w i p (.ret a)) :
    ∃ e, T.Ran w.committed p (w.statements i) (.ret a) e := by
  rcases h with h | ⟨_, he⟩
  · exact h
  · cases he

theorem Move.stage_self (h : Move T i w q w' prog) (hq : Remains T w i p q) (hnot : i ∉ w.commits) :
    Stage T w' i p prog := by
  cases h with
  | @executed o next a e hfree hexec =>
    rcases hq with ⟨e', hr⟩ | ⟨_, he⟩
    · rw [World.view, hr.replay_eq] at hexec
      refine .running (e := e) ?_ hnot
      rw [World.statements_executed]
      exact hr.tail hexec
    · cases he
  | failed e => exact .failing e hnot
  | committed a =>
    exact .committed a World.statements_release (List.mem_append_right _ (List.mem_singleton_self i))
  | rolledBack e => exact .rolledBack e World.statements_release hnot

theorem Move.stage_of_ne (h : Move T i w q w' prog) (hq : Remains T w i p q) (hx : Exclusive T w)
    (hij : i ≠ j) {p' : Script Op Ans ε β}
    {prog' : Program (Action Op) (Action.Ans Ans) ε β} (hs : Stage T w j p' prog') :
    Stage T w' j p' prog' := by
  obtain ⟨hstatements, hcommits⟩ := h.frame hij
  cases h with
  | executed _ _ => exact hs.congr rfl hstatements hcommits
  | failed e => exact hs
  | committed a =>
    obtain ⟨e, hr⟩ := hq.ran
    exact hs.of_commit hx hij hr
  | rolledBack e => exact hs.congr rfl hstatements hcommits

theorem Move.exclusive (h : Move T i w q w' prog) (hq : Remains T w i p q) (hx : Exclusive T w) :
    Exclusive T w' := by
  cases h with
  | executed hfree _ => exact hx.executed hfree
  | failed e => exact hx
  | committed a =>
    obtain ⟨e, hr⟩ := hq.ran
    refine hx.release rfl rfl fun k => ?_
    show T.Lockable (T.replay (w.statements i) w.committed) k ↔ _
    rw [hr.replay_eq]
    exact hr.lockable_iff
  | rolledBack e => exact hx.release rfl rfl fun _ => Iff.rfl

/-- A step either leaves the committed state alone, or adds to it what the script does when it runs
    alone. -/
theorem Move.serial (h : Move T i w q w' prog) (hq : Remains T w i p q) :
    (w'.committed = w.committed ∧ w'.commits = w.commits) ∨
      ∃ a, p.runOn T.exec w.committed = .ok (a, w'.committed) ∧ w'.commits = w.commits ++ [i] := by
  cases h with
  | executed _ _ => exact .inl ⟨rfl, rfl⟩
  | failed e => exact .inl ⟨rfl, rfl⟩
  | committed a =>
    obtain ⟨e, hr⟩ := hq.ran
    refine .inr ⟨a, ?_, rfl⟩
    show _ = Except.ok (a, T.replay (w.statements i) w.committed)
    rw [hr.runOn_eq, hr.replay_eq]
    rfl
  | rolledBack e => exact .inl ⟨rfl, rfl⟩

end

theorem serially_append (reqs : List Req) (req : Req) (d : D) :
    serially T script (reqs ++ [req]) d = (serially T script reqs d).bind fun e =>
      ((script req).runOn T.exec e).map (·.2) := by
  induction reqs generalizing d with
  | nil =>
    show serially T script [req] d = ((script req).runOn T.exec d).map (·.2)
    unfold serially
    cases (script req).runOn T.exec d <;> rfl
  | cons r reqs ih =>
    rw [List.cons_append, serially, serially]
    cases (script r).runOn T.exec d with
    | error e => rfl
    | ok x => exact ih x.2

variable {s s' : System (Action Op) (Action.Ans Ans) ε Req Rep (World D Op K)}

theorem committedRequests_congr (hc : s'.world.commits = s.world.commits)
    (hreq : ∀ i ∈ s.world.commits, s'.calls[i]?.map (·.request) = s.calls[i]?.map (·.request)) :
    committedRequests s' = committedRequests s := by
  unfold committedRequests
  rw [hc]
  exact List.filterMap_congr hreq

theorem request_set {calls : List (Call (Action Op) (Action.Ans Ans) ε Req Rep)} {i : ℕ}
    {c c' : Call (Action Op) (Action.Ans Ans) ε Req Rep} (hc : calls[i]? = some c)
    (hreq : c'.request = c.request) (j : ℕ) :
    (calls.set i c')[j]?.map (·.request) = calls[j]?.map (·.request) := by
  by_cases hij : i = j
  · subst hij
    rw [List.getElem?_set_self (List.getElem?_eq_some_iff.mp hc).1, hc]
    exact congrArg some hreq
  · rw [List.getElem?_set_ne hij]

theorem Isolated.start (h : Isolated T script d s) (req : Req) :
    Isolated T script d
      { s with calls := s.calls ++ [⟨req, [], (script req).transaction⟩] } where
  stage i c hc := by
    rw [List.getElem?_append] at hc
    split at hc
    · exact h.stage i c hc
    · rename_i hi
      obtain ⟨hnil, hnot⟩ := h.idle i (Nat.le_of_not_lt hi)
      rw [List.mem_singleton.mp (List.mem_of_getElem? hc)]
      exact .running (by rw [hnil]; exact .refl) hnot
  idle i hi := by
    rw [List.length_append] at hi
    exact h.idle i (Nat.le_of_add_right_le hi)
  exclusive := h.exclusive
  once := h.once
  serial := by
    refine (congrArg (serially T script · d) ?_).trans h.serial
    refine committedRequests_congr rfl fun i hi => ?_
    -- the calls that have committed were there before
    have hlt : i < s.calls.length := by
      by_contra hge
      exact (h.idle i (Nat.le_of_not_lt hge)).2 hi
    rw [List.getElem?_append_left hlt]

theorem Isolated.step (h : Isolated T script d s)
    {c c' : Call (Action Op) (Action.Ans Ans) ε Req Rep} (hc : s.calls[i]? = some c)
    (hreq : c'.request = c.request) {q : Script Op Ans ε Rep}
    (hq : Remains T s.world i (script c.request) q) (hnot : i ∉ s.world.commits)
    (hm : Move T i s.world q w' c'.program) :
    Isolated T script d ⟨w', s.calls.set i c'⟩ where
  stage j cj hcj := by
    by_cases hij : i = j
    · subst hij
      rw [List.getElem?_set_self (List.getElem?_eq_some_iff.mp hc).1] at hcj
      cases hcj
      rw [hreq]
      exact hm.stage_self hq hnot
    · rw [List.getElem?_set_ne hij] at hcj
      exact hm.stage_of_ne hq h.exclusive hij (h.stage j cj hcj)
  idle j hj := by
    rw [List.length_set] at hj
    have hij : i ≠ j := fun heq => absurd (List.getElem?_eq_some_iff.mp hc).1 (by omega)
    obtain ⟨hstatements, hcommits⟩ := hm.frame hij
    obtain ⟨hnil, hnotj⟩ := h.idle j hj
    exact ⟨hstatements.trans hnil, fun hjc => hnotj (hcommits.mp hjc)⟩
  exclusive := hm.exclusive hq h.exclusive
  once := by
    rcases hm.serial hq with ⟨-, hcommits⟩ | ⟨_, -, hcommits⟩
    · exact hcommits ▸ h.once
    · show w'.commits.Nodup
      rw [hcommits]
      exact List.nodup_append.mpr ⟨h.once, List.pairwise_singleton _ i, fun a ha b hb heq =>
        hnot (List.mem_singleton.mp hb ▸ heq ▸ ha)⟩
  serial := by
    have hkeep := request_set hc hreq
    rcases hm.serial hq with ⟨hcommitted, hcommits⟩ | ⟨a, hrun, hcommits⟩
    · rw [committedRequests_congr hcommits fun j _ => hkeep j]
      show _ = Except.ok w'.committed
      rw [hcommitted]
      exact h.serial
    · have hreqs : committedRequests ⟨w', s.calls.set i c'⟩ = committedRequests s ++ [c.request] := by
        show w'.commits.filterMap (fun j => (s.calls.set i c')[j]?.map (·.request)) = _
        rw [hcommits, List.filterMap_append, List.filterMap_congr fun j _ => hkeep j]
        simp only [List.filterMap_cons, List.filterMap_nil, hkeep, hc, Option.map_some]
        rfl
      rw [hreqs, serially_append, h.serial]
      show ((script c.request).runOn T.exec s.world.committed).map (·.2) = _
      rw [hrun]
      rfl

variable [DecidableEq K]

theorem Isolated.next (h : Isolated T script d s) {l : Label Req (Option ε)}
    (hn : (server T script).next s l = some s') : Isolated T script d s' := by
  cases l with
  | start req =>
    cases hn
    exact h.start req
  | step i ω =>
    obtain ⟨c, o, next, r, world, hc, hp, hperf, rfl⟩ := Server.step_cases hn
    obtain ⟨q, hq, hnot, hm⟩ := (hp ▸ h.stage i c hc).move hperf
    exact h.step hc rfl hq hnot hm

/-- Every interleaving of transactions keeps them isolated from each other. -/
theorem Reachable.isolated (h : Reachable T script d s) : Isolated T script d s := by
  induction h with
  | refl =>
    exact
      { stage := fun i c hc => nomatch hc
        idle := fun _ _ => ⟨rfl, List.not_mem_nil⟩
        exclusive := exclusive_idle d
        once := List.nodup_nil
        serial := rfl }
  | tail _ _ hn ih => exact ih.next hn

/-- The transactions that have been committed are those that have returned. -/
theorem Reachable.committed_iff (h : Reachable T script d s) (i : ℕ) :
    i ∈ s.world.commits ↔ ∃ r, s.outcome i = some (.ok r) := by
  have hi := h.isolated
  unfold System.outcome
  cases hc : s.calls[i]? with
  | none =>
    refine iff_of_false (hi.idle i (List.getElem?_eq_none_iff.mp hc)).2 ?_
    rintro ⟨r, hr⟩
    cases hr
  | some c =>
    rw [Option.bind_some]
    have hstage := hi.stage i c hc
    generalize c.program = prog at hstage ⊢
    cases hstage with
    | @running q _ _ hnot =>
      refine iff_of_false hnot ?_
      rintro ⟨r, hr⟩
      cases q with
      | ret a => cases hr
      | throw e => cases hr
      | exec o next =>
        rw [transaction_exec] at hr
        cases hr
    | failing e hnot => exact iff_of_false hnot fun ⟨_, hr⟩ => nomatch hr
    | committed a _ hm => exact iff_of_true hm ⟨a, rfl⟩
    | rolledBack e _ hnot => exact iff_of_false hnot fun ⟨_, hr⟩ => nomatch hr

/-- What an open transaction awaits is the next statement of its script after statements that could be
    repeated on the latest committed state. -/
theorem Reachable.ran (h : Reachable T script d s) {i : ℕ} {o : Op}
    (ho : s.awaits i = some (.run o)) : ∃ c next e, s.calls[i]? = some c ∧
      T.Ran s.world.committed (script c.request) (s.world.statements i) (.exec o next) e := by
  obtain ⟨c, hc, ho⟩ := Option.bind_eq_some_iff.mp ho
  have hstage := h.isolated.stage i c hc
  generalize c.program = prog at hstage ho
  cases hstage with
  | @running q e hr _ =>
    cases q with
    | ret a => cases ho
    | throw e => cases ho
    | exec o' next =>
      rw [transaction_exec] at ho
      cases ho
      exact ⟨c, next, e, hc, hr⟩
  | failing e _ => cases ho
  | committed a _ _ => cases ho
  | rolledBack e _ _ => cases ho

end Locking
