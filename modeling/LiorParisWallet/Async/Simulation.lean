import LiorParisWallet.Async.System
import Mathlib.Data.List.Forall2

/-!
# Two servers in step

A simulation relates the requests, operations, answers and worlds of two servers, in such a way that
related operations on related worlds settle in related ways.  If every entry point of the one is related
to that of the other (`Related`: they await related operations in the same order), then the same
schedule leaves the two systems in step: every call has ended in both or in neither, and in the same way.
-/

namespace Async

variable {Op Op' : Type} {Ans : Op → Type} {Ans' : Op' → Type}
variable {ε Req Req' Rep Rep' Ω World World' α α' β β' : Type}

/-! ## Results -/

/-- Both succeed, with related values, or both fail, with the same error. -/
inductive Settles (R : α → α' → Prop) : Except ε α → Except ε α' → Prop where
  | ok {a : α} {a' : α'} : R a a' → Settles R (.ok a) (.ok a')
  | error (e : ε) : Settles R (.error e) (.error e)

theorem Settles.bind {R : α → α' → Prop} {Q : β → β' → Prop} {x : Except ε α} {x' : Except ε α'}
    {f : α → Except ε β} {f' : α' → Except ε β'} (h : Settles R x x')
    (hf : ∀ a a', R a a' → Settles Q (f a) (f' a')) : Settles Q (x >>= f) (x' >>= f') := by
  cases h with
  | ok h => exact hf _ _ h
  | error e => exact .error e

theorem Settles.refl (x : Except ε α) : Settles Eq x x := by
  cases x with
  | ok a => exact .ok rfl
  | error e => exact .error e

theorem Settles.eq {x x' : Except ε α} (h : Settles Eq x x') : x' = x := by
  cases h with
  | ok h => rw [h]
  | error e => rfl

/-! ## Programs -/

/-- The programs await operations that `ops` relates, go on in related ways after related answers, and
    end in the same exception or with values that `Q` relates. -/
inductive Related (ops : (o : Op) → (o' : Op') → (Ans o → Ans' o' → Prop) → Prop) (Q : α → α' → Prop) :
    Program Op Ans ε α → Program Op' Ans' ε α' → Prop where
  | ret {a : α} {a' : α'} : Q a a' → Related ops Q (.ret a) (.ret a')
  | throw (e : ε) : Related ops Q (.throw e) (.throw e)
  | await {o : Op} {o' : Op'} {R : Ans o → Ans' o' → Prop}
      {next : Except ε (Ans o) → Program Op Ans ε α}
      {next' : Except ε (Ans' o') → Program Op' Ans' ε α'} :
      ops o o' R → (∀ r r', Settles R r r' → Related ops Q (next r) (next' r')) →
        Related ops Q (.await o next) (.await o' next')

namespace Related

variable {ops : (o : Op) → (o' : Op') → (Ans o → Ans' o' → Prop) → Prop}
variable {Q : α → α' → Prop} {Q' : β → β' → Prop}
variable {p : Program Op Ans ε α} {p' : Program Op' Ans' ε α'}

theorem pure {a : α} {a' : α'} (h : Q a a') :
    Related ops Q (pure a : Program Op Ans ε α) (pure a' : Program Op' Ans' ε α') :=
  .ret h

theorem mono {Q' : α → α' → Prop} (h : Related ops Q p p') (hQ : ∀ a a', Q a a' → Q' a a') :
    Related ops Q' p p' := by
  induction h with
  | ret h => exact .ret (hQ _ _ h)
  | throw e => exact .throw e
  | await ho _ ih => exact .await ho fun r r' hr => ih r r' hr

theorem bind {f : α → Program Op Ans ε β} {f' : α' → Program Op' Ans' ε β'}
    (h : Related ops Q p p') (hf : ∀ a a', Q a a' → Related ops Q' (f a) (f' a')) :
    Related ops Q' (p >>= f) (p' >>= f') := by
  induction h with
  | ret h => exact hf _ _ h
  | throw e => exact .throw e
  | await ho _ ih => exact .await ho fun r r' hr => ih r r' hr

theorem settled (h : Related ops Q p p') : Related ops (Settles Q) p.settled p'.settled := by
  induction h with
  | ret h => exact .ret (.ok h)
  | throw e => exact .ret (.error e)
  | await ho _ ih => exact .await ho fun r r' hr => ih r r' hr

theorem ofExcept {x : Except ε α} {x' : Except ε α'} (h : Settles Q x x') :
    Related ops Q (.ofExcept x : Program Op Ans ε α) (.ofExcept x' : Program Op' Ans' ε α') := by
  cases h with
  | ok h => exact .ret h
  | error e => exact .throw e

theorem call (o : Op) (o' : Op') {R : Ans o → Ans' o' → Prop} (h : ops o o' R) :
    Related ops R (.call o : Program Op Ans ε (Ans o)) (.call o' : Program Op' Ans' ε (Ans' o')) :=
  .await h fun _ _ hr => .ofExcept hr

/-- The rule for an `await` inside a function. -/
theorem call_bind {o : Op} {o' : Op'} {R : Ans o → Ans' o' → Prop}
    {f : Ans o → Program Op Ans ε β} {f' : Ans' o' → Program Op' Ans' ε β'} (h : ops o o' R)
    (hf : ∀ a a', R a a' → Related ops Q' (f a) (f' a')) :
    Related ops Q' (.call o >>= f) (.call o' >>= f') :=
  (call o o' h).bind hf

theorem both {q : Program Op Ans ε β} {q' : Program Op' Ans' ε β'} (hp : Related ops Q p p')
    (hq : Related ops Q' q q') :
    Related ops (fun x x' => Q x.1 x'.1 ∧ Q' x.2 x'.2) (.both p q) (.both p' q') := by
  refine hp.settled.bind fun a a' ha => hq.settled.bind fun b b' hb => ?_
  cases ha with
  | error e => exact .throw e
  | ok ha =>
    cases hb with
    | error e => exact .throw e
    | ok hb => exact .ret ⟨ha, hb⟩

theorem result (h : Related ops Q p p') : Option.Rel (Settles Q) p.result? p'.result? := by
  cases h with
  | ret h => exact .some (.ok h)
  | throw e => exact .some (.error e)
  | await _ _ => exact .none

end Related

/-! ## Systems -/

/-- Related requests arrive, or the same call goes on with the same choice. -/
inductive Label.Alike (requests : Req → Req' → Prop) : Label Req Ω → Label Req' Ω → Prop where
  | start {req : Req} {req' : Req'} : requests req req' → Alike requests (.start req) (.start req')
  | step (i : ℕ) (ω : Ω) : Alike requests (.step i ω) (.step i ω)

structure Simulation (S : Server Op Ans ε Req Rep Ω World)
    (S' : Server Op' Ans' ε Req' Rep' Ω World') where
  requests : Req → Req' → Prop
  /-- The operations, with how their answers are related. -/
  ops : (o : Op) → (o' : Op') → (Ans o → Ans' o' → Prop) → Prop
  worlds : World → World' → Prop
  replies : Rep → Rep' → Prop
  serve : ∀ {req req'}, requests req req' → Related ops replies (S.serve req) (S'.serve req')
  perform : ∀ {o o' R} {w w'} (i : ℕ) (ω : Ω), ops o o' R → worlds w w' →
    Option.Rel (fun x x' => Settles R x.1 x'.1 ∧ worlds x.2 x'.2)
      (S.perform i o ω w) (S'.perform i o' ω w')

namespace Simulation

variable {S : Server Op Ans ε Req Rep Ω World} {S' : Server Op' Ans' ε Req' Rep' Ω World'}
variable (M : Simulation S S')

structure Calls (c : Call Op Ans ε Req Rep) (c' : Call Op' Ans' ε Req' Rep') : Prop where
  request : M.requests c.request c'.request
  program : Related M.ops M.replies c.program c'.program

/-- The worlds are related, and so are the calls, one by one. -/
structure InStep (s : System Op Ans ε Req Rep World) (s' : System Op' Ans' ε Req' Rep' World') :
    Prop where
  world : M.worlds s.world s'.world
  calls : List.Forall₂ M.Calls s.calls s'.calls

variable {M} {s : System Op Ans ε Req Rep World} {s' : System Op' Ans' ε Req' Rep' World'}

theorem forall₂_getElem? {R : α → α' → Prop} {l : List α} {l' : List α'} (h : List.Forall₂ R l l')
    (i : ℕ) : Option.Rel R l[i]? l'[i]? := by
  induction h generalizing i with
  | nil => exact .none
  | cons h _ ih =>
    cases i with
    | zero => exact .some h
    | succ i => exact ih i

theorem forall₂_set {R : α → α' → Prop} {l : List α} {l' : List α'} (h : List.Forall₂ R l l')
    (i : ℕ) {a : α} {a' : α'} (ha : R a a') : List.Forall₂ R (l.set i a) (l'.set i a') := by
  induction h generalizing i with
  | nil => exact .nil
  | cons h hs ih =>
    cases i with
    | zero => exact .cons ha hs
    | succ i => exact .cons h (ih i)

theorem rel_bind {R : α → α' → Prop} {Q : β → β' → Prop} {x : Option α} {x' : Option α'}
    {f : α → Option β} {f' : α' → Option β'} (h : Option.Rel R x x')
    (hf : ∀ a a', R a a' → Option.Rel Q (f a) (f' a')) : Option.Rel Q (x.bind f) (x'.bind f') := by
  cases h with
  | some h => exact hf _ _ h
  | none => exact .none

theorem rel_getD {R : α → α' → Prop} {x : Option α} {x' : Option α'} {a : α} {a' : α'}
    (h : Option.Rel R x x') (ha : R a a') : R (x.getD a) (x'.getD a') := by
  cases h with
  | some h => exact h
  | none => exact ha

theorem InStep.step (h : M.InStep s s') (i : ℕ) (ω : Ω) :
    Option.Rel M.InStep (S.step s i ω) (S'.step s' i ω) := by
  refine rel_bind (forall₂_getElem? h.calls i) fun c c' hc => ?_
  obtain ⟨req, answers, program⟩ := c
  obtain ⟨req', answers', program'⟩ := c'
  obtain ⟨hreq, hprogram⟩ := hc
  -- both calls await an operation, or both have ended
  cases hprogram with
  | ret _ => exact .none
  | throw _ => exact .none
  | await ho hnext =>
    refine rel_bind (M.perform i ω ho h.world) fun x x' hx => ?_
    exact .some ⟨hx.2, forall₂_set h.calls i ⟨hreq, hnext _ _ hx.1⟩⟩

/-- One label, in both systems or in neither. -/
theorem InStep.next (h : M.InStep s s') {l : Label Req Ω} {l' : Label Req' Ω}
    (hl : Label.Alike M.requests l l') :
    Option.Rel M.InStep (S.next s l) (S'.next s' l') := by
  cases hl with
  | start hreq =>
    exact .some ⟨h.world, List.rel_append h.calls (.cons ⟨hreq, M.serve hreq⟩ .nil)⟩
  | step i ω => exact h.step i ω

/-- The same schedule leaves two systems in step that were in step before. -/
theorem InStep.drive (h : M.InStep s s') {ls : List (Label Req Ω)} {ls' : List (Label Req' Ω)}
    (hls : List.Forall₂ (Label.Alike M.requests) ls ls') : M.InStep (S.drive ls s) (S'.drive ls' s') := by
  induction hls generalizing s s' with
  | nil => exact h
  -- a label that is passed over in one system is passed over in the other
  | cons hl _ ih => exact ih (rel_getD (h.next hl) h)

/-- A call has ended in both systems, in the same way, or in neither. -/
theorem InStep.outcome (h : M.InStep s s') (i : ℕ) :
    Option.Rel (Settles M.replies) (s.outcome i) (s'.outcome i) :=
  rel_bind (forall₂_getElem? h.calls i) fun _ _ hc => hc.program.result

end Simulation

end Async
