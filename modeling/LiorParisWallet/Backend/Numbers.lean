import LiorParisWallet.Backend.Runs
import LiorParisWallet.Money.Numbers

/-!
# The server with JavaScript numbers

`Numbers.server` is the whole server, with the money computed in doubles.  A run of it in which no amount and no
balance leaves the range where doubles are exact is a run of the server that computes with integers.
-/

namespace LiorParisWallet.Backend

open Async Relational Accounts

variable {P : Packages} {registry : PaymentGatewayRegistry} {s s' : State} {w : World}

namespace Numbers

def perform (P : Packages) (i : ℕ) : (o : Op) → Choice → World → Option (Except Exception (Ans o) × World)
  | .money o, ω, w =>
      (LiorParisWallet.Numbers.perform i o ω.money w.money).map fun x => (.ok x.1, w.putMoney x.2)
  | o, ω, w => Backend.perform P i o ω w

def server (P : Packages) (registry : PaymentGatewayRegistry) :
    Server Op Ans Exception Request Reply Choice World where
  serve := serve P registry
  perform := perform P

end Numbers

/-- No amount that is stored, and no balance that a credit leads to, leaves the range. -/
def Op.InRange (w : World) : Op → Prop
  | .money o => o.InRange w.money
  | _ => True

instance (w : World) : ∀ o : Op, Decidable (o.InRange w)
  | .money o => inferInstanceAs (Decidable (o.InRange w.money))
  | .accounts _ => .isTrue trivial
  | .findUserByIdWithWallets _ => .isTrue trivial
  | .findAll _ => .isTrue trivial

/-- The listener is called with what has been emitted, and every operation is in the range. -/
def WiredInRange (s : State) : Label Request Choice → Prop
  | .start req => Wired s (.start req)
  | .step i _ => ∀ o ∈ s.awaits i, o.InRange s.world

instance (s : State) (l : Label Request Choice) : Decidable (WiredInRange s l) :=
  match l with
  | .start req => inferInstanceAs (Decidable (Wired s (.start req)))
  | .step i _ => inferInstanceAs (Decidable (∀ o ∈ s.awaits i, o.InRange s.world))

/-- A state that some run of the program reaches in the range. -/
def Numbers.Reachable (P : Packages) (registry : PaymentGatewayRegistry) (s : State) : Prop :=
  ∃ w : World, w.Initial P ∧ (Numbers.server P registry).Reaches WiredInRange ⟨w, []⟩ s

theorem WiredInRange.wired {l : Label Request Choice} (h : WiredInRange s l) : Wired s l := by
  cases l with
  | start req => exact h
  | step i ω => trivial

/-! ## In the range -/

theorem bounded_of_effect {i : ℕ} {req : Request} {o : Op} {r : Except Exception (Ans o)} {w' : World}
    (hinv : w.Inv P) (hpre : Guarantees P req i o w) (hrange : o.InRange w) (he : Effect P i w o r w')
    (h : w.money.Bounded) : w'.money.Bounded := by
  cases he with
  -- wallets may only go
  | accounts he => exact { h with wallets := fun a ha => h.wallets a (mem_cascade.mp ha).1 }
  | money he =>
    obtain ⟨-, request, -, hguarantee⟩ := hpre
    exact bounded_step hinv.money hguarantee hrange he h
  | query => exact h

/-- Everything that is stored in a run in the range is in the range. -/
theorem bounded_of_reaches (hinitial : w.Initial P) (h : (server P registry).Reaches WiredInRange ⟨w, []⟩ s) :
    s.world.money.Bounded := by
  induction h with
  | refl => exact bounded_initial hinitial.money
  | @tail s₁ s₂ l hr hallowed hn ih =>
    cases l with
    | start req =>
      cases hn
      exact ih
    | step i ω =>
      -- the guarantee of the call is that of the server with integers
      have hwired : (server P registry).Reaches Wired ⟨w, []⟩ s₁ := hr.mono fun _ _ => WiredInRange.wired
      obtain ⟨c, o, next, r, world, hc, hp, hperform, rfl⟩ := Server.step_cases hn
      have hsound := sound_of_reaches hinitial hwired
      have hpre := (hsound.tracks i (List.getElem?_eq_some_iff.mp hc).1).pre hsound.inv hc hp
      exact bounded_of_effect hsound.inv hpre (hallowed o (System.awaits_eq hc hp)) (effect_of_perform hperform) ih

/-- There the operation that a call awaits computes what it would with integers. -/
theorem perform_eq (hinitial : w.Initial P) (hr : (server P registry).Reaches WiredInRange ⟨w, []⟩ s) {i : ℕ}
    {ω : Choice} {o : Op} (ho : s.awaits i = some o) (hrange : o.InRange s.world) :
    Numbers.perform P i o ω s.world = perform P i o ω s.world := by
  cases o with
  | money o =>
    -- only the money is computed in another way
    have hsound := sound_of_reaches hinitial (hr.mono fun _ _ => WiredInRange.wired)
    obtain ⟨c, hc, hnext⟩ := Option.bind_eq_some_iff.mp ho
    obtain ⟨-, request, -, hguarantee⟩ :=
      (hsound.tracks i (List.getElem?_eq_some_iff.mp hc).1).awaited hsound.inv hc hnext
    have hagree := perform_numbers hsound.inv.money (bounded_of_reaches hinitial hr) hguarantee hrange ω.money
    show Option.map _ (LiorParisWallet.Numbers.perform i o ω.money s.world.money) = Option.map _ _
    rw [hagree]
  | _ => rfl

theorem integers_of_reaches (hinitial : w.Initial P)
    (h : (Numbers.server P registry).Reaches WiredInRange ⟨w, []⟩ s) :
    (server P registry).Reaches WiredInRange ⟨w, []⟩ s :=
  Server.Reaches.of_agree (show (Numbers.server P registry).serve = (server P registry).serve from rfl)
    (fun _ _ _ o hr hallowed ho => perform_eq hinitial hr ho (hallowed o ho)) h

/-- What holds in the runs with integers holds in those in the range. -/
theorem Numbers.Reachable.integers (h : Numbers.Reachable P registry s) : Backend.Reachable P registry s := by
  obtain ⟨w, hinitial, hr⟩ := h
  exact ⟨w, hinitial, (integers_of_reaches hinitial hr).mono fun _ _ => WiredInRange.wired⟩

end LiorParisWallet.Backend
