import LiorParisWallet.Backend.Histories
import LiorParisWallet.Backend.Numbers

/-!
# The server refines a bank

Every run of the server is a run of the bank, with the actions that were asked for.  The bank computes with integers,
and so does the program as long as it stays in the range where doubles are exact.
-/

namespace LiorParisWallet.Backend

open Async Relational Banking Accounts

variable {P : Packages} {registry : PaymentGatewayRegistry} {s s' : State} {w : World}

/-- The entries are a history that has led to the wallets of this state, every action of it was asked for, and
    no key was used twice, neither for a transfer nor for a deposit. -/
structure Booked (P : Packages) (s : State) (entries : List (Entry String String String String)) : Prop where
  run : Run Bank.empty entries s.world.bank
  authorised : ∀ e ∈ entries, Authorised P s e
  moves : (entries.filterMap (·.action.moveKey?)).Nodup
  credits : (entries.filterMap (·.action.creditKey?)).Nodup

/-- The keys of the history are in the ledger. -/
structure Entered (s : State) (entries : List (Entry String String String String)) : Prop where
  moves : ∀ key ∈ entries.filterMap (·.action.moveKey?),
    ∃ l ∈ s.world.money.db.ledger, l.idempotencyKey = key ++ ":out"
  credits : ∀ key ∈ entries.filterMap (·.action.creditKey?),
    ∃ l ∈ s.world.money.db.ledger, l.idempotencyKey = key

/-! ## Steps -/

section Steps

variable {i : ℕ} {c : Call Op Ans Exception Request Reply} {o : Op} {r : Except Exception (Ans o)}

/-- Whatever an operation does to the bank was asked for. -/
theorem authorised_of_books (h : Documented P s) (hperformed : Performed P registry s i c o r w)
    {action : Action String String String String} {b : Bank String String String} (hbooks : Books P o action)
    (hstep : s.world.bank.Step action b) : Authorised P s ⟨s.world.bank, action⟩ := by
  cases hbooks with
  | opened id => exact opened_of_permits h hperformed.call id hperformed.permits
  | credited =>
    cases hstep with
    | credited hx =>
      exact credited_of_permits h hperformed.inv hperformed.call hperformed.permits hperformed.guarantees hx
  | moved =>
    cases hstep with
    | moved hx => exact moved_of_permits h hperformed.call hperformed.permits hperformed.guarantees hx
  | closed => exact closed_of_permits h hperformed.call hperformed.permits

theorem Booked.keep {entries : List (Entry String String String String)} (h : Booked P s entries)
    (hf : Follows s s') (hbank : s'.world.bank = s.world.bank) : Booked P s' entries :=
  { h with run := hbank ▸ h.run, authorised := fun e he => (h.authorised e he).mono hf }

theorem Entered.keep {entries : List (Entry String String String String)} (h : Entered s entries)
    (hf : Follows s s') : Entered s' entries where
  moves key hkey :=
    let ⟨l, hl, heq⟩ := h.moves key hkey
    ⟨l, hf.grows.mem_ledger hl, heq⟩
  credits key hkey :=
    let ⟨l, hl, heq⟩ := h.credits key hkey
    ⟨l, hf.grows.mem_ledger hl, heq⟩

/-- A key that comes last is used once if it was not used before. -/
theorem nodup_snoc {α β : Type} {f : α → Option β} {l : List α} {a : α} (h : (l.filterMap f).Nodup)
    (hnew : ∀ b, f a = some b → b ∉ l.filterMap f) : ((l ++ [a]).filterMap f).Nodup := by
  rw [List.filterMap_append]
  cases ha : f a with
  | none => simpa [ha] using h
  | some b =>
    rw [List.filterMap_cons_some ha, List.filterMap_nil]
    refine List.nodup_append.mpr ⟨h, List.nodup_singleton b, fun x hx y hy heq => ?_⟩
    obtain rfl := List.mem_singleton.mp hy
    exact hnew _ ha (heq ▸ hx)

theorem mem_snoc {α β : Type} {f : α → Option β} {l : List α} {a : α} {b : β}
    (h : b ∈ (l ++ [a]).filterMap f) : b ∈ l.filterMap f ∨ f a = some b := by
  rw [List.filterMap_append, List.mem_append] at h
  refine h.imp_right fun h => ?_
  simpa using h

theorem Booked.snoc {entries : List (Entry String String String String)}
    {action : Action String String String String} (h : Booked P s entries) (hentered : Entered s entries)
    (hf : Follows s s') (hstep : s.world.bank.Step action s'.world.bank)
    (hauthorised : Authorised P s ⟨s.world.bank, action⟩) (hkey : TakesKey s.world s'.world action) :
    Booked P s' (entries ++ [⟨s.world.bank, action⟩]) where
  run := .snoc h.run hstep
  authorised e he := by
    rcases List.mem_append.mp he with he | he
    · exact (h.authorised e he).mono hf
    · rw [List.mem_singleton.mp he]
      exact hauthorised.mono hf
  moves := nodup_snoc h.moves fun key heq hmem => by
    obtain ⟨l, hl, hlkey⟩ := hentered.moves key hmem
    exact (hkey.moved key heq).1 l hl hlkey
  credits := nodup_snoc h.credits fun key heq hmem => by
    obtain ⟨l, hl, hlkey⟩ := hentered.credits key hmem
    exact (hkey.credited key heq).1 l hl hlkey

theorem Entered.snoc {entries : List (Entry String String String String)}
    {action : Action String String String String} (h : Entered s entries) (hf : Follows s s')
    (hkey : TakesKey s.world s'.world action) :
    Entered s' (entries ++ [⟨s.world.bank, action⟩]) where
  moves key hmem := by
    rcases mem_snoc hmem with hmem | heq
    · exact (h.keep hf).moves key hmem
    · exact (hkey.moved key heq).2
  credits key hmem := by
    rcases mem_snoc hmem with hmem | heq
    · exact (h.keep hf).credits key hmem
    · exact (hkey.credited key heq).2

end Steps

/-! ## Runs -/

theorem booked_of_reaches (hinitial : w.Initial P) (h : (server P registry).Reaches Wired ⟨w, []⟩ s) :
    ∃ entries, Booked P s entries ∧ Entered s entries := by
  refine run_induction (motive := fun s => ∃ entries, Booked P s entries ∧ Entered s entries) hinitial
    ⟨[], ?_, ?_⟩ ?_ ?_ h
  · refine ⟨?_, ?_, List.nodup_nil, List.nodup_nil⟩
    · have hempty : w.bank = Bank.empty := by
        rw [World.bank, hinitial.money.wallets]
        exact bankOf_empty
      show Run Bank.empty [] w.bank
      rw [hempty]
      exact .nil
    · intro e he
      cases he
  · constructor
    · intro key hkey
      cases hkey
    · intro key hkey
      cases hkey
  · intro s s' req c _ ⟨entries, hbooked, hentered⟩ hf harrives
    have hbank : s'.world.bank = s.world.bank := by rw [harrives.world]
    exact ⟨entries, hbooked.keep hf hbank, hentered.keep hf⟩
  · intro s s' i c o r c' hr ⟨entries, hbooked, hentered⟩ hf hperformed _
    rcases bank_of_effect hperformed.inv hperformed.guarantees hperformed.effect with
      hbank | ⟨action, hbooks, hstep, hkey⟩
    · exact ⟨entries, hbooked.keep hf hbank, hentered.keep hf⟩
    · have hauthorised := authorised_of_books (documented_of_reaches hinitial hr) hperformed hbooks hstep
      exact ⟨_, hbooked.snoc hentered hf hstep hauthorised hkey, hentered.snoc hf hkey⟩

/-- As long as no amount and no balance leaves the range, the wallets are what a history of actions that were asked
    for leads to, and no key is used twice. -/
theorem backend_refines_bank (h : Numbers.Reachable P registry s) : ∃ entries, Booked P s entries := by
  obtain ⟨w, hinitial, hr⟩ := h.integers
  obtain ⟨entries, hbooked, -⟩ := booked_of_reaches hinitial hr
  exact ⟨entries, hbooked⟩

theorem backend_refines_bank_day : ∃ s entries, Numbers.Reachable plainPackages cardPayments s ∧
    s.world.money.db.wallets.rows.map (·.balance) = [30, 20] ∧ Booked plainPackages s entries := by
  have hrun : ((Numbers.server plainPackages cardPayments).runUnder WiredInRange day ⟨startWorld, []⟩).map (fun s =>
      decide (s.world.money.db.wallets.rows.map (·.balance) = [30, 20])) = some true := by decide +kernel
  obtain ⟨s, hs, hfacts⟩ := Option.map_eq_some_iff.mp hrun
  have h : Numbers.Reachable plainPackages cardPayments s := ⟨_, startWorld_initial, Server.reaches_of_runUnder hs⟩
  obtain ⟨entries, hbooked⟩ := backend_refines_bank h
  exact ⟨s, entries, h, of_decide_eq_true hfacts, hbooked⟩

end LiorParisWallet.Backend
