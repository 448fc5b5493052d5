import LiorParisWallet.Backend.Refinement

/-!
# What the balances are worth

The balances of a currency add up to what the provider has reported as paid, with no payment counted twice,
less what the wallets of deleted users held.
-/

namespace LiorParisWallet.Backend

open Async Relational Banking Accounts

variable {P : Packages} {registry : PaymentGatewayRegistry} {s : State}
variable {entries : List (Entry String String String String)}

/-- What the payment brings in the currency. -/
def paidIn (currency : String) (p : Payment) : ℤ :=
  if p.currency = currency then p.amount else 0

/-- The payments, all of them reported as paid and none of them twice, are what the entries have credited. -/
structure Covers (s : State) (paid : List Payment) (entries : List (Entry String String String String)) :
    Prop where
  distinct : (paid.map (·.transactionId)).Nodup
  reported : ∀ p ∈ paid, p ∈ s.world.money.payments ∧ PaidReported s p
  keys : ∀ p ∈ paid, ∃ key ∈ entries.filterMap (·.action.creditKey?), PaidFor s p key
  sum : ∀ c, (entries.map (Entry.credit c)).sum = (paid.map (paidIn c)).sum

/-- A transaction has one key. -/
theorem PaidFor.key_eq {p p' : Payment} {key key' : String} (h : PaidFor s p key) (h' : PaidFor s p' key')
    (heq : p.transactionId = p'.transactionId) : key = key' := by
  obtain ⟨t, ht, hid, rfl⟩ := h
  obtain ⟨t', ht', hid', rfl⟩ := h'
  rw [Transaction.eq_of_id ht ht' (hid.trans (heq.trans hid'.symm))]

/-- An action that was asked for either credits nothing, or it credits what was paid for its key. -/
theorem credit_of_authorised {e : Entry String String String String} (h : Authorised P s e) :
    (e.action.creditKey? = none ∧ ∀ c, Entry.credit c e = 0) ∨
      ∃ key p, e.action.creditKey? = some key ∧ p ∈ s.world.money.payments ∧ PaidFor s p key ∧
        PaidReported s p ∧ ∀ c, Entry.credit c e = paidIn c p := by
  cases h with
  | @credited b id x c body input p hx hsends hinput hcurrency hp hfor huser hamount hcurrency' hpaid =>
    refine .inr ⟨input.idempotencyKey, p, rfl, hp, hfor, hpaid, fun c => ?_⟩
    simp only [Entry.credit, paidIn, hx, Option.map_some, Option.some.injEq, hamount, hcurrency, hcurrency']
  | _ => exact .inl ⟨rfl, fun c => rfl⟩

/-- The key of the credit that the entry is. -/
theorem creditKeys_cons {e : Entry String String String String} {key : String}
    (h : e.action.creditKey? = some key) (entries : List (Entry String String String String)) :
    (e :: entries).filterMap (·.action.creditKey?) = key :: entries.filterMap (·.action.creditKey?) :=
  List.filterMap_cons_some h

theorem covers_of_authorised (hauthorised : ∀ e ∈ entries, Authorised P s e)
    (hcredits : (entries.filterMap (·.action.creditKey?)).Nodup) : ∃ paid, Covers s paid entries := by
  induction entries with
  | nil =>
    refine ⟨[], List.nodup_nil, ?_, ?_, fun c => rfl⟩
    · intro p hp
      cases hp
    · intro p hp
      cases hp
  | cons e entries ih =>
    have htail : (entries.filterMap (·.action.creditKey?)).Nodup := by
      rw [List.filterMap_cons] at hcredits
      split at hcredits
      · exact hcredits
      · exact hcredits.of_cons
    obtain ⟨paid, h⟩ := ih (fun e he => hauthorised e (List.mem_cons_of_mem _ he)) htail
    rcases credit_of_authorised (hauthorised e List.mem_cons_self) with
      ⟨hnone, hzero⟩ | ⟨key, p, hkey, hp, hfor, hpaid, hworth⟩
    · refine ⟨paid, h.distinct, h.reported, ?_, fun c => ?_⟩
      · have hkeys : (e :: entries).filterMap (·.action.creditKey?) =
            entries.filterMap (·.action.creditKey?) := List.filterMap_cons_none hnone
        rw [hkeys]
        exact h.keys
      · rw [List.map_cons, List.sum_cons, hzero c, h.sum c, zero_add]
    · rw [creditKeys_cons hkey] at hcredits
      refine ⟨p :: paid, ?_, ?_, ?_, fun c => ?_⟩
      · refine List.nodup_cons.mpr ⟨fun hmem => ?_, h.distinct⟩
        -- a payment for the same transaction has covered the same key before
        obtain ⟨p', hp', heq⟩ := List.mem_map.mp hmem
        obtain ⟨key', hkey', hfor'⟩ := h.keys p' hp'
        rw [hfor'.key_eq hfor heq] at hkey'
        exact (List.nodup_cons.mp hcredits).1 hkey'
      · intro p' hp'
        rcases List.mem_cons.mp hp' with rfl | hp'
        · exact ⟨hp, hpaid⟩
        · exact h.reported p' hp'
      · rw [creditKeys_cons hkey]
        intro p' hp'
        rcases List.mem_cons.mp hp' with rfl | hp'
        · exact ⟨key, List.mem_cons_self, hfor⟩
        · obtain ⟨key', hkey', hfor'⟩ := h.keys p' hp'
          exact ⟨key', List.mem_cons_of_mem _ hkey', hfor'⟩
      · rw [List.map_cons, List.sum_cons, hworth c, h.sum c, List.map_cons, List.sum_cons]

/-- As long as no amount and no balance leaves the range, distinct payments, all of them reported as paid, cover the
    balances of every currency, and to the cent they are the balances with what was closed. -/
theorem balances_covered (h : Numbers.Reachable P registry s) : ∃ entries paid, Booked P s entries ∧
    Covers s paid entries ∧ ∀ c,
      s.world.money.db.total c + (entries.map (Entry.closing c)).sum = (paid.map (paidIn c)).sum ∧
        s.world.money.db.total c ≤ (paid.map (paidIn c)).sum := by
  obtain ⟨w, hinitial, hr⟩ := h.integers
  obtain ⟨entries, hbooked, -⟩ := booked_of_reaches hinitial hr
  obtain ⟨paid, hcovers⟩ := covers_of_authorised hbooked.authorised hbooked.credits
  refine ⟨entries, paid, hbooked, hcovers, fun c => ?_⟩
  have htotal := hbooked.run.total_add c
  have hclosing := hbooked.run.closing_nonneg sound_empty c
  rw [total_empty, hcovers.sum c, World.bank, total_bankOf, zero_add] at htotal
  omega

/-- Of the 50 that were paid in, Bob's 30 were closed with his account. -/
theorem balances_covered_departure : ∃ s entries paid, Numbers.Reachable plainPackages cardPayments s ∧
    Covers s paid entries ∧ s.world.money.db.total "EUR" = 20 ∧
      20 + (entries.map (Entry.closing "EUR")).sum = (paid.map (paidIn "EUR")).sum := by
  have hrun : ((Numbers.server plainPackages cardPayments).runUnder WiredInRange (day ++ departure)
      ⟨startWorld, []⟩).map (fun s => decide (s.world.money.db.total "EUR" = 20)) = some true := by decide +kernel
  obtain ⟨s, hs, hfacts⟩ := Option.map_eq_some_iff.mp hrun
  have htotal : s.world.money.db.total "EUR" = 20 := of_decide_eq_true hfacts
  have h : Numbers.Reachable plainPackages cardPayments s := ⟨_, startWorld_initial, Server.reaches_of_runUnder hs⟩
  obtain ⟨entries, paid, -, hcovers, hsum⟩ := balances_covered h
  refine ⟨s, entries, paid, h, hcovers, htotal, ?_⟩
  rw [← htotal]
  exact (hsum "EUR").1

end LiorParisWallet.Backend
