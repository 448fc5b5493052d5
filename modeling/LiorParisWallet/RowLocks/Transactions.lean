import LiorParisWallet.Locking.Order
import LiorParisWallet.RowLocks.Statements

/-!
# Concurrent settlements and transfers

Any number of settlements and transfers at once, on any wallets.  Their row locks make them serializable
(`transactions_serializable`), and the order in which they take them excludes deadlock
(`locks_never_deadlock`).
-/

namespace LiorParisWallet.RowLocks

open Async Locking Relational

inductive Request where
  | settleTransaction (walletId : String) (transaction : Transaction) (entryType : LedgerEntryType)
      (balanceChange : ℤ) (outboxItem : OutboxEvent)
  | executeTransfer (transfer : Transfer) (fromWalletId toWalletId : String) (outboxItem : OutboxEvent)

inductive Reply where
  | entry (e : LedgerEntry)
  | done

def script : Request → Body Reply
  | .settleTransaction walletId transaction entryType balanceChange outboxItem => do
      return .entry (← settleTransaction walletId transaction entryType balanceChange outboxItem)
  | .executeTransfer transfer fromWalletId toWalletId outboxItem => do
      executeTransfer transfer fromWalletId toWalletId outboxItem
      return .done

abbrev State : Type :=
  System (Action Statement) (Action.Ans Statement.Ans) Err Request Reply
    (Locking.World Store Statement Resource)

/-- A state of any run that starts with the database `db`. -/
abbrev Reachable (db : Store) (s : State) : Prop := Locking.Reachable rowLocks script db s

/-- What the request does to the store when it has the store to itself. -/
def Request.applyTo : Request → Store → Except Err Store
  | .settleTransaction walletId transaction entryType balanceChange outboxItem, db =>
      (db.settleTransaction walletId transaction entryType balanceChange outboxItem).map (·.2)
  | .executeTransfer transfer fromWalletId toWalletId outboxItem, db =>
      (db.executeTransfer transfer fromWalletId toWalletId outboxItem).map (·.2)

/-- The wallets that the request changes, and by how much. -/
def Request.changes : Request → List (String × ℤ)
  | .settleTransaction walletId _ _ balanceChange _ => [(walletId, balanceChange)]
  | .executeTransfer transfer fromWalletId toWalletId _ =>
      [(fromWalletId, -transfer.amount), (toWalletId, transfer.amount)]

theorem script_runOn (req : Request) (db : Store) :
    ((script req).runOn exec db).map (·.2) = req.applyTo db := by
  cases req with
  | settleTransaction walletId transaction entryType balanceChange outboxItem =>
    rw [script, Script.runOn_bind, settleTransaction_runOn, Request.applyTo]
    cases db.settleTransaction walletId transaction entryType balanceChange outboxItem <;> rfl
  | executeTransfer transfer fromWalletId toWalletId outboxItem =>
    rw [script, Script.runOn_bind, executeTransfer_runOn, Request.applyTo]
    cases db.executeTransfer transfer fromWalletId toWalletId outboxItem <;> rfl

theorem serially_eq (reqs : List Request) (db : Store) :
    serially rowLocks script reqs db = reqs.foldlM (fun db req => req.applyTo db) db := by
  induction reqs generalizing db with
  | nil => rfl
  | cons req reqs ih =>
    have hrun : (script req).runOn rowLocks.exec db = (script req).runOn exec db := rfl
    rw [serially, List.foldlM_cons, ← script_runOn, hrun]
    cases (script req).runOn exec db with
    | error e => rfl
    | ok x => exact ih x.2

/-! ## The statements of a request -/

/-- The order in which `executeTransfer` takes its locks. -/
def lockOrder (fromWalletId toWalletId : String) : String × String :=
  if fromWalletId < toWalletId then (fromWalletId, toWalletId) else (toWalletId, fromWalletId)

/-- Everything that the request may execute on the database, if no statement fails. -/
def Request.statements (db : Store) : Request → List Statement
  | .settleTransaction walletId transaction entryType balanceChange outboxItem =>
      .lockWallet walletId ::
        match db.findWallet walletId with
        | some wallet =>
            [.updateWallet walletId (wallet.balance + balanceChange),
              .saveLedgerEntry (settlementEntry wallet transaction entryType balanceChange),
              .completeTransaction transaction.id, .saveOutboxEvent outboxItem]
        | none => []
  | .executeTransfer transfer fromWalletId toWalletId outboxItem =>
      .lockWallet (lockOrder fromWalletId toWalletId).1 ::
        .lockWallet (lockOrder fromWalletId toWalletId).2 ::
        match db.findWallet fromWalletId, db.findWallet toWalletId with
        | some sender, some receiver =>
            [.updateWallet fromWalletId (sender.balance - transfer.amount),
              .updateWallet toWalletId (receiver.balance + transfer.amount),
              .saveLedgerEntry (debitEntry sender transfer),
              .saveLedgerEntry (creditEntry receiver transfer),
              .completeTransfer transfer.id, .saveOutboxEvent outboxItem]
        | _, _ => []

theorem along_query {α : Type} {Φ : List Statement → Statement → Store → Prop} {l : List Statement}
    {db : Store} {o : Statement} {f : Statement.Ans o → Body α} :
    rowLocks.Along Φ l db (query o >>= f) ↔ Φ l o db ∧
      ∀ a e, exec o db = .ok (a, e) → rowLocks.Along Φ (l ++ [o]) e (f a) :=
  Iff.rfl

/-- Whichever of the two wallets is locked first, they are told apart by their ids. -/
theorem wallets_of_lockOrder {db : Store} {fromWalletId toWalletId : String} {firstWallet : Wallet}
    (h : db.findWallet (lockOrder fromWalletId toWalletId).1 = some firstWallet) :
    (if firstWallet.id = fromWalletId then some firstWallet
        else db.findWallet (lockOrder fromWalletId toWalletId).2) = db.findWallet fromWalletId ∧
      (if firstWallet.id = toWalletId then some firstWallet
        else db.findWallet (lockOrder fromWalletId toWalletId).2) = db.findWallet toWalletId := by
  have hid := (findWallet_eq_some.mp h).2
  unfold lockOrder at h hid ⊢
  split at h
  · rename_i hlt
    rw [if_pos hlt] at hid ⊢
    have hne : firstWallet.id ≠ toWalletId := fun heq =>
      String.lt_irrefl _ ((hid.symm.trans heq) ▸ hlt)
    rw [if_pos hid, if_neg hne]
    exact ⟨h.symm, rfl⟩
  · rename_i hlt
    rw [if_neg hlt] at hid ⊢
    rw [if_pos hid]
    refine ⟨?_, h.symm⟩
    split
    · rename_i heq
      rw [← heq, hid]
      exact h.symm
    · rfl

theorem along_statements (req : Request) (db : Store) :
    rowLocks.Along (fun l o _ => l ++ [o] <+: req.statements db) [] db (script req) := by
  cases req with
  | settleTransaction walletId transaction entryType balanceChange outboxItem =>
    refine Statements.Along.map ?_ _
    unfold settleTransaction Request.statements
    refine along_query.mpr ⟨⟨_, rfl⟩, ?_⟩
    rintro _ _ ⟨⟩
    cases hw : db.findWallet walletId with
    | none => trivial
    | some wallet =>
      obtain ⟨-, rfl⟩ := findWallet_eq_some.mp hw
      dsimp only
      rw [hw]
      by_cases hneg : wallet.balance + balanceChange < 0
      · rw [if_pos hneg]
        trivial
      · rw [if_neg hneg]
        refine along_query.mpr ⟨⟨_, rfl⟩, fun _ _ _ => ?_⟩
        refine along_query.mpr ⟨⟨_, rfl⟩, fun _ _ _ => ?_⟩
        refine along_query.mpr ⟨⟨_, rfl⟩, fun _ _ _ => ?_⟩
        exact along_query.mpr ⟨⟨_, rfl⟩, fun _ _ _ => trivial⟩
  | executeTransfer transfer fromWalletId toWalletId outboxItem =>
    refine Statements.Along.map ?_ _
    unfold executeTransfer Request.statements
    show rowLocks.Along _ [] db (query (.lockWallet (lockOrder fromWalletId toWalletId).1) >>= fun _ =>
      query (.lockWallet (lockOrder fromWalletId toWalletId).2) >>= _)
    refine along_query.mpr ⟨⟨_, rfl⟩, ?_⟩
    rintro _ _ ⟨⟩
    refine along_query.mpr ⟨⟨_, rfl⟩, ?_⟩
    rintro _ _ ⟨⟩
    cases hfirst : db.findWallet (lockOrder fromWalletId toWalletId).1 with
    | none => trivial
    | some firstWallet =>
      obtain ⟨hfrom, hto⟩ := wallets_of_lockOrder hfirst
      dsimp only
      rw [hfrom, hto]
      cases hsender : db.findWallet fromWalletId with
      | none => trivial
      | some sender =>
        obtain ⟨-, rfl⟩ := findWallet_eq_some.mp hsender
        dsimp only
        by_cases hneg : sender.balance - transfer.amount < 0
        · rw [if_pos hneg]
          trivial
        · rw [if_neg hneg]
          cases hreceiver : db.findWallet toWalletId with
          | none => trivial
          | some receiver =>
            obtain ⟨-, rfl⟩ := findWallet_eq_some.mp hreceiver
            dsimp only
            refine along_query.mpr ⟨⟨_, rfl⟩, fun _ _ _ => ?_⟩
            refine along_query.mpr ⟨⟨_, rfl⟩, fun _ _ _ => ?_⟩
            refine along_query.mpr ⟨⟨_, rfl⟩, fun _ _ _ => ?_⟩
            refine along_query.mpr ⟨⟨_, rfl⟩, fun _ _ _ => ?_⟩
            refine along_query.mpr ⟨⟨_, rfl⟩, fun _ _ _ => ?_⟩
            exact along_query.mpr ⟨⟨_, rfl⟩, fun _ _ _ => trivial⟩

/-! ## Serializability -/

theorem changes_of_statements {req : Request} {db : Store} {id : String} {balance : ℤ}
    (h : .updateWallet id balance ∈ req.statements db) : ∃ wallet change,
      db.findWallet id = some wallet ∧ (id, change) ∈ req.changes ∧
        balance = wallet.balance + change := by
  cases req with
  | settleTransaction walletId transaction entryType balanceChange outboxItem =>
    unfold Request.statements at h
    cases hw : db.findWallet walletId with
    | none => simp [hw] at h
    | some wallet =>
      simp only [hw, List.mem_cons, reduceCtorEq, Statement.updateWallet.injEq, false_or,
        List.not_mem_nil, or_false] at h
      obtain ⟨rfl, rfl⟩ := h
      exact ⟨wallet, balanceChange, hw, List.mem_singleton.mpr rfl, rfl⟩
  | executeTransfer transfer fromWalletId toWalletId outboxItem =>
    unfold Request.statements at h
    cases hsender : db.findWallet fromWalletId with
    | none => simp [hsender] at h
    | some sender =>
      cases hreceiver : db.findWallet toWalletId with
      | none => simp [hsender, hreceiver] at h
      | some receiver =>
        simp only [hsender, hreceiver, List.mem_cons, reduceCtorEq, Statement.updateWallet.injEq,
          false_or, List.not_mem_nil, or_false] at h
        rcases h with ⟨rfl, rfl⟩ | ⟨rfl, rfl⟩
        · exact ⟨sender, _, hsender, List.mem_cons_self, sub_eq_add_neg _ _⟩
        · exact ⟨receiver, _, hreceiver, List.mem_cons_of_mem _ (List.mem_singleton_self _), rfl⟩

/-- **Serializability.**  However the statements of settlements and transfers are interleaved, the store
    is the one that the committed ones leave when they run one after the other in the order of their
    commits; these are the ones that have returned.  A balance that a transaction is about to write is
    what the wallet holds in the latest committed state, and the change that was asked for. -/
theorem transactions_serializable {db : Store} {s : State} (h : Reachable db s) :
    (committedRequests s).foldlM (fun db req => req.applyTo db) db = .ok s.world.committed ∧
      s.world.commits.Nodup ∧
      (∀ i, i ∈ s.world.commits ↔ ∃ r, s.outcome i = some (.ok r)) ∧
      ∀ i id balance, s.awaits i = some (.run (.updateWallet id balance)) →
        ∃ c wallet change, s.calls[i]? = some c ∧ s.world.committed.findWallet id = some wallet ∧
          (id, change) ∈ c.request.changes ∧ balance = wallet.balance + change := by
  refine ⟨?_, h.isolated.once, h.committed_iff, fun i id balance ho => ?_⟩
  · rw [← serially_eq]
    exact h.isolated.serial
  · obtain ⟨c, next, e, hc, hr⟩ := h.ran ho
    have hprefix := (hr.along (along_statements c.request s.world.committed)).1
    have hmem := hprefix.subset (List.mem_append_right _ (List.mem_singleton_self _))
    obtain ⟨wallet, change, hfind, hchange, hbalance⟩ := changes_of_statements hmem
    exact ⟨c, wallet, change, hc, hfind, hchange, hbalance⟩

/-! ### Opposite transfers and a settlement -/

def threeWallets : Store where
  users := Table.empty
  wallets :=
    ⟨[⟨"w1", "u1", 100, "EUR", "ada-0001"⟩, ⟨"w2", "u2", 50, "EUR", "bob-0002"⟩,
      ⟨"w3", "u3", 0, "EUR", "eve-0003"⟩], by decide⟩
  transactions := Table.empty
  transfers := Table.empty
  ledger := Table.empty
  outbox := Table.empty

def send (id : String) (amount : ℤ) : Transfer :=
  ⟨id, "u1", "u2", amount, "EUR", .pending, id, none⟩

def event (id : String) : OutboxEvent := ⟨id, .transferCompleted, id, [], 0, none, 0, 0⟩

/-- Call 0 sends 30 from `w1` to `w2` and call 1 sends 20 back; call 2 pays 5 into `w3`. -/
def requests : List (Label Request (Option Err)) :=
  [.start (.executeTransfer (send "x0" 30) "w1" "w2" (event "e0")),
    .start (.executeTransfer (send "x1" 20) "w2" "w1" (event "e1")),
    .start (.settleTransaction "w3" ⟨"t2", "u3", .deposit, 5, "EUR", "stripe", .pending, "t2", none, none⟩
      .deposit 5 (event "e2"))]

def turns (calls : List ℕ) : List (Label Request (Option Err)) := calls.map (.step · none)

/-- The settlement starts after the first transfer and is committed before it; the second transfer has to
    wait for the first. -/
def interleaved : List (Label Request (Option Err)) :=
  requests ++ turns [0, 2, 0, 2, 0, 2, 2, 0, 2, 2, 0, 0, 0, 0, 0, 1, 1, 1, 1, 1, 1, 1, 1, 1]

theorem transactions_serializable_interleaved : ∃ s : State, s.world.commits = [2, 0, 1] ∧
    (committedRequests s).foldlM (fun db req => req.applyTo db) threeWallets =
      .ok s.world.committed := by
  have hrun : ((server rowLocks script).run interleaved ⟨World.idle threeWallets, []⟩).map
      (fun s => s.world.commits) = some [2, 0, 1] := by
    decide +kernel
  obtain ⟨s, hs, hcommits⟩ := Option.map_eq_some_iff.mp hrun
  exact ⟨s, hcommits, (transactions_serializable (Server.reaches_of_run hs)).1⟩

/-! ## Lock ordering -/

def Resource.name : Resource → String
  | .wallet id => id
  | .ledgerEntry idempotencyKey => idempotencyKey
  | .transaction id => id
  | .transfer id => id
  | .outboxEvent id => id

/-- The order in which the transactions come to the tables.  The credit entry of a transfer comes after
    its debit entry. -/
def Resource.stage : Resource → ℕ
  | .wallet _ => 0
  | .ledgerEntry idempotencyKey => if ":in".toList <:+ idempotencyKey.toList then 2 else 1
  | .transaction _ => 3
  | .transfer _ => 4
  | .outboxEvent _ => 5

def Resource.Before (a b : Resource) : Prop :=
  a.stage < b.stage ∨ (a.stage = b.stage ∧ a.name < b.name)

instance : IsTrans Resource Resource.Before where
  trans a b c hab hbc := by
    rcases hab with hab | ⟨hab, hname⟩ <;> rcases hbc with hbc | ⟨hbc, hname'⟩
    · exact .inl (hab.trans hbc)
    · exact .inl (hbc ▸ hab)
    · exact .inl (hab ▸ hbc)
    · exact .inr ⟨hab.trans hbc, String.lt_trans hname hname'⟩

instance : Std.Irrefl Resource.Before where
  irrefl a h := by
    rcases h with h | ⟨-, h⟩
    · exact Nat.lt_irrefl _ h
    · exact String.lt_irrefl _ h

theorem stage_out (key : String) : (Resource.ledgerEntry (key ++ ":out")).stage = 1 := by
  refine if_neg ?_
  rintro ⟨l, hl⟩
  have hlast := congrArg List.getLast? hl
  simp at hlast

theorem stage_in (key : String) : (Resource.ledgerEntry (key ++ ":in")).stage = 2 :=
  if_pos ⟨key.toList, by simp⟩

theorem stage_ledgerEntry (key : String) :
    0 < (Resource.ledgerEntry key).stage ∧ (Resource.ledgerEntry key).stage ≤ 2 := by
  by_cases h : ":in".toList <:+ key.toList
  · rw [Resource.stage, if_pos h]
    omega
  · rw [Resource.stage, if_neg h]
    omega

/-- Each statement needs a lock that an earlier one has needed, or one that comes after all of these;
    and no stage after `n` has been reached. -/
structure Ordered (n : ℕ) (l : List Statement) : Prop where
  locks : ∀ l' o, l' ++ [o] <+: l →
    (∃ o' ∈ l', o'.resource = o.resource) ∨ ∀ o' ∈ l', o'.resource.Before o.resource
  stage : ∀ o ∈ l, o.resource.stage ≤ n

namespace Ordered

variable {n m : ℕ} {l : List Statement} {o : Statement}

theorem nil : Ordered n [] where
  locks l' o h := by
    have hnil := List.prefix_nil.mp h
    cases l' <;> cases hnil
  stage o ho := absurd ho List.not_mem_nil

theorem concat (h : Ordered n l) (hm : o.resource.stage ≤ m) (hnm : n ≤ m)
    (ho : (∃ o' ∈ l, o'.resource = o.resource) ∨ ∀ o' ∈ l, o'.resource.Before o.resource) :
    Ordered m (l ++ [o]) where
  locks l' o' hprefix := by
    rcases List.prefix_concat_iff.mp hprefix with heq | hprefix
    · obtain ⟨rfl, hlast⟩ := List.append_inj' heq rfl
      rwa [List.singleton_inj.mp hlast]
    · exact h.locks l' o' hprefix
  stage o' ho' := by
    rcases List.mem_append.mp ho' with ho' | ho'
    · exact (h.stage o' ho').trans hnm
    · rwa [List.mem_singleton.mp ho']

theorem later (h : Ordered n l) (hn : n < o.resource.stage) (hm : o.resource.stage ≤ m) :
    Ordered m (l ++ [o]) :=
  h.concat hm (hn.le.trans hm) (.inr fun o' ho' => .inl ((h.stage o' ho').trans_lt hn))

theorem again (h : Ordered n l) (ho : ∃ o' ∈ l, o'.resource = o.resource) : Ordered n (l ++ [o]) := by
  obtain ⟨o', ho', heq⟩ := id ho
  exact h.concat (heq ▸ h.stage o' ho') le_rfl (.inl ho)

theorem last (h : Ordered n l) (event : OutboxEvent) (hn : n < 5) :
    Ordered 5 (l ++ [.saveOutboxEvent event]) :=
  h.later (o := .saveOutboxEvent event) hn le_rfl

theorem mono (h : Ordered n l) (hnm : n ≤ m) : Ordered m l :=
  ⟨h.locks, fun o ho => (h.stage o ho).trans hnm⟩

end Ordered

theorem ordered_lock (walletId : String) : Ordered 0 [.lockWallet walletId] :=
  Ordered.nil.concat (n := 0) le_rfl le_rfl (.inr fun _ h => absurd h List.not_mem_nil)

theorem ordered_locks (fromWalletId toWalletId : String) :
    Ordered 0 [.lockWallet (lockOrder fromWalletId toWalletId).1,
      .lockWallet (lockOrder fromWalletId toWalletId).2] := by
  refine (ordered_lock _).concat (o := .lockWallet _) le_rfl le_rfl ?_
  unfold lockOrder
  split
  · rename_i hlt
    exact .inr fun o' ho' => List.mem_singleton.mp ho' ▸ .inr ⟨rfl, hlt⟩
  · rename_i hlt
    by_cases heq : toWalletId = fromWalletId
    · exact .inl ⟨_, List.mem_singleton.mpr rfl, congrArg Resource.wallet heq⟩
    · have hlt' : toWalletId < fromWalletId := Std.lt_of_le_of_ne (String.not_lt.mp hlt) heq
      exact .inr fun o' ho' => List.mem_singleton.mp ho' ▸ .inr ⟨rfl, hlt'⟩

theorem lock_mem_lockOrder (fromWalletId toWalletId : String) {l : List Statement} (id : String)
    (hid : id = fromWalletId ∨ id = toWalletId) :
    ∃ o ∈ .lockWallet (lockOrder fromWalletId toWalletId).1 ::
      .lockWallet (lockOrder fromWalletId toWalletId).2 :: l, o.resource = .wallet id := by
  have hmem : id = (lockOrder fromWalletId toWalletId).1 ∨
      id = (lockOrder fromWalletId toWalletId).2 := by
    unfold lockOrder
    split
    · exact hid
    · exact hid.symm
  rcases hmem with rfl | rfl
  · exact ⟨_, List.mem_cons_self, rfl⟩
  · exact ⟨_, List.mem_cons_of_mem _ List.mem_cons_self, rfl⟩

theorem ordered_statements (req : Request) (db : Store) : Ordered 5 (req.statements db) := by
  cases req with
  | settleTransaction walletId transaction entryType balanceChange outboxItem =>
    cases hw : db.findWallet walletId with
    | none =>
      simp only [Request.statements, hw]
      exact (ordered_lock walletId).mono (Nat.zero_le 5)
    | some wallet =>
      simp only [Request.statements, hw]
      obtain ⟨hpos, hle⟩ := stage_ledgerEntry transaction.idempotencyKey
      have hupdate := (ordered_lock walletId).again
        (o := .updateWallet walletId (wallet.balance + balanceChange))
        ⟨_, List.mem_singleton_self _, rfl⟩
      have hentry := hupdate.later
        (o := .saveLedgerEntry (settlementEntry wallet transaction entryType balanceChange)) hpos hle
      have hcomplete : Ordered 3 _ :=
        hentry.later (o := .completeTransaction transaction.id) (Nat.lt_succ_self 2) le_rfl
      exact hcomplete.last outboxItem (by decide)
  | executeTransfer transfer fromWalletId toWalletId outboxItem =>
    have hlocks := ordered_locks fromWalletId toWalletId
    cases hsender : db.findWallet fromWalletId with
    | none =>
      simp only [Request.statements, hsender]
      exact hlocks.mono (Nat.zero_le 5)
    | some sender =>
      cases hreceiver : db.findWallet toWalletId with
      | none =>
        simp only [Request.statements, hsender, hreceiver]
        exact hlocks.mono (Nat.zero_le 5)
      | some receiver =>
        simp only [Request.statements, hsender, hreceiver]
        have hsend := hlocks.again (o := .updateWallet fromWalletId (sender.balance - transfer.amount))
          (lock_mem_lockOrder fromWalletId toWalletId fromWalletId (.inl rfl))
        have hreceive := hsend.again
          (o := .updateWallet toWalletId (receiver.balance + transfer.amount))
          (lock_mem_lockOrder fromWalletId toWalletId toWalletId (.inr rfl))
        have hout := stage_out transfer.idempotencyKey
        have hin := stage_in transfer.idempotencyKey
        have hdebit := hreceive.later (o := .saveLedgerEntry (debitEntry sender transfer)) (m := 1)
          (hout.symm ▸ Nat.zero_lt_one) hout.le
        have hcredit := hdebit.later (o := .saveLedgerEntry (creditEntry receiver transfer)) (m := 2)
          (hin.symm ▸ Nat.one_lt_two) hin.le
        have hcomplete : Ordered 4 _ :=
          hcredit.later (o := .completeTransfer transfer.id) (show 2 < 4 by decide) le_rfl
        exact hcomplete.last outboxItem (by decide)

theorem ascending_script (req : Request) : Ascending rowLocks Resource.Before (script req) := by
  intro db
  exact (along_statements req db).mono fun l o _ hprefix => (ordered_statements req db).locks l o hprefix

/-- **No deadlock.**  However the statements of settlements and transfers are interleaved, no calls wait
    for each other's rows in a circle; and as long as a call is unfinished, some unfinished call can take
    its next step. -/
theorem locks_never_deadlock {db : Store} {s : State} (h : Reachable db s) :
    (∀ i, ¬Relation.TransGen (Waits rowLocks s) i i) ∧
      ((∃ i < s.calls.length, s.outcome i = none) → ∃ j < s.calls.length, s.outcome j = none ∧
        ((server rowLocks script).step s j none).isSome) := by
  refine ⟨h.no_circular_wait ascending_script, ?_⟩
  rintro ⟨i, hi, hopen⟩
  exact h.progress ascending_script hi hopen

/-- Here the second transfer waits for the first one. -/
theorem locks_never_deadlock_waiting : ∃ s : State, s.world.locks = [(0, .wallet "w1")] ∧
    (server rowLocks script).step s 1 none = none ∧ ∃ j < s.calls.length, s.outcome j = none ∧
      ((server rowLocks script).step s j none).isSome := by
  have hrun : ((server rowLocks script).run (requests ++ turns [0]) ⟨World.idle threeWallets, []⟩).map
      (fun s => (s.world.locks, ((server rowLocks script).step s 1 none).isNone, s.calls.length,
        (s.outcome 1).isNone)) = some ([(0, .wallet "w1")], true, 3, true) := by
    decide +kernel
  obtain ⟨s, hs, heq⟩ := Option.map_eq_some_iff.mp hrun
  obtain ⟨hlocks, hwaits, hlength, hopen⟩ : s.world.locks = [(0, .wallet "w1")] ∧
      ((server rowLocks script).step s 1 none).isNone = true ∧ s.calls.length = 3 ∧
      (s.outcome 1).isNone = true := by
    simpa only [Prod.mk.injEq] using heq
  exact ⟨s, hlocks, Option.isNone_iff_eq_none.mp hwaits,
    (locks_never_deadlock (Server.reaches_of_run hs)).2
      ⟨1, hlength ▸ by decide, Option.isNone_iff_eq_none.mp hopen⟩⟩

end LiorParisWallet.RowLocks
