import LiorParisWallet.Accounts.Pagination
import LiorParisWallet.Accounts.Services
import LiorParisWallet.Server.Requests

/-!
# The world of the whole server

The accounts and the money are kept in one database, with one table of users.  An operation of the accounts
that deletes a user deletes the user's wallets as well, and a wallet can only be stored for a user that there
is.  As in the components, the money is computed with integers (`Backend.Numbers` has JavaScript's numbers), and the
strings that only the database compares stand for what they are under its collation.
-/

namespace LiorParisWallet.Backend

open Async Relational Accounts

/-- What is thrown to the client: what the accounts throw, or the `UnsupportedMediaTypeException`. -/
inductive Exception where
  | accounts (e : Accounts.Exception)
  | unsupportedMediaType (message : String)
deriving DecidableEq, Repr

/-- An exception of the wallet and transfer services. -/
def Exception.money (e : Err) : Exception := .accounts (.other e)

structure World where
  accounts : Accounts.World
  money : LiorParisWallet.World
  users : money.db.users = accounts.users

structure Choice where
  accounts : Accounts.Choice := {}
  money : LiorParisWallet.Choice := {}

/-- A row of `users` with its wallets. -/
structure UserWithWallets where
  user : Users
  wallets : List Wallet
deriving DecidableEq, Repr

/-- Everything the server awaits: what the accounts await, what the money awaits, and two queries. -/
inductive Op where
  | accounts (o : Accounts.Op)
  | money (o : LiorParisWallet.Op)
  | findUserByIdWithWallets (userId : String)
  | findAll (query : PaginationQueryDto)

abbrev Ans : Op → Type
  | .accounts o => Except Accounts.Exception (Accounts.Ans o)
  | .money o => Except Err (LiorParisWallet.Ans o)
  | .findUserByIdWithWallets _ => Option UserWithWallets
  | .findAll _ => PaginatedResultDto UserResource

/-- The wallets go with the rows of their users (`onDelete: 'CASCADE'`). -/
def cascade (before after : Table Users) (wallets : Table Wallet) : Table Wallet :=
  wallets.delete fun a =>
    (before.find? (·.id == a.userId)).isSome && (after.find? (·.id == a.userId)).isNone

namespace World

def putAccounts (w : World) (accounts : Accounts.World) : World where
  accounts := accounts
  money :=
    { w.money with
      db :=
        { w.money.db with
          users := accounts.users
          wallets := cascade w.accounts.users accounts.users w.money.db.wallets } }
  users := rfl

def putMoney (w : World) (money : LiorParisWallet.World) : World where
  accounts := { w.accounts with users := money.db.users }
  money := money
  users := rfl

/-- The user with this id, spelled as in the rows, and the user's wallets. -/
def findUserByIdWithWallets (w : World) (userId : String) : Option UserWithWallets :=
  (w.accounts.findUserById userId).map fun user =>
    ⟨user, w.money.db.wallets.rows.filter (·.userId == user.id)⟩

/-- A query that fails answers nothing. -/
def query {α : Type} (w : World) (ω : Choice) (a : α) : Option (Except Exception α × World) :=
  match ω.accounts.fault with
  | some e => some (.error (.money e), w)
  | none => some (.ok a, w)

theorem query_eq_some {α : Type} {ω : Choice} {a : α} {r : Except Exception α} {w w' : World}
    (h : w.query ω a = some (r, w')) : w' = w ∧ ∀ b, r = .ok b → b = a := by
  unfold World.query at h
  split at h
  · cases h
    exact ⟨rfl, nofun⟩
  · cases h
    exact ⟨rfl, fun b hb => by cases hb; rfl⟩

end World

def perform (P : Packages) (i : ℕ) :
    (o : Op) → Choice → World → Option (Except Exception (Ans o) × World)
  | .accounts o, ω, w =>
      (Accounts.perform P o ω.accounts w.accounts).map fun x => (.ok x.1, w.putAccounts x.2)
  | .money o, ω, w =>
      (LiorParisWallet.perform i o ω.money w.money).map fun x => (.ok x.1, w.putMoney x.2)
  | .findUserByIdWithWallets userId, ω, w => w.query ω (w.findUserByIdWithWallets (P.collate userId))
  | .findAll query, ω, w => w.query ω (w.accounts.findAll query)

/-- An asynchronous function of the server. -/
abbrev Promise (α : Type) : Type := Program Op Ans Exception α

def await (o : Op) : Promise (Ans o) := .call o

/-- A world in which nothing was ever asked: it may have users, and their ids have been generated. -/
structure World.Initial (P : Packages) (w : World) : Prop where
  accounts : w.accounts.Initial P
  money : w.money.Initial

end LiorParisWallet.Backend
