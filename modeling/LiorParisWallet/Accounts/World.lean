import LiorParisWallet.Accounts.Requests
import LiorParisWallet.Async.System
import LiorParisWallet.Server.World
import LiorParisWallet.Services.Dto

/-!
# The world of the accounts

The table of users, and what the services of the accounts await: the methods of `UsersRepository` and
argon2.  `Effect` lists everything that an operation can do.
-/

namespace LiorParisWallet.Accounts

open Async Relational

/-- `Partial<Users>`: a column that is not named is `undefined`. -/
structure PartialUsers where
  id : Option String := none
  name : Option String := none
  email : Option String := none
  password : Option String := none
  role : Option UserRole := none
deriving DecidableEq, Repr

/-- `Object.assign(user, updateData)` -/
def assign (user : Users) (updateData : PartialUsers) : Users where
  id := updateData.id.getD user.id
  name := updateData.name.getD user.name
  email := updateData.email.getD user.email
  password := updateData.password.getD user.password
  role := updateData.role.getD user.role

structure World where
  users : Table Users
  /-- The rows that have been deleted. -/
  deleted : List Users
  /-- The ids generated so far. -/
  issued : List String
  /-- What was emitted under `UserRegistered`. -/
  emitted : List UserRegisteredPayload

/-- What the program does not determine: the id that is generated, the salt of a hash, and whether the
    operation gets through. -/
structure Choice where
  uuid : String := ""
  salt : String := ""
  fault : Option Err := none

inductive Op where
  | findUserByEmail (email : String)
  | findUserById (userId : String)
  | createUser (data : UserData)
  | applyUpdatesAndSave (user : Users) (updateData : PartialUsers)
  | deleteUser (id : String)
  /-- `argon.hash` -/
  | hash (password : String)
  /-- `argon.verify` -/
  | verify (digest password : String)
  /-- `eventEmitter.emit(DomainEventName.UserRegistered, payload)` -/
  | emit (payload : UserRegisteredPayload)

abbrev Ans : Op → Type
  | .findUserByEmail _ => Option Users
  | .findUserById _ => Option Users
  | .createUser _ => Users
  | .applyUpdatesAndSave _ _ => Users
  | .deleteUser _ => Unit
  | .hash _ => String
  | .verify _ _ => Bool
  | .emit _ => Unit

namespace World

def findUserByEmail (w : World) (email : String) : Option Users :=
  w.users.find? fun u => u.email == email

/-- The user with this id, spelled as in the rows. -/
def findUserById (w : World) (userId : String) : Option Users :=
  w.users.find? fun u => u.id == userId

/-- `save` of a new entity. -/
def createUser (w : World) (u : Users) : Except Exception (Users × World) :=
  match w.users.insert? u with
  | some users => .ok (u, { w with users := users, issued := u.id :: w.issued })
  | none => .error (.other .duplicateEntry)

/-- `save` of an entity with an id: the stored row gets every column in which the entity differs from
    it, so it becomes the entity; if there is no row, the entity is inserted. -/
def save (w : World) (u : Users) : Except Exception (Users × World) :=
  match (w.users.delete (·.id == u.id)).insert? u with
  | some users => .ok (u, { w with users := users })
  | none => .error (.other .duplicateEntry)

/-- Without the user with this id, spelled as in the rows. -/
def deleteUser (w : World) (id : String) : World :=
  { w with
    users := w.users.delete (·.id == id)
    deleted := w.users.rows.filter (·.id == id) ++ w.deleted }

/-- An operation that has failed changes nothing. -/
def settle {α : Type} (w : World) (ω : Choice) (result : Except Exception (α × World)) :
    Except Exception α × World :=
  match ω.fault, result with
  | some e, _ => (.error (.other e), w)
  | none, .error e => (.error e, w)
  | none, .ok (a, w') => (.ok a, w')

/-- An operation that gets through does what it says. -/
theorem settle_of_fault {α : Type} {w : World} {ω : Choice} {result : Except Exception (α × World)}
    (h : ω.fault = none) : w.settle ω result = match result with
      | .error e => (.error e, w)
      | .ok (a, w') => (.ok a, w') := by
  unfold settle
  rw [h]
  cases result <;> rfl

end World

/-- A `where` compares ids under the collation of the column, so the id that is asked for may be spelled
    otherwise than the one that is stored. -/
def perform (P : Packages) : (o : Op) → Choice → World → Option (Except Exception (Ans o) × World)
  | .findUserByEmail email, ω, w => some (w.settle ω (.ok (w.findUserByEmail email, w)))
  | .findUserById userId, ω, w => some (w.settle ω (.ok (w.findUserById (P.collate userId), w)))
  | .createUser data, ω, w =>
      -- no id is generated twice, and all are spelled as the database spells them
      if ω.uuid ∈ w.issued ∨ P.collate ω.uuid ≠ ω.uuid then none
      else some (w.settle ω (w.createUser (data.create ω.uuid)))
  | .applyUpdatesAndSave user updateData, ω, w =>
      some (w.settle ω (w.save (assign user updateData)))
  | .deleteUser id, ω, w => some (w.settle ω (.ok ((), w.deleteUser (P.collate id))))
  | .hash password, ω, w => some (w.settle ω (.ok (P.hash ω.salt password, w)))
  | .verify digest password, ω, w => some (w.settle ω (.ok (P.verify digest password, w)))
  | .emit payload, _, w => some (.ok (), { w with emitted := w.emitted ++ [payload] })

/-- An asynchronous function of the server. -/
abbrev Promise (α : Type) : Type := Program Op Ans Exception α

def await (o : Op) : Promise (Ans o) := .call o

/-! ## What an operation does -/

/-- The operation, performed in `w`, settled in this way and left this world. -/
inductive Effect (P : Packages) (w : World) : (o : Op) → Except Exception (Ans o) → World → Prop where
  | failed (o : Op) (e : Exception) : Effect P w o (.error e) w
  | findUserByEmail (email : String) :
      Effect P w (.findUserByEmail email) (.ok (w.findUserByEmail email)) w
  | findUserById (userId : String) :
      Effect P w (.findUserById userId) (.ok (w.findUserById (P.collate userId))) w
  | createUser {data : UserData} {uuid : String} {users : Table Users} :
      uuid ∉ w.issued → P.collate uuid = uuid → w.users.insert? (data.create uuid) = some users →
        Effect P w (.createUser data) (.ok (data.create uuid))
          { w with users := users, issued := uuid :: w.issued }
  | applyUpdatesAndSave {user : Users} {updateData : PartialUsers} {users : Table Users} :
      (w.users.delete (·.id == (assign user updateData).id)).insert? (assign user updateData) =
          some users →
        Effect P w (.applyUpdatesAndSave user updateData) (.ok (assign user updateData))
          { w with users := users }
  | deleteUser (id : String) : Effect P w (.deleteUser id) (.ok ()) (w.deleteUser (P.collate id))
  | hash (password salt : String) : Effect P w (.hash password) (.ok (P.hash salt password)) w
  | verify (digest password : String) :
      Effect P w (.verify digest password) (.ok (P.verify digest password)) w
  | emit (payload : UserRegisteredPayload) :
      Effect P w (.emit payload) (.ok ()) { w with emitted := w.emitted ++ [payload] }

variable {P : Packages} {w w' : World} {ω : Choice} {o : Op} {r : Except Exception (Ans o)}

/-- Either the operation fails, or it does what `result` says. -/
theorem effect_of_settle {result : Except Exception (Ans o × World)}
    (h : some (w.settle ω result) = some (r, w'))
    (hok : ∀ a w₁, result = .ok (a, w₁) → Effect P w o (.ok a) w₁) : Effect P w o r w' := by
  have h := Option.some.inj h
  unfold World.settle at h
  split at h
  · cases h
    exact .failed _ _
  · cases h
    exact .failed _ _
  · cases h
    exact hok _ _ rfl

theorem createUser_eq_some {data : UserData} {r : Except Exception Users}
    (h : perform P (.createUser data) ω w = some (r, w')) : ω.uuid ∉ w.issued ∧ P.collate ω.uuid = ω.uuid ∧
      some (w.settle ω (w.createUser (data.create ω.uuid))) = some (r, w') := by
  by_cases hcond : ω.uuid ∈ w.issued ∨ P.collate ω.uuid ≠ ω.uuid
  · rw [perform, if_pos hcond] at h
    cases h
  · rw [perform, if_neg hcond] at h
    exact ⟨fun hissued => hcond (.inl hissued), not_not.mp fun hne => hcond (.inr hne), h⟩

theorem effect_of_perform (h : perform P o ω w = some (r, w')) : Effect P w o r w' := by
  cases o with
  | findUserByEmail email => exact effect_of_settle h fun a w₁ heq => by cases heq; exact .findUserByEmail _
  | findUserById userId => exact effect_of_settle h fun a w₁ heq => by cases heq; exact .findUserById _
  | createUser data =>
    obtain ⟨hfresh, hspelled, h⟩ := createUser_eq_some h
    refine effect_of_settle h fun a w₁ heq => ?_
    unfold World.createUser at heq
    split at heq
    · rename_i users hinsert
      cases heq
      exact .createUser hfresh hspelled hinsert
    · cases heq
  | applyUpdatesAndSave user updateData =>
    refine effect_of_settle h fun a w₁ heq => ?_
    unfold World.save at heq
    split at heq
    · rename_i users hinsert
      cases heq
      exact .applyUpdatesAndSave hinsert
    · cases heq
  | deleteUser id => exact effect_of_settle h fun a w₁ heq => by cases heq; exact .deleteUser _
  | hash password => exact effect_of_settle h fun a w₁ heq => by cases heq; exact .hash _ _
  | verify digest password => exact effect_of_settle h fun a w₁ heq => by cases heq; exact .verify _ _
  | emit payload =>
    cases h
    exact .emit payload

/-- The operation leaves the world as it is. -/
def Op.Reads : Op → Prop
  | .createUser _ | .applyUpdatesAndSave _ _ | .deleteUser _ | .emit _ => False
  | _ => True

end LiorParisWallet.Accounts
