import LiorParisWallet.Server.World

/-!
# `UsersService`, as far as it touches the money

Users appear and disappear, and their wallets disappear with them.
-/

namespace LiorParisWallet

/-- `UsersPolicy.ensureCanDeleteUser` -/
def ensureCanDeleteUser (requestingUserId targetUserId : String) (role : UserRole) :
    Except Err Unit := do
  if requestingUserId = targetUserId then
    throw (.forbidden "You cannot delete yourself")
  if role ≠ .admin then
    throw (.forbidden "You do not have permission to delete users")

/-- The `catch` blocks of `UsersService` log the error and throw it again. -/
def createUser (input : UserData) : Promise Users :=
  await (.createUser input)

def deleteUser (requestingUserId targetUserId : String) (role : UserRole) : Promise Unit := do
  let userToDelete ← await (.findUserById targetUserId)
  if userToDelete.isNone then
    throw (.notFound ("User with ID " ++ targetUserId ++ " not found"))
  .ofExcept (ensureCanDeleteUser requestingUserId targetUserId role)
  await (.deleteUser targetUserId)

end LiorParisWallet
