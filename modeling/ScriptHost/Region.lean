import ScriptHost.ObjectId
import ScriptHost.Lease

/-! The region around a script engine: accounts and the directory that holds them, the estate's
privileges, and the region's own name and keys. -/

namespace ScriptHost

/-- A user of the grid. The country may be empty. -/
structure Account where
  id : ObjectId
  firstName : String
  lastName : String
  country : String
  deriving DecidableEq, Inhabited

def Account.displayName (a : Account) : String :=
  if a.lastName.isEmpty then a.firstName else s!"{a.firstName} {a.lastName}"

/-- Says whether an account holds elevated rights over objects of an owner. -/
structure PermissionChecker where
  isPrivileged : (account owner : ObjectId) → Bool

namespace PermissionChecker

/-- Nobody is privileged. -/
def none : PermissionChecker := ⟨fun _ _ => false⟩

instance : Inhabited PermissionChecker := ⟨none⟩

end PermissionChecker

/-- Who holds elevated rights in an estate: gods of the grid, the owner and the managers. -/
structure Permissions where
  gods : List ObjectId
  owner : Option ObjectId
  managers : List ObjectId
  deriving Inhabited

namespace Permissions

def isGod (p : Permissions) (id : ObjectId) : Bool := p.gods.contains id

def isEstate (p : Permissions) (id : ObjectId) : Bool := p.owner == some id || p.managers.contains id

/-- Whether an account holds elevated rights over objects of an owner. In an estate the owner of
the object does not matter. -/
def isPrivileged (p : Permissions) (account _owner : ObjectId) : Bool :=
  p.isGod account || p.isEstate account

instance : Coe Permissions PermissionChecker := ⟨fun p => ⟨p.isPrivileged⟩⟩

end Permissions

/-- What an account service answers when it cannot look an account up. -/
inductive DirectoryError
  | offline
  deriving DecidableEq

def DirectoryError.message : DirectoryError → String
  | offline => "account service unavailable: directory offline"

/-- The account service of a region. Each look-up takes `latency`. -/
structure Directory where
  accounts : List Account
  offline : Bool
  latency : Nat
  deriving Inhabited

namespace Directory

def find? (d : Directory) (user : ObjectId) : Option Account := d.accounts.find? (·.id == user)

/-- Adds an account in place of the one with its id. -/
def insert (d : Directory) (a : Account) : Directory :=
  { d with accounts := a :: d.accounts.filter (·.id != a.id) }

def ofList (accounts : List Account) : Directory := accounts.foldl insert ⟨[], false, 0⟩

/-- The answer to a question about a user, once the latency has passed. -/
def lookup (d : Directory) (user : ObjectId) : Except DirectoryError (Option Account) :=
  if d.offline then .error .offline else .ok (d.find? user)

theorem find?_insert_self (d : Directory) (a : Account) : (d.insert a).find? a.id = some a := by
  simp [find?, insert]

end Directory

/-- A region: its name, its key, the scope in which it looks accounts up, its account service if it
is connected to one, and its privileges. -/
structure Region where
  name : String
  id : ObjectId
  scope : ObjectId
  directory : Option Directory
  permissions : PermissionChecker
  deriving Inhabited

end ScriptHost
