import Proxiima.Collaboration.Authority

/-!
# Grants, publications, bindings, and what moves under them

The commands that record and withdraw access to a Goal, and the commands on the series, the
Goals and the memberships they are about, as far as their rows stand here.
-/

namespace Proxiima.Collaboration

open ReadCommitted Authz Prog

/-- An answer. What was admitted through a Goal or as a fork comes with the clocks its
authority was last judged by, after its rows were written. -/
inductive Response where
  | done
  | admitted (t handle : Uuid) (checks : List (ℕ × ℕ))
  | replayed
  deriving DecidableEq

variable (H : Hash)

def shared (name : LockName) : Lock := .advisory (H name) false

def exclusive (name : LockName) : Lock := .advisory (H name) true

/-! ### Access to a Goal -/

/-- A stored expiry has whole seconds. -/
def dbExpiry (expiresAt : Option ℕ) : Option ℕ :=
  expiresAt.map fun t => t / 1000000000 * 1000000000

structure GoalAudienceGrantInput where
  goal : Uuid
  subject : Uuid
  role : Role
  expiresAt : Option ℕ

def exceeds (requested actor : Role) : Bool :=
  actor.read.rank < requested.read.rank || actor.write.rank < requested.write.rank ||
    (requested.manage && !actor.manage)

/-- The Goal head when it has this owner. -/
def ownedGoalHead (v : Tables) (goal owner : Uuid) : Option GoalHead :=
  (get v (.goalHead goal)).filter (·.ownerId = owner)

def grantAccess (input : GoalAudienceGrantInput) (permit : GoalCommandPermit) : Txn Response := do
  failIf (input.goal ≠ permit.goal) targetMismatch
  let roles ← fencedRoles H permit.scope [permit.controller]
  let manager ← lockGoalManager permit roles
  let actor ← orFail manager .notFound
  failIf (exceeds input.role actor = true)
    (.constraintViolation "Goal grant exceeds actor authority")
  let v ← view
  let head ← orFail (ownedGoalHead v permit.goal permit.controller) (notAdmitted "grant")
  write [⟨.goalAccessGrant permit.goal input.subject, some
    ⟨input.role, head.authorityGeneration, dbExpiry input.expiresAt, permit.subject⟩⟩]
  pure .done

def revokeAccess (goal subject : Uuid) (permit : GoalCommandPermit) : Txn Response := do
  failIf (goal ≠ permit.goal) targetMismatch
  let roles ← fencedRoles H permit.scope [permit.controller]
  let manager ← lockGoalManager permit roles
  failIf (manager = none) .notFound
  lock (.row (.goalAccessGrant permit.goal subject))
  let v ← view
  failIf (get v (.goalAccessGrant permit.goal subject) = none) (notAdmitted "revoke")
  write [⟨.goalAccessGrant permit.goal subject, none⟩]
  pure .done

/-! ### Publications and work bindings -/

/-- The consent of the source owner: an administrator of it, in an unexpired scope. -/
def sourceConsent (permit : GoalCommandPermit) (source : OwnerWritePermit)
    (roles : Uuid → Option Role) : Txn Unit := do
  let clock ← clocks
  failIf (source.ownerScope.any (fun scope => scope.roles.subject = permit.subject &&
    !scope.isExpired clock.1) = false ∨
      sourceAdmin clock.1 permit.scope roles source.owner = false) .notFound

structure GoalPublicationInput where
  goal : Uuid
  memory : Uuid
  permittedUse : PublicationUse

/-- The row that publishes the live version `t` of this owner to the Goal. -/
def newPublication (v : Tables) (goal t owner controller : Uuid) (permittedUse : PublicationUse)
    (subject : Uuid) : Option GoalMemoryPublication := do
  let m ← get v (.memory t)
  let mh ← get v (.memoryHead m.handle)
  let gh ← get v (.goalHead goal)
  if m.ownerId = owner ∧ mh.ownerId = m.ownerId ∧ m.forgotten = false ∧ gh.ownerId = controller then
    some ⟨m.ownerId, mh.authorityGeneration, gh.authorityGeneration, permittedUse, subject⟩
  else none

/-- `ON CONFLICT DO UPDATE`: the owner of the row that is there stays. -/
def GoalMemoryPublication.replacing (new : GoalMemoryPublication) :
    Option GoalMemoryPublication → GoalMemoryPublication
  | none => new
  | some old => { new with sourceOwner := old.sourceOwner }

def publish (input : GoalPublicationInput) (permit : GoalCommandPermit)
    (source : OwnerWritePermit) : Txn Response := do
  failIf (input.goal ≠ permit.goal) targetMismatch
  let roles ← fencedRoles H permit.scope [permit.controller, source.owner]
  sourceConsent permit source roles
  let manager ← lockGoalManager permit roles
  failIf (manager = none) .notFound
  -- the source stays live until the end
  lock (.share (.memory input.memory))
  let v ← view
  failIf ((get v (.memory input.memory)).any (fun m => m.ownerId = source.owner &&
    !m.forgotten) = false) .notFound
  let v ← view
  let new ← orFail (newPublication v permit.goal input.memory source.owner permit.controller
    input.permittedUse permit.subject) (notAdmitted "publish")
  lock (.row (.goalMemoryPublication permit.goal input.memory))
  let v ← view
  write [⟨.goalMemoryPublication permit.goal input.memory, some
    (new.replacing (get v (.goalMemoryPublication permit.goal input.memory)))⟩]
  pure .done

/-- The row that binds the series of this owner to a Goal of the same owner. -/
def newBinding (v : Tables) (goal handle owner subject : Uuid) : Option GoalWorkBinding := do
  let mh ← get v (.memoryHead handle)
  let gh ← get v (.goalHead goal)
  if mh.ownerId = owner ∧ gh.ownerId = owner then
    some ⟨mh.ownerId, mh.authorityGeneration, gh.authorityGeneration, subject⟩
  else none

def GoalWorkBinding.replacing (new : GoalWorkBinding) : Option GoalWorkBinding → GoalWorkBinding
  | none => new
  | some old => { new with sourceOwner := old.sourceOwner }

structure GoalWorkBindingInput where
  goal : Uuid
  series : Uuid

def bindWork (input : GoalWorkBindingInput) (permit : GoalCommandPermit)
    (source : OwnerWritePermit) : Txn Response := do
  failIf (input.goal ≠ permit.goal) targetMismatch
  let roles ← fencedRoles H permit.scope [permit.controller, source.owner]
  sourceConsent permit source roles
  let manager ← lockGoalManager permit roles
  failIf (manager = none) .notFound
  let v ← view
  let new ← orFail (newBinding v permit.goal input.series source.owner permit.subject)
    (notAdmitted "bind")
  lock (.row (.goalWorkBinding permit.goal input.series))
  let v ← view
  write [⟨.goalWorkBinding permit.goal input.series, some
    (new.replacing (get v (.goalWorkBinding permit.goal input.series)))⟩]
  pure .done

/-- Withdraw the row `k`, as a manager of the Goal or an administrator of the owner the row
names as its source. -/
def withdraw (permit : GoalCommandPermit) (k : Key) (source : Tables → Option Uuid)
    (operation : String) : Txn Response := do
  let v ← view
  let selected := source v
  let roles ← fencedRoles H permit.scope (permit.controller :: selected.toList)
  let manager ← lockGoalManager permit roles
  let v ← view
  failIf (source v ≠ selected)
    (.retryable "Goal consent source changed while acquiring authority fences")
  let clock ← clocks
  failIf (manager = none ∧ selected.any (sourceAdmin clock.1 permit.scope roles) = false) .notFound
  lock (.row k)
  let v ← view
  failIf ((get v k).isNone = true) (notAdmitted operation)
  write [⟨k, none⟩]
  pure .done

def publicationSource (goal memory : Uuid) (v : Tables) : Option Uuid :=
  (get v (.goalMemoryPublication goal memory)).map (·.sourceOwner)

def bindingSource (goal handle : Uuid) (v : Tables) : Option Uuid :=
  (get v (.goalWorkBinding goal handle)).map (·.sourceOwner)

def unpublish (goal memory : Uuid) (permit : GoalCommandPermit) : Txn Response := do
  failIf (goal ≠ permit.goal) targetMismatch
  withdraw H permit (.goalMemoryPublication permit.goal memory)
    (publicationSource permit.goal memory) "unpublish"

def unbindWork (input : GoalWorkBindingInput) (permit : GoalCommandPermit) : Txn Response := do
  failIf (input.goal ≠ permit.goal) targetMismatch
  withdraw H permit (.goalWorkBinding permit.goal input.series)
    (bindingSource permit.goal input.series) "unbind"

/-! ### Series -/

/-- Admit the version `t` to a series; the first version makes its head. A fresh handle must
be new. -/
def admitVersion (owner handle t : Uuid) (kind : Memory.MemoryKind) (fresh : Bool) : Txn Unit := do
  lock (shared H (.ownerFence owner))
  lock (exclusive H (.memoryHandle handle))
  let v ← view
  let head := get v (.memoryHead handle)
  failIf (fresh = true ∧ head.isSome = true) .memoryIdCollision
  failIf (head.any (fun h => h.kind ≠ kind || h.ownerId ≠ owner) = true)
    (.constraintViolation "memory_head kind/schema/owner mismatch")
  lock (.row (.memory t))
  let v ← view
  failIf ((get v (.memory t)).isSome = true) .memoryIdCollision
  write (⟨.memory t, some ⟨handle, owner, kind, false⟩⟩ ::
    if head.isSome then [] else [⟨.memoryHead handle, some ⟨kind, owner, 0⟩⟩])

def admitMemory (owner handle t : Uuid) (kind : Memory.MemoryKind) (fresh : Bool) :
    Txn Response := do
  probe (.constraintViolation "admission refused")
  admitVersion H owner handle t kind fresh
  pure (.admitted t handle [])

/-- A version this owner holds. -/
def ownedMemory (v : Tables) (t owner : Uuid) : Option MemoryRow :=
  (get v (.memory t)).filter (·.ownerId = owner)

/-- Forget or restore the version `t`. -/
def setForgotten (owner t : Uuid) (forgotten : Bool) : Txn Response := do
  let v ← view
  let m ← orFail (ownedMemory v t owner) .notFound
  lock (exclusive H (.memoryHandle m.handle))
  lock (.row (.memory t))
  let v ← view
  let m ← orFail (ownedMemory v t owner) .notFound
  probe (.constraintViolation "lifecycle refused")
  write [⟨.memory t, some { m with forgotten := forgotten }⟩]
  pure .done

/-- The versions of a series that an owner holds. -/
def versions (v : Tables) (handle owner : Uuid) : List Uuid :=
  (live v).filterMap fun
    | .memory t =>
      if (ownedMemory v t owner).any (fun m => m.handle = handle) then some t else none
    | _ => none

/-- What a transfer makes of a row: the versions with their new owner. -/
def rehome (handle fromOwner toOwner : Uuid) : ∀ k, Row k → Option (Option (Row k))
  | .memory _, m =>
    if m.handle = handle ∧ m.ownerId = fromOwner then some (some { m with ownerId := toOwner })
    else none
  | _, _ => none

/-- `memory_head_t_only`: a new owner is a new generation. -/
def MemoryHead.transferred (h : MemoryHead) (toOwner : Uuid) : MemoryHead :=
  { h with ownerId := toOwner, authorityGeneration := h.authorityGeneration + 1 }

def transferToOwner (fromOwner toOwner t : Uuid) : Txn Response := do
  failIf (fromOwner = toOwner)
    (.constraintViolation "transfer destination is the current owner")
  (fences H true [fromOwner, toOwner]).forM fun l => lock l
  let v ← view
  let m ← orFail (ownedMemory v t fromOwner) .notFound
  lock (exclusive H (.memoryHandle m.handle))
  let v ← view
  ((versions v m.handle fromOwner).map fun t => .row (.memory t)).forM fun l => lock l
  let v ← view
  failIf (t ∉ versions v m.handle fromOwner) .notFound
  let head ← orFail ((get v (.memoryHead m.handle)).filter (·.ownerId = fromOwner)) .notFound
  probe (.constraintViolation "transfer refused")
  write (⟨.memoryHead m.handle, some (head.transferred toOwner)⟩ ::
    updates v (rehome m.handle fromOwner toOwner))
  pure .done

/-! ### Goals and memberships -/

def createGoal (owner handle t : Uuid) : Txn Response := do
  lock (shared H (.ownerFence owner))
  lock (.row (.goalHead handle))
  lock (.row (.goal t))
  let v ← view
  failIf ((get v (.goalHead handle)).isSome = true ∨ (get v (.goal t)).isSome = true)
    .memoryIdCollision
  write [⟨.goal t, some ⟨handle, owner, .active⟩⟩, ⟨.goalHead handle, some ⟨owner, t, 0⟩⟩]
  pure .done

/-- A new version of a Goal, in its new state. -/
def transitionGoal (owner handle t : Uuid) (state : GoalState) : Txn Response := do
  lock (shared H (.ownerFence owner))
  lock (.row (.goalHead handle))
  lock (.row (.goal t))
  let v ← view
  let head ← orFail (ownedGoalHead v handle owner) .notFound
  failIf ((get v (.goal t)).isSome = true) .memoryIdCollision
  probe (.constraintViolation "transition refused")
  write [⟨.goal t, some ⟨handle, owner, state⟩⟩, ⟨.goalHead handle, some { head with t := t }⟩]
  pure .done

/-- What a membership change makes of one role. -/
def setRole (subject owner : Uuid) (role : Option Role) : Txn Response := do
  lock (exclusive H (.authority owner))
  write [⟨.role subject owner, role⟩]
  pure .done

end Proxiima.Collaboration
