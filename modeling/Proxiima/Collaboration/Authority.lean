import Proxiima.Collaboration.Tables
import Proxiima.ReadCommitted.Guards

/-!
# Authority inside a collaboration transaction

A collaboration transaction takes the owner fences and the authority locks of the owners it
is about, reads the caller's roles under them, and locks the Goal it is about. A caller's
role on an owner is the meet of the role captured in their scope and the current one; their
role on a Goal joins it with an unexpired grant of the Goal's current generation.
-/

namespace Proxiima.Collaboration

open ReadCommitted Authz Prog

/-! ### Locks and transactions -/

inductive LockName where
  /-- `proxiima-owner-fence:` -/
  | ownerFence (owner : Uuid)
  /-- The membership locks of the authority gateway. -/
  | authority (owner : Uuid)
  /-- `proxiima-memory-handle:` -/
  | memoryHandle (handle : Uuid)
  deriving DecidableEq

abbrev Lock := TableLock Key

/-- The 64-bit key of each advisory lock. -/
abbrev Hash := LockName → ℕ

inductive StorageError where
  | notFound
  | constraintViolation (message : String)
  | retryable (message : String)
  | memoryIdCollision
  | internal (message : String)
  deriving DecidableEq

/-- What a call into the process gets: its clock, the time of a statement, whether the checks
on tables left out here pass, and whether a request key names an earlier answer. -/
structure Input where
  now : ℕ
  stamp : ℕ
  ok : Bool
  replay : Bool

abbrev Txn := Prog Row Lock StorageError Input Unit

def clocks : Txn (ℕ × ℕ) := call fun x a => ((x.now, x.stamp), a)

/-- A check on tables that are left out. -/
def probe (e : StorageError) : Txn Unit := do
  let ok ← call fun x a => (x.ok, a)
  failIf (ok = false) e

def orFail {α : Type} (o : Option α) (e : StorageError) : Txn α :=
  match o with
  | some a => pure a
  | none => fail e

variable (H : Hash)

/-- Owner ids in the order in which they are locked. -/
def ordered (owners : List Uuid) : List Uuid := (owners.insertionSort (· ≤ ·)).dedup

def fences (exclusive : Bool) (owners : List Uuid) : List Lock :=
  (ordered owners).map fun o => .advisory (H (.ownerFence o)) exclusive

def authorities (owners : List Uuid) : List Lock :=
  owners.map fun o => .advisory (H (.authority o)) false

variable {owners : List Uuid} {o : Uuid}

lemma mem_ordered : o ∈ ordered owners ↔ o ∈ owners := by
  simp [ordered]

variable {H} in
lemma fence_mem {exclusive : Bool} (h : o ∈ owners) :
    .advisory (H (.ownerFence o)) exclusive ∈ fences H exclusive owners :=
  List.mem_map_of_mem (mem_ordered.2 h)

variable {H} in
lemma authority_mem (h : o ∈ owners) : .advisory (H (.authority o)) false ∈ authorities H owners :=
  List.mem_map_of_mem h

/-! ### Roles -/

/-- The role the membership tables give; on oneself it is the personal one. -/
def effectiveRole (db : Tables) (subject owner : Uuid) : Option Role :=
  if owner = subject then some .personal else get db (.role subject owner)

/-- Captured and current. -/
def currentRole (now : ℕ) (scope : OwnerScope) (roles : Uuid → Option Role) (owner : Uuid) :
    Option Role :=
  if scope.isExpired now then none
  else do
    let captured ← scope.roles.roleFor owner
    let current ← roles owner
    some (captured.meet current)

def sourceAdmin (now : ℕ) (scope : OwnerScope) (roles : Uuid → Option Role) (owner : Uuid) : Bool :=
  (currentRole now scope roles owner).any fun role =>
    role.administers && (owner = scope.roles.subject || role.manage)

/-- An unexpired grant of the Goal's generation. -/
def grantRole (db : Tables) (stamp : ℕ) (goal subject : Uuid) (generation : ℕ) : Option Role :=
  (get db (.goalAccessGrant goal subject)).bind fun a =>
    if a.controllerGeneration = generation ∧ a.unexpired stamp = true then some a.role else none

def joinRoles : Option Role → Option Role → Option Role
  | some owner, some grant => some (owner.join grant)
  | some owner, none => some owner
  | none, grant => grant

def goalRole (db : Tables) (clock : ℕ × ℕ) (scope : OwnerScope) (roles : Uuid → Option Role)
    (goal controller : Uuid) (generation : ℕ) : Option Role :=
  joinRoles (currentRole clock.1 scope roles controller)
    (grantRole db clock.2 goal scope.roles.subject generation)

/-- Take the fences and the authority locks of the owners and read the caller's roles. -/
def fencedRoles (scope : OwnerScope) (owners : List Uuid) : Txn (Uuid → Option Role) := do
  let clock ← clocks
  failIf (scope.isExpired clock.1 = true ∨ scope.goalPrincipal = none) .notFound
  (fences H false owners).forM fun l => lock l
  (authorities H owners).forM fun l => lock l
  let v ← view
  pure (effectiveRole v scope.roles.subject)

structure GoalCommandPermit where
  scope : OwnerScope
  goal : Uuid
  controller : Uuid

def GoalCommandPermit.subject (p : GoalCommandPermit) : Uuid := p.scope.roles.subject

structure OwnerWritePermit where
  owner : Uuid
  ownerScope : Option OwnerScope

/-- The caller's role on a Goal, with the clocks it was judged by. -/
def roleForGoal (scope : OwnerScope) (roles : Uuid → Option Role) (goal controller : Uuid)
    (generation : ℕ) : Txn ((ℕ × ℕ) × Option Role) := do
  failIf (scope.goalPrincipal = none) .notFound
  let clock ← clocks
  let v ← view
  pure (clock, goalRole v clock scope roles goal controller generation)

/-- What of a Goal role manages the Goal: its personal owner always does. -/
def managing (permit : GoalCommandPermit) (role : Role) : Option Role :=
  if permit.controller = permit.subject ∧ role.administers = true then some .admin
  else if role.manage then some role
  else none

def lockGoalManager (permit : GoalCommandPermit) (roles : Uuid → Option Role) :
    Txn (Option Role) := do
  lock (.row (.goalHead permit.goal))
  let v ← view
  let head ← orFail (get v (.goalHead permit.goal)) .notFound
  failIf (head.ownerId ≠ permit.controller) .notFound
  let role ← roleForGoal permit.scope roles permit.goal permit.controller head.authorityGeneration
  pure (role.2.bind (managing permit))

def notAdmitted (operation : String) : StorageError :=
  .constraintViolation ("Goal collaboration " ++ operation ++ " was not admitted")

def targetMismatch : StorageError := .constraintViolation "Goal permit target mismatch"

end Proxiima.Collaboration
