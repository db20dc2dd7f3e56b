import Proxiima.Collaboration.Work

/-!
# Forks

`fork_memory` copies a version its caller can read into a new series, of an owner or of a
Goal's owner and bound to the Goal. A copy that leaves its owner, or that enters a Goal, needs
an administrator of the source's owner or a publication of the source with fork use.
-/

namespace Proxiima.Collaboration

open ReadCommitted Authz Prog

variable (H : Hash)

inductive ForkDestinationPermit where
  | owner (owner : Uuid)
  | workingGoal (command : GoalCommandPermit)

structure ForkCommandPermit where
  scope : OwnerScope
  source : Uuid
  sourceOwner : Uuid
  destination : ForkDestinationPermit

def ForkDestinationPermit.targetOwner : ForkDestinationPermit → Uuid
  | owner o => o
  | workingGoal command => command.controller

/-- Whether the copy stays an owner's own. -/
def ForkCommandPermit.sameOwnerDestination (p : ForkCommandPermit) : Bool :=
  match p.destination with
  | .owner o => o = p.sourceOwner
  | .workingGoal _ => false

/-! ### Consent -/

/-- A current publication of the version with fork use. -/
def forkPublication (v : Tables) (goal t : Uuid) : Option GoalMemoryPublication := do
  let p ← get v (.goalMemoryPublication goal t)
  let gh ← get v (.goalHead goal)
  let m ← get v (.memory t)
  let mh ← get v (.memoryHead m.handle)
  if gh.authorityGeneration = p.controllerGeneration ∧ m.ownerId = p.sourceOwner ∧
      m.forgotten = false ∧ mh.ownerId = p.sourceOwner ∧
      mh.authorityGeneration = p.sourceGeneration ∧ p.permittedUse = .fork then
    some p
  else none

/-- The first Goal among the routes with a fork publication. -/
def forkRoute (v : Tables) (routes : List Route) (t : Uuid) : Option (Uuid × Uuid) :=
  firstRoute (routes.filter fun r => (forkPublication v r.goalHandle t).isSome)

def checkForkConsent (permit : ForkCommandPermit) (roles : Uuid → Option Role)
    (consent : Option (Uuid × Uuid)) (kind : AccessKind) : Txn (ℕ × ℕ) := do
  let goal ← orFail consent .notFound
  let v ← view
  let head ← orFail (ownedGoalHead v goal.1 goal.2) .notFound
  failIf ((forkPublication v goal.1 permit.source).any (·.sourceOwner = permit.sourceOwner) = false)
    .notFound
  let role ← roleForGoal permit.scope roles goal.1 goal.2 head.authorityGeneration
  failIf (role.2.any (·.mayRead kind) = false) .notFound
  pure role.1

/-- The consent that a copy out of the source's owner needs. -/
def consented (permit : ForkCommandPermit) (roles : Uuid → Option Role)
    (consent : Option (Uuid × Uuid)) (kind : AccessKind) : Txn (List (ℕ × ℕ)) := do
  let clock ← clocks
  if permit.sameOwnerDestination = false ∧
      sourceAdmin clock.1 permit.scope roles permit.sourceOwner = false then
    let check ← checkForkConsent permit roles consent kind
    pure [check]
  else
    pure [clock]

/-! ### The destination -/

def destinationRole (permit : ForkCommandPermit) (roles : Uuid → Option Role) :
    Txn ((ℕ × ℕ) × Option Role) :=
  match permit.destination with
  | .owner owner => do
    let clock ← clocks
    pure (clock, currentRole clock.1 permit.scope roles owner)
  | .workingGoal command => do
    let v ← view
    let head ← orFail (ownedGoalHead v command.goal command.controller) .notFound
    failIf (goalState v command.goal head ≠ some .active) .notFound
    roleForGoal permit.scope roles command.goal command.controller head.authorityGeneration

def checkDestination (permit : ForkCommandPermit) (roles : Uuid → Option Role) (kind : AccessKind) :
    Txn (ℕ × ℕ) := do
  let role ← destinationRole permit roles
  let clock ← clocks
  failIf (permit.scope.isExpired clock.1 = true ∨ role.2.any (·.mayWrite kind) = false) .notFound
  pure role.1

/-! ### The copy -/

def goalDestination : ForkDestinationPermit → List (Uuid × Uuid)
  | .owner _ => []
  | .workingGoal command => [(command.goal, command.controller)]

/-- The source as its reader finds it: its kind, and the route that consents to a copy. -/
def loadForkSource (permit : ForkCommandPermit) :
    Txn (Memory.MemoryKind × Option (Uuid × Uuid)) := do
  let clock ← clocks
  failIf (permit.scope.isExpired clock.1 = true)
    (.constraintViolation "authenticated owner scope has expired")
  let v ← view
  let session := scopeSession permit.scope clock
  let source ← orFail (memorySource v session permit.source) .notFound
  let m ← orFail (get v (.memory permit.source)) .notFound
  failIf (source.owner ≠ permit.sourceOwner) (.retryable "fork source owner changed")
  failIf (m.kind = .fact)
    (.constraintViolation "Facts are immutable admissions, not A/P forks")
  probe (.constraintViolation "schema cannot leave its owner")
  let clock ← clocks
  let v ← view
  let routes := routesTo v (scopeSession permit.scope clock) permit.source
  let v ← view
  pure (m.kind, forkRoute v routes permit.source)

/-- The binding of a copy to its working Goal. -/
def bindFork (goal handle subject : Uuid) : Txn Unit := do
  lock (.row (.goalWorkBinding goal handle))
  let v ← view
  failIf ((get v (.goalWorkBinding goal handle)).isSome = true)
    (.constraintViolation "duplicate key value violates unique constraint")
  match workBinding v goal handle subject fun mh gh => mh.ownerId = gh.ownerId with
  | some row => write [⟨.goalWorkBinding goal handle, some row⟩]
  | none => pure ()

/-- Admit the copy `t` as a new series; `false` when the request was answered before. -/
def admitFork (permit : ForkCommandPermit) (kind : Memory.MemoryKind) (t : Uuid) : Txn Bool := do
  let replay ← call fun x a => (x.replay, a)
  if replay then
    pure false
  else
    probe (.constraintViolation "admission refused")
    admitVersion H permit.destination.targetOwner t t kind true
    match permit.destination with
    | .owner _ => pure true
    | .workingGoal command => do
      bindFork command.goal t permit.scope.roles.subject
      pure true

/-- One attempt of `fork_memory`. -/
def forkOnce (source : Uuid) (permit : ForkCommandPermit) (t : Uuid) : Txn Response := do
  failIf (source ≠ permit.source) .notFound
  let loaded ← loadForkSource permit
  let kind := access loaded.1
  let endpoint := [⟨kind, permit.source⟩]
  let found ← discover permit.scope endpoint
  let roles ← fencedRoles H permit.scope (sourceOwners found.2 ++
    [permit.sourceOwner, permit.destination.targetOwner] ++ (loaded.2.map Prod.snd).toList)
  lockGoalFootprint (goalRoutes found.2 ++ loaded.2.toList ++ goalDestination permit.destination)
  let _ ← revalidate found.2 permit.scope roles endpoint
  let _ ← checkDestination permit roles kind
  let _ ← consented permit roles loaded.2 kind
  let admitted ← admitFork H permit loaded.1 t
  let checks ← revalidate found.2 permit.scope roles endpoint
  let destination ← checkDestination permit roles kind
  let consent ← consented permit roles loaded.2 kind
  pure (if admitted then .admitted t t (checks ++ destination :: consent) else .replayed)

end Proxiima.Collaboration
