import Proxiima.Collaboration.Sources

/-!
# Work through a Goal

`author_work_memory` admits a version to a series of the Goal's owner on the authority of a
Goal role: to a new series, which it binds to the Goal, or to one that is bound to it.
-/

namespace Proxiima.Collaboration

open ReadCommitted Authz Prog

variable (H : Hash)

inductive MemoryTarget where
  | series (handle : Uuid)
  | revision (prior : Uuid)
  deriving DecidableEq

/-- The pins that a revision of a fork keeps from its prior version. -/
structure RetainedPins where
  prior : Uuid
  kind : Memory.MemoryKind
  origins : List EdgeEndpoint
  references : List EdgeEndpoint
  goalReferences : List Uuid

structure AuthorRequest where
  owner : Uuid
  kind : Memory.MemoryKind
  memoryId : Uuid
  supersedes : Option Uuid
  origins : List EdgeEndpoint
  references : List EdgeEndpoint
  guidedBy : List Uuid
  retainedPins : Option RetainedPins

structure GoalWorkPermit where
  command : GoalCommandPermit
  kind : Memory.MemoryKind
  target : MemoryTarget

def GoalWorkPermit.owner (p : GoalWorkPermit) : Uuid := p.command.controller

/-! ### Pins -/

def newOrigins (req : AuthorRequest) : List EdgeEndpoint :=
  req.origins.filter fun pin => req.retainedPins.all fun kept => pin ∉ kept.origins

def newReferences (req : AuthorRequest) : List EdgeEndpoint :=
  req.references.filter fun pin => req.retainedPins.all fun kept =>
    if pin.kind = .goal then pin.id ∉ kept.goalReferences else pin ∉ kept.references

/-- What the request newly declares, with the version it revises when it keeps its pins. -/
def endpoints (req : AuthorRequest) : List EdgeEndpoint :=
  newOrigins req ++ newReferences req ++
    (req.retainedPins.map fun kept => ⟨access kept.kind, kept.prior⟩).toList ++
    req.guidedBy.map fun id => ⟨.goal, id⟩

/-! ### Authority -/

/-- The Goal's state, when its head has a version. -/
def goalState (v : Tables) (handle : Uuid) (head : GoalHead) : Option GoalState :=
  ((get v (.goal head.t)).filter (·.handle = handle)).map (·.state)

structure GoalWorkAuthority where
  generation : ℕ
  sources : List Source
  roles : Uuid → Option Role

def prepareGoalWorkAuthority (req : AuthorRequest) (permit : GoalWorkPermit) :
    Txn GoalWorkAuthority := do
  let goal := permit.command.goal
  let v ← view
  let hint ← orFail ((get v (.goalHead goal)).map (·.ownerId))
    (.constraintViolation "Goal work Goal head not found")
  let found ← discover permit.command.scope (endpoints req)
  let roles ← fencedRoles H permit.command.scope (ordered (hint :: sourceOwners found.2))
  lockGoalFootprint (goalRoutes found.2 ++ [(goal, hint)])
  let v ← view
  let head ← orFail (get v (.goalHead goal)) (.constraintViolation "Goal work Goal head not found")
  lock (.row (.goal head.t))
  let state ← orFail (goalState v goal head) (.constraintViolation "Goal work Goal head not found")
  failIf (head.ownerId ≠ permit.owner ∨ state ≠ .active)
    (.constraintViolation "Goal work Goal is not active or owner mismatched")
  failIf (head.ownerId ≠ hint) (.retryable "Goal owner changed while acquiring authority fences")
  let role ← roleForGoal permit.command.scope roles goal permit.command.controller
    head.authorityGeneration
  let rank := role.2.elim 0 (·.write.rank)
  let required := (access permit.kind).rank
  failIf (rank < required) (.constraintViolation
    ("Goal work write ceiling denied: rank=" ++ toString rank ++ " required=" ++ toString required))
  pure ⟨head.authorityGeneration, found.2, roles⟩

/-- Whether the series is bound to the Goal as work, under these generations. -/
def bound (v : Tables) (goal handle owner : Uuid) (sourceGeneration controllerGeneration : ℕ) :
    Bool :=
  (get v (.goalWorkBinding goal handle)).any fun w => w.sourceOwner = owner &&
    w.sourceGeneration = sourceGeneration && w.controllerGeneration = controllerGeneration

/-- A head that the Goal's owner has must be bound. -/
def seriesAdmitted (v : Tables) (goal handle owner : Uuid) (generation : ℕ) : Bool :=
  ((get v (.memoryHead handle)).filter (·.ownerId = owner)).all fun h =>
    bound v goal handle owner h.authorityGeneration generation

/-- A live version whose series is bound. -/
def revisionAdmitted (v : Tables) (goal prior owner : Uuid) (generation : ℕ) : Bool :=
  (get v (.memory prior)).any fun m => !m.forgotten &&
    (get v (.memoryHead m.handle)).any fun h => h.ownerId = owner &&
      bound v goal m.handle owner h.authorityGeneration generation

def validateGoalWorkTarget (req : AuthorRequest) (permit : GoalWorkPermit) (generation : ℕ) :
    Txn Unit :=
  match permit.target with
  | .series handle => do
    failIf (req.supersedes ≠ none ∨ req.memoryId ≠ handle)
      (.constraintViolation "Goal work series mismatch")
    let v ← view
    failIf (seriesAdmitted v permit.command.goal handle permit.owner generation = false) .notFound
  | .revision prior => do
    failIf (req.supersedes ≠ some prior) (.constraintViolation "Goal work revision mismatch")
    let v ← view
    failIf (revisionAdmitted v permit.command.goal prior permit.owner generation = false) .notFound

/-! ### Admission -/

/-- The series the request writes to. -/
def targetHandle (v : Tables) (req : AuthorRequest) : Option Uuid :=
  match req.supersedes with
  | some prior => ((ownedMemory v prior req.owner).filter (·.forgotten = false)).map (·.handle)
  | none => some req.memoryId

/-- The row that binds a series to the Goal when its head and the Goal's are admitted. -/
def workBinding (v : Tables) (goal handle subject : Uuid) (admits : MemoryHead → GoalHead → Bool) :
    Option GoalWorkBinding := do
  let mh ← get v (.memoryHead handle)
  let gh ← get v (.goalHead goal)
  if admits mh gh then
    some ⟨mh.ownerId, mh.authorityGeneration, gh.authorityGeneration, subject⟩
  else none

/-- `INSERT .. ON CONFLICT DO NOTHING` -/
def bindNewWork (goal handle owner subject : Uuid) : Txn Unit := do
  lock (.row (.goalWorkBinding goal handle))
  let v ← view
  match get v (.goalWorkBinding goal handle),
      workBinding v goal handle subject fun mh _ => mh.ownerId = owner with
  | none, some row => write [⟨.goalWorkBinding goal handle, some row⟩]
  | _, _ => pure ()

def isSeries : MemoryTarget → Bool
  | .series _ => true
  | .revision _ => false

/-- Admit the version `t`; the series it went to, or `none` when the request was answered
before. -/
def admitGoalWork (req : AuthorRequest) (permit : GoalWorkPermit) (t : Uuid) :
    Txn (Option Uuid) := do
  let v ← view
  let handle ← orFail (targetHandle v req)
    (.constraintViolation "supersedes target is not an owned entity of the same owner")
  let replay ← call fun x a => (x.replay, a)
  if replay then
    pure none
  else
    probe (.constraintViolation "admission refused")
    admitVersion H permit.owner handle t req.kind false
    if isSeries permit.target then
      bindNewWork permit.command.goal handle permit.owner permit.command.subject
    pure (some handle)

def authorWorkMemory (req : AuthorRequest) (permit : GoalWorkPermit) (t : Uuid) :
    Txn Response := do
  failIf (req.owner ≠ permit.owner ∨ req.kind ≠ permit.kind)
    (.constraintViolation "Goal work draft does not match its sealed destination")
  let authority ← prepareGoalWorkAuthority H req permit
  let scope := permit.command.scope
  -- retained pins, and the kinds of the new ones
  probe (.constraintViolation "pins refused")
  let _ ← revalidate authority.sources scope authority.roles (endpoints req)
  validateGoalWorkTarget req permit authority.generation
  let handle ← admitGoalWork H req permit t
  let checks ← revalidate authority.sources scope authority.roles (endpoints req)
  let role ← roleForGoal scope authority.roles permit.command.goal permit.command.controller
    authority.generation
  failIf (role.2.any (·.mayWrite (access permit.kind)) = false) .notFound
  pure (handle.elim .replayed fun handle => .admitted t handle (role.1 :: checks))

end Proxiima.Collaboration
