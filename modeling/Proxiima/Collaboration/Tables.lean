import Proxiima.Authz.Context
import Proxiima.Memory.Tables

/-!
# Goal collaboration: tables and read routes

A Goal has an audience: the subjects it has granted access and those with a role on its
owner. A version of a memory series is published to a Goal by its owner, and a whole series
is bound to a Goal as work. Each of these rows stores the authority generations of the two
heads it was recorded under; a route opens only while they are the current ones.
-/

namespace Proxiima.Collaboration

open ReadCommitted Authz

inductive GoalState where
  | active | paused | achieved | abandoned
  deriving DecidableEq

inductive PublicationUse where
  | read | fork
  deriving DecidableEq

inductive Key where
  | memoryHead (handle : Uuid)
  | memory (t : Uuid)
  | goalHead (handle : Uuid)
  | goal (t : Uuid)
  /-- The role a subject holds on another owner, as the membership tables make it. -/
  | role (subject owner : Uuid)
  | goalAccessGrant (goal subject : Uuid)
  | goalMemoryPublication (goal memory : Uuid)
  | goalWorkBinding (goal handle : Uuid)
  deriving DecidableEq

structure MemoryHead where
  kind : Memory.MemoryKind
  ownerId : Uuid
  authorityGeneration : ℕ
  deriving DecidableEq

structure MemoryRow where
  handle : Uuid
  ownerId : Uuid
  kind : Memory.MemoryKind
  forgotten : Bool
  deriving DecidableEq

structure GoalHead where
  ownerId : Uuid
  t : Uuid
  authorityGeneration : ℕ
  deriving DecidableEq

structure GoalRow where
  handle : Uuid
  ownerId : Uuid
  state : GoalState
  deriving DecidableEq

structure GoalAccessGrant where
  role : Role
  controllerGeneration : ℕ
  expiresAt : Option ℕ
  grantedBy : Uuid
  deriving DecidableEq

structure GoalMemoryPublication where
  sourceOwner : Uuid
  sourceGeneration : ℕ
  controllerGeneration : ℕ
  permittedUse : PublicationUse
  publishedBy : Uuid
  deriving DecidableEq

structure GoalWorkBinding where
  sourceOwner : Uuid
  sourceGeneration : ℕ
  controllerGeneration : ℕ
  boundBy : Uuid
  deriving DecidableEq

abbrev Row : Key → Type
  | .memoryHead _ => MemoryHead
  | .memory _ => MemoryRow
  | .goalHead _ => GoalHead
  | .goal _ => GoalRow
  | .role _ _ => Role
  | .goalAccessGrant _ _ => GoalAccessGrant
  | .goalMemoryPublication _ _ => GoalMemoryPublication
  | .goalWorkBinding _ _ => GoalWorkBinding

abbrev Tables := Log Row

def access : Memory.MemoryKind → AccessKind
  | .fact => .fact
  | .abstraction => .abstraction
  | .perspective => .perspective

def GoalAccessGrant.unexpired (a : GoalAccessGrant) (now : ℕ) : Bool :=
  a.expiresAt.all (now < ·)

/-! ### The session of a reader -/

/-- The settings that `bind_owner_scope` makes, and the time of the statement. -/
structure Session where
  goalSubject : Option Uuid
  owner : List Uuid
  readAbstraction : List Uuid
  readPerspective : List Uuid
  readGoal : List Uuid
  now : ℕ

def bindOwnerScope (scope : OwnerScope) (now : ℕ) : Session where
  goalSubject := scope.goalPrincipal.map (·.subject)
  owner := scope.readableOwners now .fact
  readAbstraction := scope.readableOwners now .abstraction
  readPerspective := scope.readableOwners now .perspective
  readGoal := scope.readableOwners now .goal
  now := now

def Session.ceiling (s : Session) (owner : Uuid) : ℕ :=
  if owner ∈ s.readGoal then 4
  else if owner ∈ s.readPerspective then 3
  else if owner ∈ s.readAbstraction then 2
  else 1

/-! ### Routes -/

structure Audience where
  goalHandle : Uuid
  readCeiling : ℕ
  ownerId : Uuid
  authorityGeneration : ℕ
  deriving DecidableEq

structure Route where
  memoryT : Uuid
  memoryHandle : Uuid
  ownerId : Uuid
  goalHandle : Uuid
  controllerOwner : Uuid
  deriving DecidableEq

/-- The ways in which the session belongs to the audience of a Goal. -/
def audienceRoutes (db : Tables) (s : Session) : List Audience :=
  (live db).filterMap fun
    | .goalAccessGrant goal subject => do
      let a ← get db (.goalAccessGrant goal subject)
      let h ← get db (.goalHead goal)
      if h.authorityGeneration = a.controllerGeneration ∧ s.goalSubject = some subject ∧
          a.unexpired s.now = true then
        some ⟨goal, a.role.read.rank, h.ownerId, h.authorityGeneration⟩
      else none
    | .goalHead handle => do
      let h ← get db (.goalHead handle)
      if s.goalSubject ≠ none ∧ h.ownerId ∈ s.owner then
        some ⟨handle, s.ceiling h.ownerId, h.ownerId, h.authorityGeneration⟩
      else none
    | _ => none

/-- The audiences the session belongs to, each with the highest ceiling of its ways in. -/
def audience (db : Tables) (s : Session) : List Audience :=
  let routes := audienceRoutes db s
  (routes.map fun a =>
    { a with
      readCeiling := ((routes.filter fun b => b.goalHandle = a.goalHandle ∧
        b.ownerId = a.ownerId ∧ b.authorityGeneration = a.authorityGeneration).map
          (·.readCeiling)).foldr max 0 }).dedup

def published (db : Tables) (a : Audience) : List Route :=
  (live db).filterMap fun
    | .goalMemoryPublication goal t => do
      let p ← get db (.goalMemoryPublication goal t)
      let m ← get db (.memory t)
      let mh ← get db (.memoryHead m.handle)
      if goal = a.goalHandle ∧ p.controllerGeneration = a.authorityGeneration ∧
          m.ownerId = p.sourceOwner ∧ mh.ownerId = m.ownerId ∧
          mh.authorityGeneration = p.sourceGeneration ∧ m.forgotten = false ∧
          (access m.kind).rank ≤ a.readCeiling then
        some ⟨t, m.handle, m.ownerId, goal, a.ownerId⟩
      else none
    | _ => none

def working (db : Tables) (a : Audience) : List Route :=
  (live db).filterMap fun
    | .memory t => do
      let m ← get db (.memory t)
      let mh ← get db (.memoryHead m.handle)
      let w ← get db (.goalWorkBinding a.goalHandle m.handle)
      if w.controllerGeneration = a.authorityGeneration ∧ w.sourceOwner = a.ownerId ∧
          mh.ownerId = w.sourceOwner ∧ mh.authorityGeneration = w.sourceGeneration ∧
          m.ownerId = mh.ownerId ∧ m.forgotten = false ∧
          (access m.kind).rank ≤ a.readCeiling then
        some ⟨t, m.handle, m.ownerId, a.goalHandle, a.ownerId⟩
      else none
    | _ => none

def goalMemoryReadRoutes (db : Tables) (s : Session) : List Route :=
  ((audience db s).flatMap fun a => published db a ++ working db a).dedup

end Proxiima.Collaboration
