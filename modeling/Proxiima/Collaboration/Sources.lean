import Proxiima.Collaboration.Commands

/-!
# Source reads

A call that builds on memories first discovers them as its caller sees them, by an owner's
role or by a route through a Goal. Discovery only selects what to lock: the call looks again
under its locks, and each source must then be live and readable.
-/

namespace Proxiima.Collaboration

open ReadCommitted Authz Prog

structure EdgeEndpoint where
  kind : AccessKind
  id : Uuid
  deriving DecidableEq

/-- One source as the caller sees it, with the first Goal that gives a route to it. -/
structure Source where
  id : Uuid
  owner : Uuid
  kind : AccessKind
  route : Option (Uuid × Uuid)
  deriving DecidableEq

/-! ### What a session sees -/

def Session.readable (s : Session) : AccessKind → List Uuid
  | .fact => s.owner
  | .abstraction => s.readAbstraction
  | .perspective => s.readPerspective
  | .goal => s.readGoal

/-- The session of a scope at the clocks of the process and of the statement. -/
def scopeSession (scope : OwnerScope) (clock : ℕ × ℕ) : Session :=
  { bindOwnerScope scope clock.1 with now := clock.2 }

def routesTo (db : Tables) (s : Session) (t : Uuid) : List Route :=
  (goalMemoryReadRoutes db s).filter (·.memoryT = t)

/-- `ORDER BY goal_handle LIMIT 1` -/
def firstRoute (routes : List Route) : Option (Uuid × Uuid) :=
  (routes.argmin (·.goalHandle)).map fun r => (r.goalHandle, r.controllerOwner)

def memorySource (db : Tables) (s : Session) (t : Uuid) : Option Source := do
  let m ← get db (.memory t)
  if m.forgotten = false ∧
      (m.ownerId ∈ s.readable (access m.kind) ∨ routesTo db s t ≠ []) then
    some ⟨t, m.ownerId, access m.kind, firstRoute (routesTo db s t)⟩
  else none

/-- A guest of the Goal reads its versions under a grant up to Goals. -/
def goalReadAdmitted (db : Tables) (s : Session) (handle : Uuid) : Bool :=
  (get db (.goalHead handle)).any fun h => s.goalSubject.any fun subject =>
    (get db (.goalAccessGrant handle subject)).any fun a =>
      a.controllerGeneration = h.authorityGeneration && a.unexpired s.now && 4 ≤ a.role.read.rank

def goalSource (db : Tables) (s : Session) (t : Uuid) : Option Source := do
  let g ← get db (.goal t)
  if g.ownerId ∈ s.readGoal ∨ goalReadAdmitted db s g.handle = true then
    some ⟨t, g.ownerId, .goal, some (g.handle, g.ownerId)⟩
  else none

def endpointSources (db : Tables) (s : Session) (endpoints : List EdgeEndpoint) : List Source :=
  let ids (goal : Bool) := ordered ((endpoints.filter fun e => (e.kind = .goal) = goal).map (·.id))
  ((ids false).filterMap (memorySource db s) ++
    (ids true).filterMap (goalSource db s)).insertionSort
    (·.id ≤ ·.id)

/-! ### Discovery and revalidation -/

/-- Every endpoint is among the sources, with its kind. -/
def Complete (sources : List Source) (endpoints : List EdgeEndpoint) : Prop :=
  ∀ e ∈ endpoints, ∃ s ∈ sources, s.id = e.id ∧ s.kind = e.kind

instance (sources : List Source) (endpoints : List EdgeEndpoint) :
    Decidable (Complete sources endpoints) :=
  inferInstanceAs (Decidable (∀ e ∈ endpoints, ∃ s ∈ sources, s.id = e.id ∧ s.kind = e.kind))

/-- The sources, with the clocks they were found by. -/
def discover (scope : OwnerScope) (endpoints : List EdgeEndpoint) :
    Txn ((ℕ × ℕ) × List Source) := do
  let clock ← clocks
  failIf (scope.isExpired clock.1 = true)
    (.constraintViolation "authenticated owner scope has expired")
  let v ← view
  let sources := endpointSources v (scopeSession scope clock) endpoints
  failIf (¬ Complete sources endpoints) .notFound
  pure (clock, sources)

def sourceOwners (sources : List Source) : List Uuid :=
  sources.flatMap fun s => s.owner :: (s.route.map Prod.snd).toList

def goalRoutes (sources : List Source) : List (Uuid × Uuid) := sources.filterMap (·.route)

/-- Goals in the order in which their heads are locked. -/
def footprint (goals : List (Uuid × Uuid)) : List (Uuid × Uuid) :=
  (goals.insertionSort (·.1 ≤ ·.1)).dedup

/-- Lock one Goal head, which must have the expected owner. -/
def lockGoalHead (goal : Uuid × Uuid) : Txn Unit := do
  lock (.row (.goalHead goal.1))
  let v ← view
  failIf ((get v (.goalHead goal.1)).map (·.ownerId) ≠ some goal.2)
    (.retryable "source Goal authority footprint changed")

def lockGoalFootprint (goals : List (Uuid × Uuid)) : Txn Unit :=
  (footprint goals).forM lockGoalHead

/-- Whether the Goal role of the caller on this route may read the kind, and the clocks it was
judged by. -/
def routeRead (scope : OwnerScope) (roles : Uuid → Option Role) (kind : AccessKind) :
    Option (Uuid × Uuid) → Txn (List (ℕ × ℕ) × Bool)
  | none => pure ([], false)
  | some (goal, controller) => do
    let v ← view
    let head ← orFail (ownedGoalHead v goal controller)
      (.internal "no rows returned by a query that expected to return at least one row")
    let role ← roleForGoal scope roles goal controller head.authorityGeneration
    pure ([role.1], role.2.any (·.mayRead kind))

/-- A memory must still be live with its owner, and stays so. -/
def shareSource (s : Source) : Txn Unit :=
  if s.kind = .goal then pure ()
  else do
    lock (.share (.memory s.id))
    let v ← view
    failIf (((get v (.memory s.id)).filter (·.forgotten = false)).map (·.ownerId) ≠ some s.owner)
      .notFound

def checkSource (scope : OwnerScope) (roles : Uuid → Option Role) (s : Source) :
    Txn (List (ℕ × ℕ)) := do
  let clock ← clocks
  let goalRead ← routeRead scope roles s.kind s.route
  failIf ((currentRole clock.1 scope roles s.owner).any (·.mayRead s.kind) = false ∧
    goalRead.2 = false) .notFound
  shareSource s
  pure (clock :: goalRead.1)

def checkSources (scope : OwnerScope) (roles : Uuid → Option Role) :
    List Source → Txn (List (ℕ × ℕ))
  | [] => pure []
  | s :: sources => do
    let checks ← checkSource scope roles s
    let rest ← checkSources scope roles sources
    pure (checks ++ rest)

/-- Every source must be as it was discovered, and live and readable; the clocks this was
judged by. -/
def revalidate (sources : List Source) (scope : OwnerScope) (roles : Uuid → Option Role)
    (endpoints : List EdgeEndpoint) : Txn (List (ℕ × ℕ)) := do
  let current ← discover scope endpoints
  failIf (sources ≠ current.2) (.retryable "source read authority footprint changed")
  let checks ← checkSources scope roles sources
  pure (current.1 :: checks)

end Proxiima.Collaboration
