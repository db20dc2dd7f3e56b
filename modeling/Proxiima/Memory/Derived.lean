import Proxiima.Memory.Admission

/-!
# Derived versions, forks and lifecycle Facts

The other callers of the admission: `derive_append.rs` appends an Abstraction or Perspective
to the series it names or supersedes, `memory_fork.rs` copies a version into a new series of
another owner, and a Goal write records lifecycle Facts under ids it reserved.
-/

namespace Proxiima.Memory

open ReadCommitted Prog

/-! ### Derived replay -/

/-- Origins as the write path persists them. -/
def derivedOriginIds (pins : List Endpoint) : List Uuid :=
  pins.foldl (fun ids pin =>
    match pin with
    | .memory id => pushNew ids id
    | .goal _ => ids) []

def loadPinIds (t : Uuid) (column : MemoryRow → List Uuid) : Tx (List Uuid) := do
  let v ← view
  pure (((memoryOf v t).map column).getD [])

/-- The head of the series a derived write names, and whether it is forgotten. -/
def derivedReplayHead (v : Tables) (handle : Uuid) (d : DerivedDraft) (kind : MemoryKind) :
    Option (Uuid × Bool) :=
  match headOf v handle with
  | none => none
  | some head =>
    if head.ownerId = d.owner ∧ head.kind = kind ∧ head.schemaId = d.schemaId then
      (memoryOf v head.t).map fun m => (head.t, m.forgotten)
    else
      none

/-- `ORDER BY t DESC LIMIT 1` over the forgotten versions with these origins. -/
def forgottenVersion (v : Tables) (handle : Uuid) (d : DerivedDraft) (kind : MemoryKind)
    (origins : List Uuid) : Option Uuid :=
  (((versions v handle).filter fun p => p.2.ownerId = d.owner ∧ p.2.kind = kind ∧
    p.2.schemaId = d.schemaId ∧ p.2.forgotten ∧ p.2.origins = origins).map Prod.fst).max?

/-- The other pins of a version with the same origins: other references are refused, other
guidance is another write. -/
def sameDerivedPins (d : DerivedDraft) (t handle : Uuid) (forgotten : Bool) :
    Tx (Option FactIngestOutcome) := do
  let storedRefs ← loadPinIds t MemoryRow.refs
  let storedGoalRefs ← loadPinIds t MemoryRow.goalRefs
  let storedGuidedBy ← loadPinIds t MemoryRow.guidedBy
  let (refs, goalRefs) := pinReferenceIds d.references
  failIf (storedRefs ≠ refs ∨ storedGoalRefs ≠ goalRefs) (.replayChanged .derivedRefs)
  if storedGuidedBy ≠ d.guidedBy then
    pure none
  else
    pure (some ⟨t, handle, true, forgotten⟩)

def forgottenReplay (handle : Uuid) (d : DerivedDraft) (kind : MemoryKind) :
    Tx (Option FactIngestOutcome) := do
  let v ← view
  match forgottenVersion v handle d kind (derivedOriginIds d.origins) with
  | some t => sameDerivedPins d t handle true
  | none => pure none

def derivedReplayInLifecycle (handle : Uuid) (d : DerivedDraft) (kind : MemoryKind) :
    Tx (Option FactIngestOutcome) := do
  let v ← view
  match derivedReplayHead v handle d kind with
  | some (t, forgotten) =>
    let storedOrigins ← loadPinIds t MemoryRow.origins
    if storedOrigins = derivedOriginIds d.origins then
      sameDerivedPins d t handle forgotten
    else
      forgottenReplay handle d kind
  | none => forgottenReplay handle d kind

def tryDerivedReplay (handle : Uuid) (d : DerivedDraft) (kind : MemoryKind) :
    Tx (Option FactIngestOutcome) :=
  if d.supersedes.isSome then pure none else derivedReplayInLifecycle handle d kind

/-! ### Derived admission -/

def derivedKind (d : DerivedDraft) : Except StorageError MemoryKind :=
  match d.kind with
  | .memory kind => .ok kind
  | .goal => .error (.constraintViolation "derived write cannot be a Goal")

/-- The series a derived write appends to: that of the live version it supersedes, or the
one it names. -/
def derivedHandle (d : DerivedDraft) : Tx Uuid :=
  match d.supersedes with
  | none => pure d.memoryId
  | some prior => do
    let v ← view
    match (ownedMemory v d.owner prior).filter fun m => m.forgotten = false with
    | some m => pure m.handle
    | none =>
      fail (.constraintViolation "supersedes target is not an owned entity of the same owner")

def DerivedDraft.admission (d : DerivedDraft) (handle : Uuid) (kind : MemoryKind) :
    MemoryAdmissionDraft where
  storeNumber := d.storeNumber
  naturalKey := none
  owner := d.owner
  draft := ⟨d.schemaId, some handle, none, none, none, kind, d.request⟩
  origins := d.origins
  references := d.references
  scopes := d.scopes

section Hashed

variable (H : Hashes)

/-- What answers a derived write before it is prepared. -/
def derivedReplay (handle : Uuid) (d : DerivedDraft) (kind : MemoryKind) :
    Tx (Option FactIngestOutcome) :=
  match d.request with
  | some request => do
    match ← judgeRequest H d.owner request with
    | .replay outcome => pure (some outcome)
    | .fresh => pure none
  | none => tryDerivedReplay handle d kind

/-- The same probe under the locks; with a request key the claim decides. -/
def recheckDerivedReplay (handle : Uuid) (d : DerivedDraft) (kind : MemoryKind) :
    Tx (Option FactIngestOutcome) :=
  if d.request.isNone then tryDerivedReplay handle d kind else pure none

def admitDerived (d : DerivedDraft) : Tx (Option Response) := do
  let kind ← liftExcept (derivedKind d)
  let handle ← derivedHandle d
  match ← derivedReplay H handle d kind with
  | some replay => pure (some (.replayed replay))
  | none =>
    match ← prepareMemoryAdmissionAt H (d.admission handle kind)
        { extraTargets := d.supersedes.toList, guidedBy := d.guidedBy } with
    | .replay outcome => pure (some (.replayed outcome))
    | .new p =>
      lockAndValidatePreparedMemory H p
      match ← recheckDerivedReplay handle d kind with
      | some replay => pure (some (.replayed replay))
      | none => claimAndMaterialize H p true

def appendDerivedTimeseries (d : DerivedDraft) : Tx Response := retryCollision (admitDerived H d)

/-! ### Forks -/

/-- A copied pin must still have its row. -/
def copiedMemoryEndpoints (v : Tables) (ids : List Uuid) : Except StorageError (List Endpoint) :=
  ids.mapM fun id => if (memoryOf v id).isSome then .ok (.memory id) else .error .notFound

def ForkMemoryRequest.admission (q : ForkMemoryRequest) (m : MemoryRow)
    (origins references : List Endpoint) : MemoryAdmissionDraft where
  storeNumber := q.storeNumber
  naturalKey := none
  owner := q.targetOwner
  draft := ⟨m.schemaId, none, none, none, none, m.kind, some q.request⟩
  origins := origins
  references := references ++ m.goalRefs.map .goal
  scopes := q.scopes

/-- The version to fork, live, of the owner the fork was permitted for, and no Fact. -/
def loadForkSource (q : ForkMemoryRequest) : Tx MemoryRow := do
  let v ← view
  match (memoryOf v q.source).filter fun m => m.forgotten = false with
  | none => fail .notFound
  | some m =>
    failIf (m.ownerId ≠ q.sourceOwner) (.retryable "fork source owner changed")
    failIf (m.kind = .fact)
      (.constraintViolation "Facts are immutable admissions, not A/P forks")
    pure m

/-- Prepare, lock, claim and materialize under an identity reserved before. -/
def admitFork (q : ForkMemoryRequest) (m : MemoryRow) (origins references : List Endpoint) :
    Tx (Option Response) := do
  let identity ← newMemoryUuid q.storeNumber
  match ← prepareMemoryAdmissionAt H (q.admission m origins references)
      { identity := some (identity, identity), extraTargets := [q.source],
        forkedFrom := some q.source } with
  | .replay outcome => pure (some (.replayed outcome))
  | .new p =>
    lockAndValidatePreparedMemory H p
    claimAndMaterialize H p false

def forkMemory (q : ForkMemoryRequest) : Tx Response := do
  let m ← loadForkSource q
  let v ← view
  let origins ← liftExcept (copiedMemoryEndpoints v m.origins)
  let v ← view
  let references ← liftExcept (copiedMemoryEndpoints v m.refs)
  match ← admitFork H q m origins references with
  | some answer => pure answer
  | none => fail .memoryIdCollision

/-! ### Lifecycle Facts -/

def lifecycleAdmission (storeNumber : ℕ) (owner : Uuid) (schemaId : String) (handle : Uuid) :
    MemoryAdmissionDraft where
  storeNumber := storeNumber
  naturalKey := none
  owner := owner
  draft := ⟨schemaId, some handle, none, none, none, .fact, none⟩
  origins := []
  references := []
  scopes := []

/-- Reserve an identity, take the Goal's locks over it, and insert the Fact under them. -/
def ingestUnpinnedFactAt (storeNumber : ℕ) (owner : Uuid) (schemaId : String) :
    Tx (Option Response) := do
  let t ← newMemoryUuid storeNumber
  let handle ← newMemoryUuid storeNumber
  lockOwnerFenceShared H owner
  lockMemoryHandles H [handle]
  lockLifecycleTargets H [t]
  match ← prepareMemoryAdmissionAt H (lifecycleAdmission storeNumber owner schemaId handle)
      { identity := some (handle, t) } with
  | .replay outcome => pure (some (.replayed outcome))
  | .new p => claimAndMaterialize H p false

end Hashed

end Proxiima.Memory
