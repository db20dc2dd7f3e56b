import Proxiima.Memory.Commands

/-!
# Admitting a version

`memory_timeseries.rs`: an admission is prepared (replay lookup, fences, handle, expected
head, minted id), its handle and lifecycle targets are locked, its receipt or request key is
claimed, and then the head is advanced and the version inserted. A collision of minted ids
rolls the attempt back; `none` stands for it.
-/

namespace Proxiima.Memory

open ReadCommitted Prog

/-! ### Pins -/

def pushNew (ids : List Uuid) (id : Uuid) : List Uuid := if id ∈ ids then ids else ids ++ [id]

def pinMemoryIds (pins : List Endpoint) : Except StorageError (List Uuid) :=
  pins.foldlM (fun ids pin =>
    match pin with
    | .memory id => .ok (pushNew ids id)
    | .goal _ => .error (.constraintViolation "memory origins must target a Memory")) []

def pinReferenceIds (pins : List Endpoint) : List Uuid × List Uuid :=
  pins.foldl (fun ids pin =>
    match pin with
    | .memory id => (pushNew ids.1 id, ids.2)
    | .goal id => (ids.1, pushNew ids.2 id)) ([], [])

def validatedAdmissionKind (draft : FactWriteCommand) : Except StorageError MemoryKind :=
  if draft.sourceId.isSome ≠ draft.ingestKey.isSome then
    .error (.constraintViolation "source_id and ingest_key must both be set or both be absent")
  else if draft.kind ≠ .fact ∧ (draft.sourceId.isSome ∨ draft.ingestKey.isSome) then
    .error (.constraintViolation "A/P cannot carry source_id/ingest_key")
  else if draft.kind ≠ .fact ∧ draft.occurredAt.isSome then
    .error (.constraintViolation "A/P cannot carry occurred_at")
  else
    .ok draft.kind

structure Pins where
  kind : MemoryKind
  origins : List Uuid
  refs : List Uuid
  goalRefs : List Uuid
  deriving DecidableEq

/-- The pin columns of an admission: what a Fact declares as origins goes to its `refs`. -/
def MemoryAdmissionDraft.pins (a : MemoryAdmissionDraft) : Except StorageError Pins := do
  let kind ← validatedAdmissionKind a.draft
  let origins ← pinMemoryIds a.origins
  let (refs, goalRefs) := pinReferenceIds a.references
  if kind = .fact then
    pure ⟨kind, [], origins.foldl pushNew refs, goalRefs⟩
  else
    pure ⟨kind, origins, refs, goalRefs⟩

/-! ### Replay -/

/-- The row under `t` when it is the owner's, forgotten or not. -/
def ownedMemory (v : Tables) (owner t : Uuid) : Option MemoryRow :=
  (memoryOf v t).filter fun m => m.ownerId = owner

def loadIngestReplay (owner : Uuid) (source key : String) (refs goalRefs : List Uuid) :
    Tx (Option FactIngestOutcome) := do
  let v ← view
  match keyOf v owner (.named source) key with
  | none => pure none
  | some t =>
    let v ← view
    match ownedMemory v owner t with
    | none => fail (.internal s!"ingest key claims t {t} with no memory row")
    | some m =>
      failIf (m.refs ≠ refs ∨ m.goalRefs ≠ goalRefs) (.replayChanged .factRefs)
      pure (some ⟨t, m.handle, true, m.forgotten⟩)

inductive KeyVerdict where
  | fresh
  | replay (outcome : FactIngestOutcome)
  deriving DecidableEq

/-- No record: fresh; equal fingerprint: replay; other fingerprint: conflict. -/
def judge (stored : Option (FactIngestOutcome × Bool)) (key : List UInt8) :
    Except StorageError KeyVerdict :=
  match stored with
  | none => .ok .fresh
  | some (outcome, true) => .ok (.replay outcome)
  | some (outcome, false) => .error (.idempotencyConflict key outcome.memoryId)

inductive AdmissionReplay where
  | replay (outcome : FactIngestOutcome)
  | admitNew
  | reobserve (nextKey : String)
  deriving DecidableEq

/-- The newest admission of a re-observed payload is displaced: it is live, and its series
has another head. -/
def displaced (v : Tables) (owner : Uuid) (latest : FactIngestOutcome) : Bool :=
  match headOf v latest.handle, ownedMemory v owner latest.memoryId with
  | some head, some m => head.t ≠ latest.memoryId ∧ m.forgotten = false
  | _, _ => false

section Hashed

variable (H : Hashes)

def judgeRequest (owner : Uuid) (r : RequestKey) : Tx KeyVerdict := do
  let v ← view
  match keyOf v owner (.ledger r.scope) (r.requestRowKey H.blake3) with
  | none => liftExcept (judge none r.key)
  | some t =>
    let v ← view
    match ownedMemory v owner t with
    | none => fail (.internal s!"request key claims t {t} with no memory row")
    | some m =>
      let v ← view
      let fingerprintMatches : Bool :=
        keyOf v owner (.ledger r.scope) (r.fingerprintRowKey H.blake3) = some t
      liftExcept (judge (some (⟨t, m.handle, true, m.forgotten⟩, fingerprintMatches)) r.key)

/-- The replay key of re-observation `n` of `key`. -/
def reobservationKey (key : String) (n : ℕ) : String :=
  H.blake3 ("proxiima-reobservation-v1".toUTF8.toList ++ lengthBytes key.utf8ByteSize ++
    key.toUTF8.toList ++ lengthBytes n)

/-- Follow the re-observations of a key to the newest, for at most this many rounds. -/
def latestObservation (owner : Uuid) (source key : String) (refs goalRefs : List Uuid) :
    ℕ → ℕ → FactIngestOutcome → Tx AdmissionReplay
  | 0, _, _ => fail .canceled
  | rounds + 1, n, latest => do
    let nextKey := reobservationKey H key n
    match ← loadIngestReplay owner source nextKey refs goalRefs with
    | some outcome => latestObservation owner source key refs goalRefs rounds (n + 1) outcome
    | none =>
      let v ← view
      if displaced v owner latest then pure (.reobserve nextKey) else pure (.replay latest)

def replayDecision (a : MemoryAdmissionDraft) (pins : Pins) : Tx AdmissionReplay :=
  match a.draft.sourceId, a.draft.ingestKey with
  | some source, some key => do
    match ← loadIngestReplay a.owner source key pins.refs pins.goalRefs with
    | none => pure .admitNew
    | some replay =>
      if a.naturalKey.any (·.reobserveDisplaced) then
        let rounds ← choose
        latestObservation H a.owner source key pins.refs pins.goalRefs rounds 1 replay
      else
        pure (.replay replay)
  | _, _ => pure .admitNew

def decideAdmissionReplay (a : MemoryAdmissionDraft) (pins : Pins) : Tx AdmissionReplay :=
  match a.draft.request with
  | some request => do
    match ← judgeRequest H a.owner request with
    | .replay outcome => pure (.replay outcome)
    | .fresh => pure .admitNew
  | none => replayDecision H a pins

/-! ### Preparation -/

def fenceDeclaredScopes (owner : Uuid) (scopes : List (String × Uuid)) : Tx PUnit :=
  scopes.forM fun scope => do
    lock (H.shared (.scopeFence scope.1 owner scope.2))
    let registered ← probe
    failIf (registered = false) (.scopeMissing scope.1 scope.2)

def resolveNaturalSeriesHandle (owner : Uuid) (schemaId : String) (key : NaturalKey) :
    Tx (Option Uuid) := do
  lock (H.exclusive (.naturalSeries owner schemaId key.value))
  failIf (key.columns = [])
    (.constraintViolation "owned series-handle lookup requires at least one sidecar column")
  let v ← view
  let choice ← choose
  let handles := ownedHeads v owner schemaId key.value
  pure handles[choice % handles.length]?

/-- The handle, and whether it is a new one. -/
def admissionHandle (a : MemoryAdmissionDraft) (reserved : Option (Uuid × Uuid)) :
    Tx (Uuid × Bool) :=
  match (reserved.map Prod.fst).or a.draft.handle with
  | some handle => pure (handle, reserved.isSome)
  | none =>
    match a.naturalKey with
    | none => do
      let handle ← newMemoryUuid a.storeNumber
      pure (handle, true)
    | some key => do
      match ← resolveNaturalSeriesHandle H a.owner a.draft.schemaId key with
      | some handle => pure (handle, false)
      | none =>
        let handle ← newMemoryUuid a.storeNumber
        pure (handle, true)

/-- The anchor of a series; the lookup does not see a forgotten head. -/
def inheritedForkSource (source prior : Option Uuid) : Tx (Option Uuid) :=
  match source, prior with
  | some anchor, _ => pure (some anchor)
  | none, some head => do
    let v ← view
    pure (((memoryOf v head).filter fun m => m.forgotten = false).bind (·.forkedFrom))
  | none, none => pure none

def admissionT (storeNumber : ℕ) (identity : Option (Uuid × Uuid)) (expectedHeadT : Option Uuid) :
    Tx Uuid :=
  match identity, expectedHeadT with
  | some reserved, _ => pure reserved.2
  | none, some head => newMemoryUuidAfter storeNumber head
  | none, none => newMemoryUuid storeNumber

/-- `PreparedMemoryAdmissionNew` -/
structure Prepared where
  owner : Uuid
  draft : FactWriteCommand
  pins : Pins
  guidedBy : List Uuid
  sidecar : Option SidecarKey
  handle : Uuid
  freshHandle : Bool
  t : Uuid
  occurredAt : Option ℕ
  expectedHeadT : Option Uuid
  targets : List Uuid
  forkedFrom : Option Uuid
  deriving DecidableEq

inductive PreparedMemoryAdmission where
  | new (prepared : Prepared)
  | replay (outcome : FactIngestOutcome)
  deriving DecidableEq

/-- What is prepared for a handle, the head read for it, the fork anchor and the minted id. -/
def prepared (a : MemoryAdmissionDraft) (options : PreparationOptions) (pins : Pins)
    (reobservationKey : Option String) (handle : Uuid × Bool) (expectedHeadT : Option Uuid)
    (forkedFrom : Option Uuid) (t : Uuid) : Prepared where
  owner := a.owner
  draft := { a.draft with ingestKey := reobservationKey.or a.draft.ingestKey }
  pins := pins
  guidedBy := options.guidedBy
  sidecar := a.naturalKey.map NaturalKey.value
  handle := handle.1
  freshHandle := handle.2
  t := t
  occurredAt :=
    if pins.kind = .fact then some (a.draft.occurredAt.getD (timestampMillis t)) else none
  expectedHeadT := expectedHeadT
  targets := t :: expectedHeadT.toList ++ pins.origins ++ pins.refs ++ pins.goalRefs ++
    options.extraTargets ++ forkedFrom.toList ++ options.guidedBy
  forkedFrom := forkedFrom

/-- The part of the preparation after the replay lookup. -/
def prepareNew (a : MemoryAdmissionDraft) (options : PreparationOptions) (pins : Pins)
    (reobservationKey : Option String) : Tx PreparedMemoryAdmission := do
  lockOwnerFenceShared H a.owner
  a.draft.sourceId.toList.forM fun source => lockSourceFenceShared H a.owner (.named source)
  fenceDeclaredScopes H a.owner a.scopes
  let handle ← admissionHandle H a options.identity
  let v ← view
  let expectedHeadT := (headOf v handle.1).map (·.t)
  let forkedFrom ← inheritedForkSource options.forkedFrom expectedHeadT
  let t ← admissionT a.storeNumber options.identity expectedHeadT
  pure (.new (prepared a options pins reobservationKey handle expectedHeadT forkedFrom t))

def prepareMemoryAdmissionAt (a : MemoryAdmissionDraft) (options : PreparationOptions) :
    Tx PreparedMemoryAdmission := do
  let pins ← liftExcept a.pins
  match ← decideAdmissionReplay H a pins with
  | .replay outcome => pure (.replay outcome)
  | .admitNew => prepareNew H a options pins none
  | .reobserve nextKey => prepareNew H a options pins (some nextKey)

/-! ### Locking and claiming -/

def lockPreparedMemoryTargets (p : Prepared) : Tx PUnit := do
  lockOwnerFenceShared H p.owner
  p.draft.sourceId.toList.forM fun source => lockSourceFenceShared H p.owner (.named source)
  lockMemoryHandles H [p.handle]
  lockLifecycleTargets H p.targets

/-- The head this admission was prepared against must still be the head. -/
def validatePreparedMemoryHead (p : Prepared) : Tx Unit := do
  let head ← lockRow (V := Row) (.row (.head p.handle)) (.head p.handle)
  failIf (head.map (·.t) ≠ p.expectedHeadT)
    (.retryable "memory series head changed while preparing admission")

def lockAndValidatePreparedMemory (p : Prepared) : Tx Unit := do
  lockPreparedMemoryTargets H p
  validatePreparedMemoryHead p

/-- `INSERT INTO ingest_keys .. ON CONFLICT DO NOTHING` -/
def insertIngestKey (owner : Uuid) (source : SourceId) (key : String) (t : Uuid) : Tx Bool :=
  insertRow (V := Row) (.row (.ingestKey owner source key)) (.ingestKey owner source key) t

def claimRequest (owner : Uuid) (r : RequestKey) (t : Uuid) : Tx KeyVerdict := do
  lockSourceFenceShared H owner (.ledger r.scope)
  if ← insertIngestKey owner (.ledger r.scope) (r.requestRowKey H.blake3) t then
    let _ ← insertIngestKey owner (.ledger r.scope) (r.fingerprintRowKey H.blake3) t
    pure .fresh
  else
    judgeRequest H owner r

/-- Claim the request key, or else the receipt key; a replay when another write has it. -/
def claimPreparedMemoryAdmission (p : Prepared) : Tx (Option FactIngestOutcome) :=
  match p.draft.request with
  | some request => do
    match ← claimRequest H p.owner request p.t with
    | .fresh => pure none
    | .replay outcome => pure (some outcome)
  | none =>
    match p.draft.sourceId, p.draft.ingestKey with
    | some source, some key => do
      if ← insertIngestKey p.owner (.named source) key p.t then
        pure none
      else
        match ← loadIngestReplay p.owner source key p.pins.refs p.pins.goalRefs with
        | some replay => pure (some replay)
        | none => fail (.internal "ingest key conflict had no replay row")
    | _, _ => pure none

/-! ### Materializing -/

def Prepared.head (p : Prepared) : Head := ⟨p.pins.kind, p.draft.schemaId, p.owner, p.t⟩

def Prepared.row (p : Prepared) : MemoryRow where
  handle := p.handle
  kind := p.pins.kind
  ownerId := p.owner
  schemaId := p.draft.schemaId
  sourceId := p.draft.sourceId
  ingestKey := p.draft.ingestKey
  origins := p.pins.origins
  refs := p.pins.refs
  goalRefs := p.pins.goalRefs
  guidedBy := p.guidedBy
  occurredAt := p.occurredAt
  forkedFrom := p.forkedFrom
  sidecar := p.sidecar
  forgotten := false

/-- The columns of a head that no admission changes agree. -/
def Head.agrees (head head' : Head) : Prop :=
  head.kind = head'.kind ∧ head.schemaId = head'.schemaId ∧ head.ownerId = head'.ownerId

instance (head head' : Head) : Decidable (head.agrees head') :=
  inferInstanceAs (Decidable (_ ∧ _ ∧ _))

/-- Move the series head; `false` when a new handle is taken. -/
def advanceMemoryHead (p : Prepared) : Tx Bool :=
  if p.freshHandle then
    insertRow (V := Row) (.row (.head p.handle)) (.head p.handle) p.head
  else do
    lock (.row (.head p.handle))
    let v ← view
    match headOf v p.handle with
    | none =>
      write [⟨.head p.handle, some p.head⟩]
      pure true
    | some head =>
      failIf (¬ head.agrees p.head) (.constraintViolation "memory_head kind/schema/owner mismatch")
      write [⟨.head p.handle, some { head with t := p.t }⟩]
      pure true

/-- Append the version, after the trigger `memory_align_head`; `false` when its id is taken. -/
def insertMemoryRevision (p : Prepared) : Tx Bool := do
  let v ← view
  failIf (¬ ((headOf v p.handle).any fun head => head.agrees p.head))
    (.constraintViolation "memory kind/owner/schema must equal memory_head")
  insertRow (V := Row) (.row (.memory p.t)) (.memory p.t) p.row

/-- `materialize_prepared_memory_admission_after_locks` -/
def materializeAfterLocks (p : Prepared) : Tx (Option Response) := do
  validatePreparedMemoryHead p
  if ← advanceMemoryHead p then
    if ← insertMemoryRevision p then
      pure (some (.admitted ⟨p.t, p.handle, false, false⟩ p.expectedHeadT none))
    else
      pure none
  else
    pure none

def materializePreparedMemoryAdmission (p : Prepared) : Tx (Option Response) := do
  lockPreparedMemoryTargets H p
  materializeAfterLocks p

/-- Claim and materialize what has been prepared and locked; `again` when the caller has the
locks taken once more. -/
def claimAndMaterialize (p : Prepared) (again : Bool) : Tx (Option Response) := do
  match ← claimPreparedMemoryAdmission H p with
  | some outcome => pure (some (.replayed outcome))
  | none => if again then materializePreparedMemoryAdmission H p else materializeAfterLocks p

/-! ### Facts -/

def admitFact (a : MemoryAdmissionDraft) : Tx (Option Response) := do
  match ← prepareMemoryAdmissionAt H a {} with
  | .replay outcome => pure (some (.replayed outcome))
  | .new p =>
    lockAndValidatePreparedMemory H p
    claimAndMaterialize H p true

/-- One retry after a collision of ids, each attempt under a savepoint. -/
def retryCollision (body : Tx (Option Response)) : Tx Response :=
  attempt body <| attempt body <|
    fail (.constraintViolation "memory UUID collided again after one retry")

/-- The publication counter of the series, incremented. -/
def nextSeriesPosition (handle : Uuid) : Tx ℕ := do
  let v ← view
  match headOf v handle with
  | none =>
    fail (.constraintViolation
      "publication capture requires the series head its admission just wrote")
  | some head =>
    lock (.row (.counter handle))
    let v ← view
    let counter := ((counterOf v handle).map fun c => { c with sequence := c.sequence + 1 }).getD
      ⟨head.ownerId, 1⟩
    write [⟨.counter handle, some counter⟩]
    pure counter.sequence

def ingestCore (a : MemoryAdmissionDraft) (publish : Bool) : Tx Response := do
  match ← retryCollision (admitFact H a) with
  | .admitted outcome expectedHeadT _ =>
    if publish then
      let position ← nextSeriesPosition outcome.handle
      pure (.admitted outcome expectedHeadT (some position))
    else
      pure (.admitted outcome expectedHeadT none)
  | answer => pure answer

end Hashed

end Proxiima.Memory
