import Proxiima.Authz.Commands
import Proxiima.Blobs.Draining

/-!
# The upload lanes

Prepare, stage, finish and abort, the sweep of expired uploads and the erase, as processes that run
transactions and talk to the object store in between. Staging reads the bytes once, publishes what
it has read with a conditional PUT, and records the locator of what it has published or verified.
-/

namespace Proxiima.Blobs

open ReadCommitted Proc Authz

/-- The digests that the corpus records of an object. -/
structure Digests where
  blake3 : Bytes → Digest
  sha256 : Bytes → Digest

/-- The service of one object store. -/
structure CitedBlobStore extends Digests where
  storeId : ObjectStoreId
  maxBlobBytes : ℕ
  uploadTtlSeconds : ℕ

/-! ### Guards -/

def clock : Lane ℕ := do
  match ← request .clock with
  | .time t => pure t
  | _ => throw .db

/-- `begin_owner_tx`: the owners whose rows the transaction sees. -/
def beginOwnerTx (ctx : AuthzContext) : Lane (List Uuid) :=
  match ctx.scope with
  | none => throw (.state "owner scope required")
  | some scope => do
    let t ← clock
    pure (scope.readableOwners t .fact)

def ensureOwnerWriteAccess (ctx : AuthzContext) (owner : Uuid) : Lane Unit :=
  if ctx.mayWrite owner .fact then pure ()
  else throw (.denied "owner is not writable for this authorization context")

def validatePrepare (req : PrepareUpload) (maxBlobBytes : ℕ) : Except BlobError Unit := do
  if trim req.filename.toList = [] then throw (.state "filename is required")
  if req.filename.utf8ByteSize > 255 then throw (.state "filename exceeds 255 bytes")
  if trim req.mime.toList = [] then throw (.state "mime is required")
  if req.mime.utf8ByteSize > 127 then throw (.state "mime exceeds 127 bytes")
  if req.byteLen > 2 ^ 63 - 1 then throw (.state "byte_len exceeds Postgres bigint")
  if req.byteLen > maxBlobBytes then
    throw (.state ("byte_len " ++ toString req.byteLen ++ " exceeds max blob size " ++
      toString maxBlobBytes))

/-- `with_retried_tx`: run again while a failure looks like a transient conflict, at most three
times in all. Whether a database error looks so is given for each attempt. -/
def withRetriedTx {α : Type} (transient : ℕ → Bool) (op : Lane α) : ℕ → Lane α
  | 0 => op
  | n + 1 => do
    match ← (liftM op.run : Lane _) with
    | .ok a => pure a
    | .error e => if e = .db ∧ transient n then withRetriedTx transient op n else throw e

variable (s : CitedBlobStore)

/-! ### Reading objects -/

structure StreamedObject where
  blake3 : Digest
  sha256 : Digest
  byteLen : ℕ
  bytes : Bytes
  deriving DecidableEq

inductive LengthExpectation where
  | declared (n : ℕ)
  | capOnly
  deriving DecidableEq

inductive Retain where
  | bytes | digestsOnly
  deriving DecidableEq

/-- `hash_uploaded_object`: one byte past what is acceptable is read, so as to refuse it. -/
def hashUploadedObject (body : Bytes) (expected : LengthExpectation) (retain : Retain) :
    Except BlobError StreamedObject :=
  let ceiling := match expected with
    | .declared n => min n s.maxBlobBytes
    | .capOnly => s.maxBlobBytes
  let byteLen := min body.length (ceiling + 1)
  if byteLen > s.maxBlobBytes then
    .error (.state ("uploaded object exceeds max blob size " ++ toString s.maxBlobBytes))
  else
    match expected with
    | .declared n =>
      if byteLen ≠ n then
        .error (.state
          ("uploaded byte length " ++ toString byteLen ++ " does not match expected " ++
          toString n))
      else .ok ⟨s.blake3 body, s.sha256 body, byteLen, if retain = .bytes then body else []⟩
    | .capOnly => .ok ⟨s.blake3 body, s.sha256 body, byteLen, if retain = .bytes then body else []⟩

/-- `read_hashed_object`; nothing when the object is missing. -/
def readHashedObject (key : ObjectKey) (expected : LengthExpectation) (retain : Retain) :
    Lane (Option (StreamedObject × Option String)) := do
  match ← request (.get s.storeId key) with
  | .object bytes etag =>
    let streamed ← orThrow (hashUploadedObject s bytes expected retain)
    pure (some (streamed, etag))
  | .missing => pure none
  | .failed message => throw (.s3 ("read upload object failed: " ++ message))
  | _ => throw .db

def retainFor (source pending : ObjectKey) : Retain :=
  if source = pending then .bytes else .digestsOnly

def readStageSource (u : Uuid) (row : BlobUpload) :
    Lane (Option (StreamedObject × Option String)) :=
  readHashedObject s row.objectKey (.declared row.expectedByteLen)
    (retainFor row.objectKey (uploadTransferKey u))

def verifyCanonicalCandidate (candidate existing : StreamedObject) : Except BlobError Unit :=
  if candidate.blake3 ≠ existing.blake3 ∨ candidate.sha256 ≠ existing.sha256 ∨
      candidate.byteLen ≠ existing.byteLen then
    .error (.state "canonical object conflicts with staged bytes")
  else .ok ()

def isConditionalPublicationConflict (status : Option ℕ) (code : Option String) : Bool :=
  match status, code with
  | some 409, some "ConditionalRequestConflict" => true
  | some 412, some "PreconditionFailed" => true
  | some 412, none => true
  | none, some "ConditionalRequestConflict" => true
  | none, some "PreconditionFailed" => true
  | _, _ => false

def publishCanonical (key : ObjectKey) (candidate : StreamedObject) (body : Bytes) :
    Lane (ObjectKey × Option String) := do
  match ← request (.putIfNoneMatch s.storeId key body) with
  | .stored etag => pure (key, etag)
  | .refused status code =>
    if isConditionalPublicationConflict status code then
      match ← readHashedObject s key .capOnly .digestsOnly with
      | none => throw (.state "canonical object disappeared during conditional publication")
      | some (existing, etag) =>
        orThrow (verifyCanonicalCandidate candidate existing)
        pure (key, etag)
    else throw (.s3 "conditional canonical publication failed")
  | _ => throw .db

/-- Tidy up the transfer key, whatever comes of it. -/
def purgePendingUploadBestEffort (u : Uuid) : Lane Unit := do
  match ← request (.startDelete none s.storeId (uploadTransferKey u)) with
  | .started n =>
    let _ ← request (.endDelete n)
    pure ()
  | _ => pure ()

/-! ### Preparing -/

def prepareUpload (ctx : AuthzContext) (owner u : Uuid) (req : PrepareUpload) : Lane Unit := do
  orThrow (validatePrepare req s.maxBlobBytes)
  ensureOwnerWriteAccess ctx owner
  match ← request (.presign s.storeId u) with
  | .presigned =>
    let scope ← beginOwnerTx ctx
    tx (.prepare scope s.storeId owner u
        ⟨.ofList (trim req.filename.toList), .ofList (trim req.mime.toList), req.byteLen,
          s.uploadTtlSeconds⟩)
      fun _ => some ()
  | .failed message => throw (.s3 ("prepare upload URL failed: " ++ message))
  | _ => throw .db

/-! ### Staging -/

structure CitedBlobStaged where
  payload : UploadedBlobPayload
  alreadyCompleted : Option Uuid
  deriving DecidableEq

def terminalStatusMessage : UploadStatus → String
  | .aborted => "upload is aborted"
  | .expired => "upload is expired"
  | .completed | .pending => "upload has reached an unexpected terminal state"

def loadUploadScopedOptional (ctx : AuthzContext) (owner u : Uuid) : Lane (Option BlobUpload) := do
  let scope ← beginOwnerTx ctx
  tx (.loadUpload scope owner u) fun
    | .upload r => some r
    | _ => none

def loadUploadScoped (ctx : AuthzContext) (owner u : Uuid) : Lane BlobUpload := do
  match ← loadUploadScopedOptional ctx owner u with
  | some row => pure row
  | none => throw (.state "upload not found for Owner")

def loadStagedScoped (ctx : AuthzContext) (owner u blob : Uuid) : Lane CitedBlobStaged := do
  let scope ← beginOwnerTx ctx
  let payload ← tx (.loadStaged scope owner u blob) fun
    | .payload p => some p
    | _ => none
  pure ⟨payload, some blob⟩

/-- The two debts of a terminal upload. -/
def terminalUploadDebts (u : Uuid) : List ColdPurgeEntry :=
  [⟨uploadTransferKey u, s.storeId⟩, ⟨uploadedBlobObjectKey u, s.storeId⟩]

def purgeOwed (drain : ℕ) (owed : List ColdPurgeEntry) : Lane Unit :=
  liftM (purgeOwedAfterCommit drain s.storeId owed)

/-- The status a stage begins with: an upload whose time is over expires when it is touched. -/
def touchedStatus (drain : ℕ) (ctx : AuthzContext) (owner u : Uuid) (row : BlobUpload) :
    Lane UploadStatus := do
  let t ← clock
  if row.status = .pending ∧ row.expiresAt < t then
    let scope ← beginOwnerTx ctx
    let (status, owed) ← tx (.markExpired scope s.storeId owner u) fun
      | .expiry status owed => some (status, owed)
      | _ => none
    purgeOwed s drain owed
    pure status
  else pure row.status

/-- `stage_entry_shortcut`: nothing when staging goes on. -/
def stageEntryShortcut (drain : ℕ) (ctx : AuthzContext) (owner u : Uuid) (row : BlobUpload) :
    Lane (Option CitedBlobStaged) := do
  match ← touchedStatus s drain ctx owner u row with
  | .completed =>
    let blob ←
      if row.status = .pending ∧ row.blobId = none then
        BlobUpload.blobId <$> loadUploadScoped ctx owner u
      else pure row.blobId
    match blob with
    | none => throw (.state "completed upload is missing blob_id")
    | some blob =>
      purgePendingUploadBestEffort s u
      some <$> loadStagedScoped ctx owner u blob
  | .aborted =>
    purgePendingUploadBestEffort s u
    throw (.state (terminalStatusMessage .aborted))
  | .expired => throw (.state (terminalStatusMessage .expired))
  | .pending => pure none

/-- Where a stage goes on when the transfer key it expected is missing. -/
inductive StageSource where
  | replay (blob : Uuid)
  | terminal (status : UploadStatus)
  | read (row : BlobUpload)

/-- `resolve_missing_pending`; nothing when the row is gone. -/
def resolveMissingPending (ctx : AuthzContext) (owner u : Uuid) : Lane (Option StageSource) := do
  match ← loadUploadScopedOptional ctx owner u with
  | none => pure none
  | some row =>
    match row.status with
    | .completed =>
      match row.blobId with
      | none => throw (.state "completed upload is missing blob_id")
      | some blob => pure (some (.replay blob))
    | .aborted => pure (some (.terminal .aborted))
    | .expired => pure (some (.terminal .expired))
    | .pending =>
      if row.objectKey ≠ uploadTransferKey u then pure (some (.read row))
      else throw (.s3 "object not found")

/-- What a stage has read: the key, the object and its entity tag. -/
structure StageRead where
  key : ObjectKey
  streamed : StreamedObject
  etag : Option String

/-- The bytes of a stage, or the answer of an upload that needs none. -/
def stageBytes (drain : ℕ) (ctx : AuthzContext) (owner u : Uuid) (row : BlobUpload) :
    Lane (CitedBlobStaged ⊕ StageRead) := do
  match ← readStageSource s u row with
  | some (streamed, etag) => pure (.inr ⟨row.objectKey, streamed, etag⟩)
  | none =>
    if row.objectKey ≠ uploadTransferKey u then throw (.s3 "object not found")
    else
      match ← resolveMissingPending ctx owner u with
      | none =>
        purgePendingUploadBestEffort s u
        throw (.state "upload not found for Owner")
      | some (.replay blob) =>
        purgePendingUploadBestEffort s u
        .inl <$> loadStagedScoped ctx owner u blob
      | some (.terminal status) =>
        purgeOwed s drain (terminalUploadDebts s u)
        purgePendingUploadBestEffort s u
        throw (.state (terminalStatusMessage status))
      | some (.read reloaded) =>
        match ← readStageSource s u reloaded with
        | some (streamed, etag) => pure (.inr ⟨reloaded.objectKey, streamed, etag⟩)
        | none => throw (.s3 "object not found")

/-- The transaction of a stage. Where the row is gone, the transfer key is tidied up. -/
def commitStage (ctx : AuthzContext) (owner u : Uuid) (row : BlobUpload) (p : UploadedBlobPayload) :
    Lane StageLocatorDecision := do
  let scope ← beginOwnerTx ctx
  let committed ← tx (.stageLocator scope s.storeId owner u row.status p) fun
    | .stage c => some c
    | _ => none
  match committed with
  | .decided d => pure d
  | .erased =>
    purgePendingUploadBestEffort s u
    throw (.state "upload not found for Owner")

/-- `record_stage_locator`. -/
def recordStageLocator (drain : ℕ) (ctx : AuthzContext) (owner u : Uuid) (row : BlobUpload)
    (key : ObjectKey) (streamed : StreamedObject) (etag : Option String) (transient : ℕ → Bool) :
    Lane CitedBlobStaged := do
  let p : UploadedBlobPayload :=
    ⟨streamed.blake3, key, streamed.sha256, streamed.byteLen, row.mime, row.filename, etag⟩
  match ← withRetriedTx transient (commitStage s ctx owner u row p) 2 with
  | .staged =>
    purgePendingUploadBestEffort s u
    pure ⟨p, none⟩
  | .replay blob => loadStagedScoped ctx owner u blob
  | .repairTerminal status =>
    purgeOwed s drain (terminalUploadDebts s u)
    throw (.state (terminalStatusMessage status))

def stageUpload (drain : ℕ) (ctx : AuthzContext) (owner u : Uuid) (transient : ℕ → Bool) :
    Lane CitedBlobStaged := do
  ensureOwnerWriteAccess ctx owner
  let row ← loadUploadScoped ctx owner u
  match ← stageEntryShortcut s drain ctx owner u row with
  | some replay => pure replay
  | none =>
    match ← stageBytes s drain ctx owner u row with
    | .inl replay => pure replay
    | .inr read =>
      let (key, etag) ←
        if read.key = uploadTransferKey u then
          publishCanonical s (uploadedBlobObjectKey u) read.streamed read.streamed.bytes
        else pure (read.key, read.etag)
      recordStageLocator s drain ctx owner u row key read.streamed etag transient

/-! ### Finishing and aborting -/

def finishUpload (ctx : AuthzContext) (owner u blob : Uuid) (transient : ℕ → Bool) : Lane Unit := do
  ensureOwnerWriteAccess ctx owner
  withRetriedTx transient (do
    let scope ← beginOwnerTx ctx
    tx (.finish scope owner u blob) fun _ => some ()) 2
  purgePendingUploadBestEffort s u

/-- The corpus transaction of an upload's Fact. -/
def completeUpload (ctx : AuthzContext) (owner u : Uuid) (citation : Citation) : Lane Unit := do
  let scope ← beginOwnerTx ctx
  tx (.completeAsFact scope owner u citation) fun _ => some ()

def abortUpload (drain : ℕ) (ctx : AuthzContext) (owner u : Uuid) (transient : ℕ → Bool) :
    Lane Bool := do
  ensureOwnerWriteAccess ctx owner
  let committed ← withRetriedTx transient (do
    let scope ← beginOwnerTx ctx
    tx (.abort scope s.storeId owner u) fun
      | .abort c => some c
      | _ => none) 2
  match committed with
  | .settled aborted => pure aborted
  | .cleanUpThenAborted =>
    purgeOwed s drain (terminalUploadDebts s u)
    pure true
  | .decide status rows owed =>
    match ← orThrow (abortTransitionDecision status rows) with
    | .wonPending | .alreadyAborted =>
      purgeOwed s drain (if owed = [] then terminalUploadDebts s u else owed)
      pure true
    | .completed => pure false
    | .alreadyExpired => pure true

/-! ### Sweeping and erasing -/

/-- The uploads of a sweep, one transaction each. -/
def expireAll (candidates : List (Uuid × Uuid)) : Lane (List ColdPurgeEntry) :=
  match candidates with
  | [] => pure []
  | (owner, u) :: rest => do
    let owed ← tx (.expireOne s.storeId owner u) fun
      | .expired owed => some owed
      | _ => none
    let more ← expireAll rest
    pure (owed.getD [] ++ more)

/-- `sweep_expired_uploads`, without its count of what remains. -/
def sweepExpiredUploads (drain limit : ℕ) : Lane Unit := do
  let owed ←
    if limit > 0 then do
      let candidates ← tx (.sweepCandidates s.storeId limit) fun
        | .candidates rows => some rows
        | _ => none
      expireAll s candidates
    else pure []
  purgeOwed s drain owed

/-- The blob leg of an erase, with the purge of what it owes. -/
def eraseUploads (drain : ℕ) (owner : Uuid) (sel : Selection) : Lane Unit := do
  let owed ← tx (.eraseBlobs owner sel) fun
    | .owed entries => some entries
    | _ => none
  purgeOwed s drain owed

/-! ### The processes -/

/-- What may be started, any number of times. A purge may work off any plan. -/
inductive Program where
  | prepare (ctx : AuthzContext) (owner u : Uuid) (req : PrepareUpload)
  | stage (ctx : AuthzContext) (owner u : Uuid) (transient : ℕ → Bool)
  | complete (ctx : AuthzContext) (owner u : Uuid) (citation : Citation)
  | finish (ctx : AuthzContext) (owner u blob : Uuid) (transient : ℕ → Bool)
  | abort (ctx : AuthzContext) (owner u : Uuid) (transient : ℕ → Bool)
  | sweep (limit : ℕ)
  | oweEnded (owner implied : Uuid)
  | erase (owner : Uuid) (sel : Selection)
  | purge (cold : ObjectStoreId) (plan : List ColdPurgeEntry) (backoff : PurgeBackoff)
  | retry (cold : ObjectStoreId) (options : ColdPurgeRetryOptions)

/-- Run a lane for its effects. -/
def Lane.drop {α : Type} (p : Lane α) : Step Unit := do
  let _ ← p.run
  pure ()

/-- The process with this number. -/
def program (i : ℕ) : Program → Step Unit
  | .prepare ctx owner u req => (prepareUpload s ctx owner u req).drop
  | .stage ctx owner u transient => (stageUpload s i ctx owner u transient).drop
  | .complete ctx owner u citation => (completeUpload ctx owner u citation).drop
  | .finish ctx owner u blob transient => (finishUpload s ctx owner u blob transient).drop
  | .abort ctx owner u transient => (abortUpload s i ctx owner u transient).drop
  | .sweep limit => (sweepExpiredUploads s i limit).drop
  | .oweEnded owner implied => (tx (.oweEnded s.storeId owner implied) fun _ => some ()).drop
  | .erase owner sel => (eraseUploads s i owner sel).drop
  | .purge cold plan backoff => do
    let _ ← purgeColdObjectsWithBackoff i cold plan backoff
    pure ()
  | .retry cold options => (retryColdObjectPurges i cold options).drop

/-- The database, the object store and the processes between them. -/
def service (H : Hash) :
    Cluster Row Lock BlobError Input Unit Command Response Request Reply ObjectStore Choice
      Program where
  system := (blobs H).toSystem
  serve := serve
  drift := drift
  program := program s

end Proxiima.Blobs
