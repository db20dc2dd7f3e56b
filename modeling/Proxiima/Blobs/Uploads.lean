import Proxiima.Blobs.Transactions

/-!
# The transitions of an upload

An upload is prepared, staged and completed, or it is aborted or expires. Every transition out of
pending is made under the row's lock and owes both keys of the upload when the upload ends without
being cited. A stage that lost to such a transition repairs the row and owes the keys again.
-/

namespace Proxiima.Blobs

open ReadCommitted Prog

/-- What `prepare_upload` records, next to the id it has minted. -/
structure PrepareUpload where
  filename : String
  mime : String
  byteLen : ℕ
  ttl : ℕ
  deriving DecidableEq

/-- `UploadedBlobPayload`: what staging found out about the bytes it published. -/
structure UploadedBlobPayload where
  contentHash : Digest
  objectKey : ObjectKey
  sha256 : Digest
  byteLen : ℕ
  mime : String
  filename : String
  etag : Option String
  deriving DecidableEq

inductive StageLocatorDecision where
  | staged
  | replay (blob : Uuid)
  | repairTerminal (status : UploadStatus)
  deriving DecidableEq

def stageLocatorDecision (observed : UploadStatus) (blob : Option Uuid) (rowsAffected : ℕ) :
    Except BlobError StageLocatorDecision :=
  match rowsAffected with
  | 1 =>
    if observed = .pending then .ok .staged
    else .error (.state "upload locator update affected a non-pending row")
  | 0 =>
    match observed with
    | .completed =>
      match blob with
      | some b => .ok (.replay b)
      | none => .error (.state "completed upload is missing blob_id")
    | .aborted => .ok (.repairTerminal .aborted)
    | .expired => .ok (.repairTerminal .expired)
    | .pending => .error (.state "upload locator update did not transition pending row")
  | n => .error (.state ("upload locator update affected " ++ toString n ++ " rows"))

inductive AbortTransitionDecision where
  | wonPending | completed | alreadyAborted | alreadyExpired
  deriving DecidableEq

def abortTransitionDecision (observed : UploadStatus) (rowsAffected : ℕ) :
    Except BlobError AbortTransitionDecision :=
  match rowsAffected with
  | 1 => .ok .wonPending
  | 0 =>
    match observed with
    | .completed => .ok .completed
    | .aborted => .ok .alreadyAborted
    | .expired => .ok .alreadyExpired
    | .pending => .error (.state "upload abort did not transition pending row")
  | n => .error (.state ("upload abort affected " ++ toString n ++ " rows"))

inductive FinishTransitionDecision where
  | wonPending | alreadyFinished
  deriving DecidableEq

def finishTransitionDecision (observed : UploadStatus) (observedBlob : Option Uuid) (blob : Uuid)
    (rowsAffected : ℕ) : Except StorageError FinishTransitionDecision :=
  match rowsAffected with
  | 1 =>
    if observed = .pending then .ok .wonPending
    else .error (.constraintViolation "upload finish transitioned a non-pending row")
  | 0 =>
    match observed with
    | .completed =>
      if observedBlob = some blob then .ok .alreadyFinished
      else .error (.constraintViolation "upload already completed against a different cited object")
    | .aborted => .error (.conflict "upload is aborted; prepare and stage the bytes again")
    | .expired => .error (.conflict "upload is expired; prepare and stage the bytes again")
    | .pending => .error (.constraintViolation "upload finish did not transition pending row")
  | n => .error (.constraintViolation ("upload finish affected " ++ toString n ++ " rows"))

/-- Raise the error of a decision. -/
def orRaise {α : Type} : Except BlobError α → Txn α
  | .ok a => pure a
  | .error e => fail e

/-! ### Rows after their transition -/

namespace BlobUpload

/-- The UPDATE of `commit_stage_locator`. -/
def staged (r : BlobUpload) (p : UploadedBlobPayload) : BlobUpload :=
  { r with
    objectKey := p.objectKey
    contentHash := some p.contentHash
    sha256 := some p.sha256
    etag := p.etag }

/-- The UPDATE of `repair_terminal_stage`: the locator of an ended upload. -/
def repaired (r : BlobUpload) (p : UploadedBlobPayload) : BlobUpload :=
  { r with objectKey := p.objectKey, sha256 := some p.sha256, etag := p.etag }

def expire (r : BlobUpload) : BlobUpload :=
  { r with status := .expired, errorMessage := some "upload expired" }

def abort (r : BlobUpload) (at' : ℕ) : BlobUpload :=
  { r with status := .aborted, abortedAt := some at' }

def complete (r : BlobUpload) (u blob : Uuid) (at' : ℕ) : BlobUpload :=
  { r with
    objectKey := uploadedBlobObjectKey u
    status := .completed
    blobId := some blob
    completedAt := some at' }

end BlobUpload

variable (H : Hash) (scope : List Uuid)

/-! ### Transactions -/

/-- The database half of `prepare_upload`. -/
def prepare (store : ObjectStoreId) (owner u : Uuid) (req : PrepareUpload) : Txn Unit := do
  lockOwnerFenceShared H owner
  let t ← now
  failIf (owner ∉ scope) .db
  lock (.row (.upload u))
  let v ← view
  failIf (get v (.upload u) ≠ none) .db
  writeUpload u
    { ownerId := owner
      objectStore := store
      objectKey := uploadTransferKey u
      filename := req.filename
      mime := req.mime
      expectedByteLen := req.byteLen
      status := .pending
      blobId := none
      sha256 := none
      etag := none
      errorMessage := none
      expiresAt := t + req.ttl
      completedAt := none
      abortedAt := none
      mountedFrom := none
      contentHash := none }

def loadUploadOptional (owner u : Uuid) : Txn (Option BlobUpload) := do
  let v ← view
  pure (owned v scope owner u)

/-- `mark_upload_expired_on_connection`. -/
def markUploadExpired (store : ObjectStoreId) (owner u : Uuid) :
    Txn (UploadStatus × List ColdPurgeEntry) := do
  lockFenceAndKeys H owner [uploadedBlobObjectKey u]
  match ← loadForUpdate scope owner u with
  | none => fail (.state "upload not found for Owner")
  | some r =>
    if r.status ≠ .pending then pure (r.status, [])
    else if r.contentHash ≠ none then pure (.pending, [])
    else
      writeUpload u r.expire
      let owed ← oweTerminalUploadKeys store owner u
      pure (.expired, owed)

/-- `resolve_erased_owner_row`, a transaction of its own in the platform's scope while this one
holds the locks of the key. -/
def resolveErasedOwnerRow (store : ObjectStoreId) (u : Uuid) (key : ObjectKey) : Txn Unit := do
  let t ← now
  let v ← view
  let stillReferenced := (uploads v).any fun (o, other) =>
    (other.objectKey = key && other.objectStore = store) || o = u || other.mountedFrom = some u
  if stillReferenced then pure ()
  else oweKey store none t key

/-- What the stage's transaction leaves to do: go on with a decision, or report a row that is
gone. -/
inductive StageCommit where
  | decided (d : StageLocatorDecision)
  | erased
  deriving DecidableEq

/-- `commit_stage_locator`, with `repair_terminal_stage`. -/
def commitStageLocator (store : ObjectStoreId) (owner u : Uuid) (loaded : UploadStatus)
    (p : UploadedBlobPayload) : Txn StageCommit := do
  lockFenceAndKeys H owner [p.objectKey]
  match ← loadForUpdate scope owner u with
  | some r =>
    if r.status = .pending then
      writeUpload u (r.staged p)
      let d ← orRaise (stageLocatorDecision loaded none 1)
      pure (.decided d)
    else
      match ← orRaise (stageLocatorDecision r.status r.blobId 0) with
      | .repairTerminal status =>
        writeUpload u (r.repaired p)
        let _ ← oweTerminalUploadKeys store owner u
        pure (.decided (.repairTerminal status))
      | d => pure (.decided d)
  | none =>
    resolveErasedOwnerRow store u p.objectKey
    pure .erased

/-- What the abort transaction committed. -/
inductive AbortCommit where
  | settled (aborted : Bool)
  | cleanUpThenAborted
  | decide (status : UploadStatus) (rowsAffected : ℕ) (owed : List ColdPurgeEntry)
  deriving DecidableEq

def commitAbort (store : ObjectStoreId) (owner u : Uuid) : Txn AbortCommit := do
  let t ← now
  lockFenceAndKeys H owner [uploadedBlobObjectKey u]
  match ← loadForUpdate scope owner u with
  | none => fail (.state "upload not found for Owner")
  | some r =>
    match r.status with
    | .completed => pure (.settled false)
    | .aborted => pure .cleanUpThenAborted
    | .expired => pure (.settled true)
    | .pending =>
      writeUpload u (r.abort t)
      let owed ← oweTerminalUploadKeys store owner u
      pure (.decide .pending 1 owed)

/-- `complete_upload_in_tx`. -/
def completeUploadInTx (owner u blob : Uuid) : Txn Unit := do
  let t ← now
  lockOwnerFenceShared H owner
  lockObjectKeys H [uploadedBlobObjectKey u]
  match ← loadForUpdate scope owner u with
  | none => fail (.state "upload not found for Owner")
  | some r =>
    if r.status ≠ .pending then
      let _ ← orRaise ((finishTransitionDecision r.status r.blobId blob 0).mapError (·.toBlobError))
      pure ()
    else
      match r.contentHash with
      | none => fail (.state "upload has no exact staged content identity; restage before finish")
      | some hash =>
        lock (.share (.blob blob))
        let v ← view
        failIf (get v (.blob blob) ≠ some ⟨owner, uploadedBlobSchemaId, hash⟩)
          (.state "cited object does not match the staged upload content identity")
        writeUpload u (r.complete u blob t)

/-- `require_staged_upload`: a live upload of the content wins over an ended one. -/
def requireStagedUpload (owner : Uuid) (hash : Digest) : Txn Unit := do
  let v ← view
  let rows := (uploads v).filter fun (_, r) =>
    r.ownerId = owner ∧ owner ∈ scope ∧ r.contentHash = some hash
  match (rows.filter (·.2.status.live)).head? <|> rows.head? with
  | none => fail (.state <|
      "uploaded-blob citation has no staged or completed upload of that content for this owner")
  | some (u, _) =>
    lock (.share (.upload u))
    let v ← view
    match (owned v scope owner u).map BlobUpload.status with
    | some .aborted =>
      fail (.storage (.conflict "upload is aborted; prepare and stage the bytes again"))
    | some .expired =>
      fail (.storage (.conflict "upload is expired; prepare and stage the bytes again"))
    | _ => pure ()

/-- `upsert_blob` of an uploaded-blob citation. -/
def upsertBlob (owner : Uuid) (hash : Digest) : Txn Uuid := do
  requireStagedUpload scope owner hash
  let v ← view
  let same := (live v).filterMap fun
    | .blob b => if get v (.blob b) = some ⟨owner, uploadedBlobSchemaId, hash⟩ then some b else none
    | _ => none
  match same.head? with
  | some b => pure b
  | none =>
    let b ← call fun x a => (x.fresh, a)
    lock (.row (.blob b))
    let v ← view
    failIf (get v (.blob b) ≠ none) .db
    write [⟨.blob b, some ⟨owner, uploadedBlobSchemaId, hash⟩⟩]
    pure b

/-- The object a Fact cites: a new citation of the content, or the one its replay finds. -/
inductive Citation where
  | inline (hash : Digest)
  | recorded (blob : Uuid)
  deriving DecidableEq

/-- The corpus transaction of an upload's Fact: its citation and the completion of the upload. -/
def completeUploadAsFact (owner u : Uuid) (citation : Citation) : Txn Uuid := do
  lockOwnerFenceShared H owner
  lockObjectKeys H [uploadedBlobObjectKey u]
  let blob ← match citation with
    | .inline hash => upsertBlob scope owner hash
    | .recorded blob => pure blob
  completeUploadInTx H scope owner u blob
  pure blob

/-- Pending, not staged, of this store and past its time. -/
def expirable (store : ObjectStoreId) (t : ℕ) (r : BlobUpload) : Bool :=
  r.status = .pending && r.contentHash = none && r.expiresAt < t && r.objectStore = store

def sweepCandidates (store : ObjectStoreId) (limit : ℕ) : Txn (List (Uuid × Uuid)) := do
  let t ← now
  let v ← view
  let rows := (uploads v).filter fun (_, r) => expirable store t r
  let sorted := rows.mergeSort fun a b =>
    a.2.expiresAt < b.2.expiresAt || (a.2.expiresAt = b.2.expiresAt && a.1 ≤ b.1)
  pure ((sorted.take limit).map fun (u, r) => (r.ownerId, u))

/-- `expire_one`: a row that another transaction holds is skipped. -/
def expireOne (store : ObjectStoreId) (owner u : Uuid) : Txn (Option (List ColdPurgeEntry)) := do
  let t ← now
  let busy ← call fun x a => (x.busy, a)
  lockFenceAndKeys H owner [uploadedBlobObjectKey u]
  if busy then pure none
  else
    lock (.row (.upload u))
    let v ← view
    match upload v u with
    | none => pure none
    | some r =>
      if r.ownerId = owner ∧ expirable store t r then
        writeUpload u r.expire
        let owed ← oweTerminalUploadKeys store owner u
        pure (some owed)
      else pure none

/-- The transaction of `owe_ended_objects` for the object of the upload `implied`: owed when only
ended rows imply it and nobody owes it yet. -/
def oweEndedObject (store : ObjectStoreId) (owner implied : Uuid) : Txn Bool := do
  let t ← now
  lockFenceAndKeys H owner [uploadedBlobObjectKey implied]
  lock (.row (.debt store (uploadedBlobObjectKey implied)))
  let v ← view
  let implies (u : Uuid) (r : BlobUpload) : Bool :=
    r.objectStore = store &&
      ((u = implied && r.mountedFrom = none) || r.mountedFrom = some implied)
  let ended := (uploads v).any fun (u, r) => r.ownerId = owner && !r.status.live && implies u r
  let live := (uploads v).any fun (u, r) => r.status.live && implies u r
  let slot := get v (.debt store (uploadedBlobObjectKey implied))
  if ended ∧ live = false ∧ debtOf slot = none then
    write [⟨.debt store (uploadedBlobObjectKey implied), some (owe slot (some owner) t)⟩]
    pure true
  else pure false

/-! ### Erasing rows -/

/-- The rows an erase selects: all of the owner's, or those of blobs that nothing cites. -/
inductive Selection where
  | owner
  | blobs (ids : List Uuid)
  deriving DecidableEq

def Selection.uploads (s : Selection) (owner : Uuid) (r : BlobUpload) : Bool :=
  match s with
  | .owner => r.ownerId = owner
  | .blobs ids => r.blobId.any (· ∈ ids)

def Selection.holds (s : Selection) (blob : Uuid) : Bool :=
  match s with
  | .owner => true
  | .blobs ids => blob ∈ ids

/-- The blobs of the selection that are the owner's. -/
def Selection.blobRows (s : Selection) (owner : Uuid) (v : Tables) : List Uuid :=
  (live v).filterMap fun
    | .blob b => (get v (.blob b)).bind fun row =>
      if row.ownerId = owner ∧ s.holds b then some b else none
    | _ => none

/-- `enqueue_blob_object_keys` and the same join in `gc_unreferenced_blobs`: every key that a
selected row implies and no other row does, once for each store. -/
def orphanedKeys (v : Tables) (selected : Uuid → BlobUpload → Bool) :
    List (ObjectStoreId × ObjectKey × Uuid) :=
  ((uploads v).filter fun (u, r) => selected u r).flatMap fun (u, r) =>
    ((impliedKeys u r).filter fun k =>
      !(uploads v).any
        fun (o, other) => !selected o other && otherImplies r.objectStore k o other).map
        fun k => (r.objectStore, k.1, r.ownerId)

def distinctKeys (owed : List (ObjectStoreId × ObjectKey × Uuid)) :
    List (ObjectStoreId × ObjectKey × Uuid) :=
  owed.pwFilter fun a b => a.1 ≠ b.1 ∨ a.2.1 ≠ b.2.1

/-- The rows an erase takes once it has locked its blobs: the owner's, or those of the blobs. -/
def Selection.chosen (sel : Selection) (ids : List Uuid) : Selection :=
  match sel with
  | .owner => .owner
  | .blobs _ => .blobs ids

/-- Owe what the chosen rows of `v` alone imply, and delete them and the blobs. -/
def eraseRows (owner : Uuid) (chosen : Selection) (ids : List Uuid) (t : ℕ) (v : Tables) :
    Txn (List ColdPurgeEntry) := do
  let rows := (uploads v).filter fun (_, r) => chosen.uploads owner r
  let owed := distinctKeys (orphanedKeys v fun _ r => chosen.uploads owner r)
  owed.forM fun (store, key, o) => oweKey store (some o) t key
  write (rows.map fun (u, r) => ⟨.upload u, some (.erased r.objectStore)⟩)
  write (ids.map fun b => ⟨.blob b, none⟩)
  -- the foreign key from uploads to blobs
  let v ← view
  failIf ((uploads v).any fun (_, r) => r.blobId.any (· ∈ ids)) .db
  pure (owed.map fun (store, key, _) => ⟨key, store⟩)

/-- The blob leg of an erase, under the owner's exclusive fence: the keys of the selected rows are
locked, what they alone imply is owed, and the rows are deleted. -/
def eraseBlobs (owner : Uuid) (sel : Selection) : Txn (List ColdPurgeEntry) := do
  lock (ownerFence H owner true)
  let t ← now
  (match sel with
    | .owner => pure ⟨⟩
    | .blobs ids => (ids.map fun b => (.row (.blob b) : Lock)).forM fun l => lock l)
  let v ← view
  let ids := sel.blobRows owner v
  let chosen := sel.chosen ids
  lockObjectKeys H <| ((uploads v).filter fun (_, r) => chosen.uploads owner r).flatMap
    fun (u, r) =>
    [r.objectKey, uploadedBlobObjectKey (r.minting u)]
  let v ← view
  eraseRows owner chosen ids t v

end Proxiima.Blobs
