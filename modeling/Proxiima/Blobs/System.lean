import Proxiima.Blobs.Uploads

/-!
# The blob system

The commands of the transactions around uploads and debts, the rule by which each row changes and
the locks that guard the change. A row of an upload leaves pending once, a completed or ended one
keeps its status until it is erased, and every write of a debt is a new version of it.
-/

namespace Proxiima.Blobs

open ReadCommitted Prog

/-- `load_staged_payload_on_connection`: what a completed upload records. -/
def loadStagedPayload (scope : List Uuid) (owner u blob : Uuid) : Txn UploadedBlobPayload := do
  let v ← view
  match owned v scope owner u, get v (.blob blob) with
  | some r, some b =>
    failIf (¬ (r.status = .completed ∧ r.blobId = some blob ∧ b.ownerId = owner ∧
      b.schemaId = uploadedBlobSchemaId)) (.state "cited object not found for Owner")
    match r.sha256 with
    | none => fail (.state "completed upload has no sha256")
    | some sha256 =>
      failIf (r.completedAt = none) (.state "completed upload has no completion time")
      pure ⟨b.contentHash, r.objectKey, sha256, r.expectedByteLen, r.mime, r.filename, r.etag⟩
  | _, _ => fail (.state "cited object not found for Owner")

/-- The transactions. A drain numbers itself and the deletes it acknowledges. -/
inductive Command where
  | prepare (scope : List Uuid) (store : ObjectStoreId) (owner u : Uuid) (req : PrepareUpload)
  | loadUpload (scope : List Uuid) (owner u : Uuid)
  | loadStaged (scope : List Uuid) (owner u blob : Uuid)
  | markExpired (scope : List Uuid) (store : ObjectStoreId) (owner u : Uuid)
  | stageLocator (scope : List Uuid) (store : ObjectStoreId) (owner u : Uuid)
      (loaded : UploadStatus) (p : UploadedBlobPayload)
  | abort (scope : List Uuid) (store : ObjectStoreId) (owner u : Uuid)
  | finish (scope : List Uuid) (owner u blob : Uuid)
  | completeAsFact (scope : List Uuid) (owner u : Uuid) (citation : Citation)
  | sweepCandidates (store : ObjectStoreId) (limit : ℕ)
  | expireOne (store : ObjectStoreId) (owner u : Uuid)
  | oweEnded (store : ObjectStoreId) (owner implied : Uuid)
  | eraseBlobs (owner : Uuid) (sel : Selection)
  | observe (drain : ℕ) (store : ObjectStoreId) (key : ObjectKey)
  | clear (delete : ℕ) (store : ObjectStoreId) (key : ObjectKey) (version : ℕ)
  | recordFailure (delete : ℕ) (store : ObjectStoreId) (key : ObjectKey) (version : ℕ)
      (backoff : PurgeBackoff) (error : String)
  | dueKeys (store : ObjectStoreId) (batch : ℕ)

inductive Response where
  | done
  | upload (r : Option BlobUpload)
  | payload (p : UploadedBlobPayload)
  | expiry (status : UploadStatus) (owed : List ColdPurgeEntry)
  | stage (c : StageCommit)
  | abort (c : AbortCommit)
  | blob (b : Uuid)
  | candidates (rows : List (Uuid × Uuid))
  | expired (owed : Option (List ColdPurgeEntry))
  | flag (b : Bool)
  | owed (entries : List ColdPurgeEntry)
  | version (v : Option ℕ)
  | keys (keys : List ObjectKey)

def body (H : Hash) : Command → Txn Response
  | .prepare scope store owner u req => do
    prepare H scope store owner u req
    pure .done
  | .loadUpload scope owner u => do pure (.upload (← loadUploadOptional scope owner u))
  | .loadStaged scope owner u blob => do pure (.payload (← loadStagedPayload scope owner u blob))
  | .markExpired scope store owner u => do
    let (status, owed) ← markUploadExpired H scope store owner u
    pure (.expiry status owed)
  | .stageLocator scope store owner u loaded p => do
    pure (.stage (← commitStageLocator H scope store owner u loaded p))
  | .abort scope store owner u => do pure (.abort (← commitAbort H scope store owner u))
  | .finish scope owner u blob => do
    completeUploadInTx H scope owner u blob
    pure .done
  | .completeAsFact scope owner u citation => do
    pure (.blob (← completeUploadAsFact H scope owner u citation))
  | .sweepCandidates store limit => do pure (.candidates (← sweepCandidates store limit))
  | .expireOne store owner u => do pure (.expired (← expireOne H store owner u))
  | .oweEnded store owner implied => do pure (.flag (← oweEndedObject H store owner implied))
  | .eraseBlobs owner sel => do pure (.owed (← eraseBlobs H owner sel))
  | .observe _ store key => do pure (.version (← observeDebt store key))
  | .clear _ store key version => do pure (.flag (← clearColdPurgePending store key version))
  | .recordFailure _ store key version backoff error => do
    pure (.flag (← recordPurgeFailure store key version backoff error))
  | .dueKeys store batch => do pure (.keys (← dueKeys store batch))

/-! ### Rows and their rules -/

/-- The upload is over without a citation, or its row is gone. -/
def UploadSlot.ended : UploadSlot → Bool
  | row r => !r.status.live
  | erased _ => true

def Dead (db : Tables) (u : Uuid) : Prop := ∃ s, get db (.upload u) = some s ∧ s.ended = true

/-- What a transition leaves of a row. -/
inductive Transition (r r' : BlobUpload) : Prop where
  | stage (h : r.status = .pending) (h' : r'.status = .pending) (hash : r'.contentHash ≠ none)
  | complete (h : r.status = .pending) (h' : r'.status = .completed) (hash : r.contentHash ≠ none)
      (same : r'.contentHash = r.contentHash) (sha : r'.sha256 = r.sha256)
  | abort (h : r.status = .pending) (h' : r'.status = .aborted)
      (same : r'.contentHash = r.contentHash)
  | expire (h : r.status = .pending) (h' : r'.status = .expired) (hash : r.contentHash = none)
      (same : r'.contentHash = none)
  | repair (h : r.status.live = false) (h' : r'.status = r.status)
      (same : r'.contentHash = r.contentHash)

structure BlobUpload.Legal (r r' : BlobUpload) : Prop where
  owner : r'.ownerId = r.ownerId
  store : r'.objectStore = r.objectStore
  length : r'.expectedByteLen = r.expectedByteLen
  mount : r'.mountedFrom = r.mountedFrom
  transition : Transition r r'

/-- What a change can make of a row. -/
def legal : ∀ k, Option (Row k) → Option (Row k) → Prop
  | .upload _, none, some (.row r) => r.status = .pending ∧ r.contentHash = none ∧
      r.mountedFrom = none ∧ r.blobId = none
  | .upload _, some (.row r), some (.row r') => r.Legal r'
  | .upload _, some (.row r), some (.erased store) => store = r.objectStore
  | .upload _, _, _ => False
  | .blob _, none, some _ => True
  | .blob _, some _, none => True
  | .blob _, _, _ => False
  | .debt _ _, o, some s => s.stamp = stampOf o + 1
  | .debt _ _, _, none => False

/-- The locks under which a row changes, next to its own. -/
def guards (H : Hash) : ∀ k, Option (Row k) → Option (Row k) → List Lock
  | .upload _, none, some (.row r) => [ownerFence H r.ownerId false]
  | .upload _, some (.row r), some (.row r') =>
    if r'.blobId = r.blobId then [] else r'.blobId.toList.map fun b => .share (.blob b)
  | .upload u, some (.row r), some (.erased _) => [objectKeyLock H (.objects (r.minting u))]
  | .blob _, some b, none => [ownerFence H b.ownerId true]
  | _, _, _ => []

/-! ### What each command does -/

/-- Rows name their own object, or their transfer key. -/
def Valid (db : Tables) : Prop :=
  ∀ u r, upload db u = some r → r.mountedFrom = none ∧
    (r.objectKey = .objects u ∨ r.objectKey = .pending u)

/-- The upload whose locator a command records. -/
def Command.stages : Command → Option (Uuid × UploadedBlobPayload)
  | .stageLocator _ _ _ u _ p => some (u, p)
  | _ => none

/-- The store a command prepares an upload in. -/
def Command.prepares : Command → Option ObjectStoreId
  | .prepare _ store _ _ _ => some store
  | _ => none

/-- The debt a command acknowledges a delete of, with the version it has seen. -/
def Command.acknowledges : Command → Option (ObjectStoreId × ObjectKey × ℕ)
  | .clear _ store key version => some (store, key, version)
  | .recordFailure _ store key version _ _ => some (store, key, version)
  | _ => none

/-- What a command has to do with a row it changes. -/
def Changed (c : Command) (after : Tables) : ∀ k, Option (Row k) → Option (Row k) → Prop
  | .upload u, none, some (.row r) => r.objectKey = .pending u ∧ c.prepares = some r.objectStore
  | .upload u, some (.row r), some (.row r') =>
    (r'.objectKey = r.objectKey ∨ r'.objectKey = .objects u ∨
      ∃ p, c.stages = some (u, p) ∧ r'.objectKey = p.objectKey) ∧
    (r'.status = .pending → ∃ p, c.stages = some (u, p) ∧ r' = r.staged p) ∧
    (r'.status = .completed → r'.objectKey = .objects u ∧ ∃ b hash, r'.blobId = some b ∧
      r.contentHash = some hash ∧
      get after (.blob b) = some ⟨r.ownerId, uploadedBlobSchemaId, hash⟩)
  | .upload _, _, _ => True
  | .blob b, some _, none => ∀ u r, upload after u = some r → r.blobId ≠ some b
  | .blob _, _, _ => True
  | .debt store key, o, o' =>
    (∀ store' key' v, c.acknowledges = some (store', key', v) →
      store' = store ∧ key' = key ∧ v = stampOf o) ∧
    (debtOf o' = none → ∃ delete, c = .clear delete store key (stampOf o)) ∧
    (debtOf o = none → ∀ u, key = .objects u → Dead after u ∨
      ∃ u' p, c.stages = some (u', p) ∧ p.objectKey = key ∧ upload after u' = none)

/-- What an answer tells about the rows that were seen. -/
def Answered : Command → Response → (Tables → Prop) → Prop
  | .loadUpload _ _ u, .upload (some r), during =>
    ∃ d, during d ∧ get d (.upload u) = some (.row r)
  | .observe _ store key, .version (some v), during =>
    ∃ d, during d ∧ debt d store key ≠ none ∧ stampOf (get d (.debt store key)) = v
  | _, _, _ => True

def post (c : Command) (r : Response) (during : Tables → Prop) (before after : Tables) : Prop :=
  Answered c r during ∧ ((∀ d, during d → Valid d) → ∀ k, get after k = get before k ∨
    Changed c after k (get before k) (get after k))

def blobs (H : Hash) : Guarded Row Lock BlobError Input Unit Command Response where
  conflict := TableLock.conflict
  symm := TableLock.conflict_symm
  rowLock := .row
  row_conflict := TableLock.conflict_row_self
  body := body H
  legal := legal
  guards := guards H
  post := post

end Proxiima.Blobs
