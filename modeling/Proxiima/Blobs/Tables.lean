import Proxiima.Authz.Context
import Proxiima.ReadCommitted.Guards

/-!
# Uploads, cited blobs and purge debts: tables

An upload puts bytes under its transfer key; staging publishes them under the canonical key and
records them on the upload's row, and completion attaches the row to a cited blob. The objects a
deleted or ended upload leaves behind are owed to the object store that holds them: one purge
debt for each key and store.
-/

namespace Proxiima.Blobs

open ReadCommitted

/-- The identity of an object store, as rows record it. -/
abbrev ObjectStoreId := String

/-- A digest of 32 bytes. -/
abbrev Digest := BitVec 256

abbrev Bytes := List UInt8

/-- Object keys are derived from upload ids: `objects/<id>` and `pending/<id>`. -/
inductive ObjectKey where
  | objects (upload : Uuid)
  | pending (upload : Uuid)
  deriving DecidableEq

def ObjectKey.text : ObjectKey → String
  | objects u => "objects/" ++ toString u
  | pending u => "pending/" ++ toString u

/-- The order of the texts: uuids compare by text as by number. -/
def ObjectKey.le : ObjectKey → ObjectKey → Bool
  | objects u, objects u' => u ≤ u'
  | pending u, pending u' => u ≤ u'
  | objects _, pending _ => true
  | pending _, objects _ => false

def uploadedBlobObjectKey (upload : Uuid) : ObjectKey := .objects upload

def uploadTransferKey (upload : Uuid) : ObjectKey := .pending upload

inductive UploadStatus where
  | pending | completed | aborted | expired
  deriving DecidableEq

/-- An upload that a Fact may still cite, or that one cites. -/
def UploadStatus.live : UploadStatus → Bool
  | pending | completed => true
  | aborted | expired => false

structure BlobUpload where
  ownerId : Uuid
  objectStore : ObjectStoreId
  objectKey : ObjectKey
  filename : String
  mime : String
  expectedByteLen : ℕ
  status : UploadStatus
  blobId : Option Uuid
  sha256 : Option Digest
  etag : Option String
  errorMessage : Option String
  expiresAt : ℕ
  completedAt : Option ℕ
  abortedAt : Option ℕ
  mountedFrom : Option Uuid
  contentHash : Option Digest
  deriving DecidableEq

/-- What the id of an upload stands for. Ids are minted once, so an erased row leaves its id
behind. -/
inductive UploadSlot where
  | row (r : BlobUpload)
  | erased (objectStore : ObjectStoreId)
  deriving DecidableEq

structure Blob where
  ownerId : Uuid
  schemaId : String
  contentHash : Digest
  deriving DecidableEq

def uploadedBlobSchemaId : String := "core/uploaded-blob-v1"

structure ColdPurgePending where
  ownerId : Option Uuid
  enqueuedAt : ℕ
  attempts : ℕ
  nextAttemptAt : ℕ
  lastAttemptAt : Option ℕ
  lastError : Option String
  deriving DecidableEq

/-- The debt for a key. PostgreSQL stamps each version of a row that it writes (`xmin`, `ctid`);
here the stamp counts the writes under the key, deletions included. -/
structure DebtSlot where
  stamp : ℕ
  row : Option ColdPurgePending
  deriving DecidableEq

inductive Key where
  | upload (id : Uuid)
  | blob (id : Uuid)
  | debt (store : ObjectStoreId) (key : ObjectKey)
  deriving DecidableEq

abbrev Row : Key → Type
  | .upload _ => UploadSlot
  | .blob _ => Blob
  | .debt _ _ => DebtSlot

abbrev Tables := Log Row

def upload (db : Tables) (u : Uuid) : Option BlobUpload :=
  match get db (.upload u) with
  | some (.row r) => some r
  | _ => none

variable {db : Tables} {u : Uuid} {r : BlobUpload}

lemma upload_eq_some : upload db u = some r ↔ get db (.upload u) = some (.row r) := by
  unfold upload
  split <;> simp_all

/-- The ids of the uploads that have a row. -/
def uploads (db : Tables) : List (Uuid × BlobUpload) :=
  (live db).filterMap fun
    | .upload u => (upload db u).map (u, ·)
    | _ => none

lemma mem_uploads : (u, r) ∈ uploads db ↔ upload db u = some r := by
  simp only [uploads, List.mem_filterMap]
  constructor
  · rintro ⟨k, -, hk⟩
    split at hk
    · obtain ⟨r', hr', heq⟩ := Option.map_eq_some_iff.1 hk
      obtain ⟨rfl, rfl⟩ := Prod.mk.inj heq
      exact hr'
    · cases hk
  · intro h
    refine ⟨.upload u, mem_live.2 ?_, by simp [h]⟩
    rw [upload_eq_some.1 h]
    rfl

/-- The row of an upload of this owner, to a transaction that sees the rows of `scope`. -/
def owned (db : Tables) (scope : List Uuid) (owner u : Uuid) : Option BlobUpload :=
  (upload db u).filter fun r => r.ownerId = owner ∧ owner ∈ scope

lemma owned_eq_some {scope : List Uuid} {owner : Uuid} :
    owned db scope owner u = some r ↔
      get db (.upload u) = some (.row r) ∧ r.ownerId = owner ∧ owner ∈ scope := by
  simp [owned, upload_eq_some, Option.filter_eq_some_iff]

/-! ### The keys an upload implies -/

/-- The upload whose object holds the bytes of a row. -/
def BlobUpload.minting (r : BlobUpload) (u : Uuid) : Uuid := r.mountedFrom.getD u

/-- Why a row implies a key, with the id the key is made of. -/
inductive KeyKind where
  | objects (id : Uuid)
  | pending (id : Uuid)
  | recorded
  deriving DecidableEq

/-- `upload_implied_keys_sql`: the object, the transfer key unless the row is a mount, and the
recorded key when it is neither. -/
def impliedKeys (u : Uuid) (r : BlobUpload) : List (ObjectKey × KeyKind) :=
  (.objects (r.minting u), .objects (r.minting u)) ::
    ((if r.mountedFrom = none then [(.pending u, .pending u)] else []) ++
      if r.objectKey ≠ .objects (r.minting u) ∧ r.objectKey ≠ .pending u then
        [(r.objectKey, .recorded)]
      else [])

/-- `other_upload_implies_key_sql`: the row `other` implies the key in this store. -/
def otherImplies (store : ObjectStoreId) (k : ObjectKey × KeyKind) (o : Uuid)
    (other : BlobUpload) : Bool :=
  other.objectStore = store && (other.objectKey = k.1 ||
    match k.2 with
    | .objects id => o = id || other.mountedFrom = some id
    | .pending id => o = id && other.mountedFrom = none
    | .recorded => false)

/-! ### Debts -/

def stampOf (o : Option DebtSlot) : ℕ := (o.map DebtSlot.stamp).getD 0

def debtOf (o : Option DebtSlot) : Option ColdPurgePending := o.bind DebtSlot.row

def debt (db : Tables) (store : ObjectStoreId) (key : ObjectKey) : Option ColdPurgePending :=
  debtOf (get db (.debt store key))

/-- `INSERT … ON CONFLICT (object_store, object_key) DO UPDATE`: the debt is new, or due now. -/
def owe (o : Option DebtSlot) (owner : Option Uuid) (now : ℕ) : DebtSlot where
  stamp := stampOf o + 1
  row := some <|
    match debtOf o with
    | some r => { r with enqueuedAt := now, nextAttemptAt := now }
    | none => ⟨owner, now, 0, now, none, none⟩

structure ColdPurgeEntry where
  objectKey : ObjectKey
  objectStore : ObjectStoreId
  deriving DecidableEq

end Proxiima.Blobs
