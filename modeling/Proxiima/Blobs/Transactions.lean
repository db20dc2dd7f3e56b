import Proxiima.Blobs.Tables

/-!
# The transactions of uploads and purge debts

Each transaction takes the owner's fence, then the locks of the object keys it decides about,
then its row. The transition of a row and the debts it leaves are written by one transaction;
the objects themselves are touched by none of them.
-/

namespace Proxiima.Blobs

open ReadCommitted Prog

/-! ### Locks, errors and inputs -/

inductive LockName where
  /-- `proxiima-owner-fence:` -/
  | ownerFence (owner : Uuid)
  /-- `proxiima-object-key:` -/
  | objectKey (key : ObjectKey)
  deriving DecidableEq

abbrev Lock := TableLock Key

/-- The 64-bit key of each advisory lock. -/
abbrev Hash := LockName → ℕ

inductive StorageError where
  | notFound
  | unavailable (message : String)
  | conflict (message : String)
  | constraintViolation (message : String)
  deriving DecidableEq

inductive BlobError where
  | s3 (message : String)
  | db
  | storage (e : StorageError)
  | denied (message : String)
  | state (message : String)
  deriving DecidableEq

/-- `impl From<StorageError> for BlobError`. -/
def StorageError.toBlobError : StorageError → BlobError
  | .constraintViolation message => .state message
  | e => .storage e

/-- What a transaction gets from its surroundings: the time, whether the row it would skip is
locked, and the ids it mints. -/
structure Input where
  now : ℕ
  busy : Bool
  fresh : Uuid

abbrev Txn := Prog Row Lock BlobError Input Unit

def now : Txn ℕ := call fun x a => (x.now, a)

variable (H : Hash)

def ownerFence (owner : Uuid) (exclusive : Bool) : Lock :=
  .advisory (H (.ownerFence owner)) exclusive

def objectKeyLock (key : ObjectKey) : Lock := .advisory (H (.objectKey key)) true

def lockOwnerFenceShared (owner : Uuid) : Txn Unit := lock (ownerFence H owner false)

/-- The order of the keys, by which concurrent callers avoid a deadlock, is left out. -/
def lockObjectKeys (keys : List ObjectKey) : Txn PUnit :=
  (keys.map (objectKeyLock H)).forM fun l => lock l

def lockFenceAndKeys (owner : Uuid) (keys : List ObjectKey) : Txn PUnit := do
  lockOwnerFenceShared H owner
  lockObjectKeys H keys

/-- The row of an upload, locked FOR UPDATE. -/
def loadForUpdate (scope : List Uuid) (owner u : Uuid) : Txn (Option BlobUpload) := do
  lock (.row (.upload u))
  let v ← view
  pure (owned v scope owner u)

def writeUpload (u : Uuid) (r : BlobUpload) : Txn Unit := write [⟨.upload u, some (.row r)⟩]

/-! ### Debts -/

def oweKey (store : ObjectStoreId) (owner : Option Uuid) (at' : ℕ) (key : ObjectKey) :
    Txn Unit := do
  lock (.row (.debt store key))
  let v ← view
  write [⟨.debt store key, some (owe (get v (.debt store key)) owner at')⟩]

/-- `owe_terminal_upload_keys_tx`. -/
def oweTerminalUploadKeys (store : ObjectStoreId) (owner u : Uuid) : Txn (List ColdPurgeEntry) := do
  let t ← now
  oweKey store (some owner) t (uploadTransferKey u)
  oweKey store (some owner) t (uploadedBlobObjectKey u)
  pure [⟨uploadTransferKey u, store⟩, ⟨uploadedBlobObjectKey u, store⟩]

/-- The version of the debt that a drain finds. -/
def observeDebt (store : ObjectStoreId) (key : ObjectKey) : Txn (Option ℕ) := do
  let v ← view
  pure ((debt v store key).map fun _ => stampOf (get v (.debt store key)))

/-- `clear_cold_purge_pending`: delete the debt if it is still this version. -/
def clearColdPurgePending (store : ObjectStoreId) (key : ObjectKey) (version : ℕ) : Txn Bool := do
  lock (.row (.debt store key))
  let v ← view
  let slot := get v (.debt store key)
  if (debtOf slot).isSome ∧ stampOf slot = version then
    write [⟨.debt store key, some ⟨version + 1, none⟩⟩]
    pure true
  else pure false

structure PurgeBackoff where
  base : ℕ
  max : ℕ
  deriving DecidableEq

/-- `min(base * 2^attempts, max)`, in the unit of the clock. -/
def PurgeBackoff.delay (b : PurgeBackoff) (attempts : ℕ) : ℕ :=
  min (b.base * 2 ^ min attempts 40) b.max

/-- `record_purge_failure`: back the debt off if it is still this version. -/
def recordPurgeFailure (store : ObjectStoreId) (key : ObjectKey) (version : ℕ)
    (backoff : PurgeBackoff) (error : String) : Txn Bool := do
  let t ← now
  lock (.row (.debt store key))
  let v ← view
  let slot := get v (.debt store key)
  match debtOf slot with
  | some r =>
    if stampOf slot = version then
      write [⟨.debt store key, some ⟨version + 1, some { r with
        attempts := r.attempts + 1
        lastAttemptAt := some t
        lastError := some error
        nextAttemptAt := t + backoff.delay r.attempts }⟩⟩]
      pure true
    else pure false
  | none => pure false

/-- The keys of the store's due debts, a batch of them. -/
def dueKeys (store : ObjectStoreId) (batch : ℕ) : Txn (List ObjectKey) := do
  let t ← now
  let v ← view
  let due := (live v).filterMap fun
    | .debt s key => (debt v s key).bind fun r =>
      if s = store ∧ r.nextAttemptAt ≤ t then some (r, key) else none
    | _ => none
  let sorted := due.mergeSort fun a b =>
    a.1.nextAttemptAt < b.1.nextAttemptAt ||
      (a.1.nextAttemptAt = b.1.nextAttemptAt && (a.1.enqueuedAt < b.1.enqueuedAt ||
        (a.1.enqueuedAt = b.1.enqueuedAt && a.2.le b.2)))
  pure ((sorted.take batch).map Prod.snd)

end Proxiima.Blobs
