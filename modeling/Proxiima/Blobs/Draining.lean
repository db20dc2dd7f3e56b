import Proxiima.Blobs.ObjectStore
import Proxiima.Blobs.System
import Proxiima.ReadCommitted.Processes

/-!
# Drains

A drain works off a plan of debts that may be stale. For each it reads the version of the debt,
deletes the object with no transaction open, and acknowledges the delete against the version it
has read.
-/

namespace Proxiima.Blobs

open ReadCommitted Proc

/-- What a process of the blob service runs. -/
abbrev Step := Proc BlobError Command Response Request Reply

/-- A process that may end early with an error. -/
abbrev Lane := ExceptT BlobError Step

/-- Run a transaction; nothing when its end is not heard of. -/
def transact (c : Command) : Lane (Option (Except BlobError Response)) :=
  liftM (transaction c : Step _)

/-- Make a request to the object store. -/
def request (x : Request) : Lane Reply := liftM (ask x : Step _)

/-- Run a transaction and take its answer apart. A transaction whose end is not heard of is a
database error. -/
def tx {α : Type} (c : Command) (f : Response → Option α) : Lane α := do
  match ← transact c with
  | some (.ok r) =>
    match f r with
    | some a => pure a
    | none => throw .db
  | some (.error e) => throw e
  | none => throw .db

/-- Raise the error of a check. -/
def orThrow {α : Type} : Except BlobError α → Lane α
  | .ok a => pure a
  | .error e => throw e

/-! ### Errors of a debt -/

/-- `impl Display for StorageError`. -/
def StorageError.text : StorageError → String
  | .notFound => "not found"
  | .unavailable message => "storage backend unavailable: " ++ message
  | .conflict message => "conflict: " ++ message
  | .constraintViolation message => "constraint violation: " ++ message

def isControl (c : Char) : Bool := c.val < 32 || (127 ≤ c.val && c.val < 160)

/-- The longest beginning that fits into so many bytes. -/
def boundedChars : List Char → ℕ → List Char
  | [], _ => []
  | c :: cs, n => if c.utf8Size ≤ n then c :: boundedChars cs (n - c.utf8Size) else []

def maxPurgeErrorBytes : ℕ := 1024

def purgeErrorText (e : StorageError) : String :=
  String.ofList <| boundedChars (e.text.toList.map fun c => if isControl c then ' ' else c)
    maxPurgeErrorBytes

/-! ### One debt -/

inductive Discharged where
  | removed | absent
  /-- Another drain cleared it before this one looked. -/
  | retired
  deriving DecidableEq

def debtChanged (key : ObjectKey) : BlobError :=
  .storage (.unavailable
    ("cold purge debt for " ++ key.text ++ " changed during deletion; leaving it for retry"))

def clearDebt (n : ℕ) (store : ObjectStoreId) (key : ObjectKey) (version : ℕ) (d : Discharged) :
    Lane Discharged := do
  let cleared ← tx (.clear n store key version) fun
    | .flag b => some b
    | _ => none
  if cleared then pure d else throw (debtChanged key)

/-- What the end of the provider's delete means for the debt. -/
def acknowledge (n : ℕ) (store : ObjectStoreId) (key : ObjectKey) (version : ℕ)
    (backoff : PurgeBackoff) : Reply → Lane Discharged
  | .deleted (.ok .absent) => clearDebt n store key version .absent
  | .deleted (.error .notFound) => clearDebt n store key version .absent
  | .deleted (.ok (.removed _)) => clearDebt n store key version .removed
  | .deleted (.error e) => do
    let _ ← transact (.recordFailure n store key version backoff (purgeErrorText e))
    throw (.storage e)
  | _ => throw .db

def purgeCurrentColdDebt (drain : ℕ) (store : ObjectStoreId) (key : ObjectKey)
    (backoff : PurgeBackoff) : Lane Discharged := do
  let version ← tx (.observe drain store key) fun
    | .version v => some v
    | _ => none
  match version with
  | none => pure .retired
  | some v =>
    match ← request (.startDelete (some drain) store key) with
    | .started n =>
      let reply ← request (.endDelete n)
      acknowledge n store key v backoff reply
    | _ => throw .db

/-! ### Plans -/

structure ColdPurgeOutcome where
  attempted : ℕ
  purged : ℕ
  absent : ℕ
  failed : ℕ
  pending : Bool
  deriving DecidableEq

def ColdPurgeOutcome.count (o : ColdPurgeOutcome) : Except BlobError Discharged → ColdPurgeOutcome
  | .ok .removed | .ok .retired => { o with purged := o.purged + 1 }
  | .ok .absent => { o with absent := o.absent + 1 }
  | .error _ => { o with failed := o.failed + 1 }

/-- The loop of `purge_cold_objects_with_backoff`. -/
def purgeEntries (drain : ℕ) (cold : ObjectStoreId) (backoff : PurgeBackoff) :
    List ColdPurgeEntry → ColdPurgeOutcome → Step ColdPurgeOutcome
  | [], o => pure { o with pending := o.purged + o.absent ≠ o.attempted }
  | e :: es, o =>
    if e.objectStore ≠ cold then
      purgeEntries drain cold backoff es { o with failed := o.failed + 1 }
    else do
      let r ← (purgeCurrentColdDebt drain cold e.objectKey backoff).run
      purgeEntries drain cold backoff es (o.count r)

def purgeColdObjectsWithBackoff (drain : ℕ) (cold : ObjectStoreId) (plan : List ColdPurgeEntry)
    (backoff : PurgeBackoff) : Step ColdPurgeOutcome :=
  purgeEntries drain cold backoff plan ⟨plan.length, 0, 0, 0, false⟩

/-- Thirty seconds, at most six hours. -/
def PurgeBackoff.default : PurgeBackoff := ⟨30, 21600⟩

/-- `purge_owed_after_commit`. -/
def purgeOwedAfterCommit (drain : ℕ) (cold : ObjectStoreId) (owed : List ColdPurgeEntry) :
    Step Unit :=
  if owed = [] then pure ()
  else do
    let _ ← purgeColdObjectsWithBackoff drain cold owed .default
    pure ()

structure ColdPurgeRetryOptions where
  batchSize : ℕ
  stuckAfter : ℕ
  dryRun : Bool
  backoff : PurgeBackoff
  deriving DecidableEq

def ColdPurgeRetryOptions.check (o : ColdPurgeRetryOptions) : Except BlobError Unit :=
  if o.batchSize < 1 then
    .error (.storage (.constraintViolation "cold purge retry batch_size must be positive"))
  else if o.stuckAfter < 1 then
    .error (.storage (.constraintViolation "cold purge retry stuck_after must be positive"))
  else .ok ()

/-- `retry_cold_object_purges`, without its census. -/
def retryColdObjectPurges (drain : ℕ) (cold : ObjectStoreId) (options : ColdPurgeRetryOptions) :
    Lane Unit := do
  orThrow options.check
  let keys ← tx (.dueKeys cold options.batchSize) fun
    | .keys ks => some ks
    | _ => none
  if options.dryRun then pure ()
  else
    let _ ← purgeColdObjectsWithBackoff drain cold (keys.map fun key => ⟨key, cold⟩) options.backoff
    pure ()

end Proxiima.Blobs
