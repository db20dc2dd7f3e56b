import Mathlib.Data.List.Sort
import Proxiima.Memory.Tables
import Proxiima.ReadCommitted.Rows

/-!
# The commands on memory series

What the memory transactions are asked, what they answer and what they lock. A fence, a
handle or a version is locked through a 64-bit advisory key, so two names may share one;
the key of a name is a parameter of the development. So is the BLAKE3 digest that names the
rows of the request ledger. Each call that depends on the process (its clock, its random
bytes, its id generator) or on tables left out here draws from an input of the environment.
-/

namespace Proxiima.Memory

open ReadCommitted

/-! ### Locks -/

inductive LockName where
  /-- `proxiima-owner-fence:` -/
  | ownerFence (owner : Uuid)
  /-- `proxiima-source-fence:` -/
  | sourceFence (owner : Uuid) (source : SourceId)
  | scopeFence (kind : String) (owner id : Uuid)
  /-- `proxiima-natural-series-lock-v1` -/
  | naturalSeries (owner : Uuid) (schemaId : String) (key : SidecarKey)
  /-- `proxiima-memory-handle:` -/
  | memoryHandle (handle : Uuid)
  /-- `proxiima-forget:` -/
  | lifecycle (t : Uuid)
  deriving DecidableEq

inductive Lock where
  | row (k : Key)
  | advisory (key : ℕ) (exclusive : Bool)
  deriving DecidableEq

def Lock.conflict : Lock → Lock → Bool
  | row k, row k' => k = k'
  | advisory n x, advisory n' x' => n = n' && (x || x')
  | _, _ => false

lemma Lock.conflict_symm (l l' : Lock) : l.conflict l' = l'.conflict l := by
  cases l <;> cases l' <;> simp [conflict, eq_comm, Bool.or_comm]

/-- The advisory key of each lock name, and BLAKE3 in hex. -/
structure Hashes where
  advisory : LockName → ℕ
  blake3 : List UInt8 → String

namespace Hashes

variable (H : Hashes)

def shared (name : LockName) : Lock := .advisory (H.advisory name) false

def exclusive (name : LockName) : Lock := .advisory (H.advisory name) true

end Hashes

/-! ### Requests -/

/-- `EdgeEndpoint`: what a pin names. -/
inductive Endpoint where
  | memory (id : Uuid)
  | goal (id : Uuid)
  deriving DecidableEq

structure FactWriteCommand where
  schemaId : String
  handle : Option Uuid
  sourceId : Option String
  ingestKey : Option String
  occurredAt : Option ℕ
  kind : MemoryKind
  request : Option RequestKey
  deriving DecidableEq

structure MemoryAdmissionDraft where
  storeNumber : ℕ
  naturalKey : Option NaturalKey
  owner : Uuid
  draft : FactWriteCommand
  origins : List Endpoint
  references : List Endpoint
  scopes : List (String × Uuid)
  deriving DecidableEq

structure PreparationOptions where
  identity : Option (Uuid × Uuid) := none
  extraTargets : List Uuid := []
  guidedBy : List Uuid := []
  forkedFrom : Option Uuid := none
  deriving DecidableEq

inductive EntityKind where
  | memory (kind : MemoryKind)
  | goal
  deriving DecidableEq

structure DerivedDraft where
  storeNumber : ℕ
  memoryId : Uuid
  owner : Uuid
  kind : EntityKind
  schemaId : String
  supersedes : Option Uuid
  guidedBy : List Uuid
  request : Option RequestKey
  origins : List Endpoint
  references : List Endpoint
  scopes : List (String × Uuid)
  deriving DecidableEq

structure ForkMemoryRequest where
  storeNumber : ℕ
  source : Uuid
  sourceOwner : Uuid
  targetOwner : Uuid
  request : RequestKey
  scopes : List (String × Uuid)
  deriving DecidableEq

inductive Command where
  /-- `ingest_core`; `publish` when a publication is planned. -/
  | ingest (admission : MemoryAdmissionDraft) (publish : Bool)
  /-- `append_derived_timeseries` -/
  | derive (draft : DerivedDraft)
  | fork (request : ForkMemoryRequest)
  /-- `ingest_unpinned_fact_at`, for a lifecycle Fact of a Goal. -/
  | lifecycleFact (storeNumber : ℕ) (owner : Uuid) (schemaId : String)
  | forget (owner t : Uuid) (kinds : Option (List MemoryKind))
  | restore (owner t : Uuid) (kinds : List MemoryKind)
  | erase (owner t : Uuid)
  | eraseSeries (owner : Uuid) (ts : List Uuid)
  | transfer (fromOwner toOwner t : Uuid)
  deriving DecidableEq

/-! ### Answers -/

inductive ReplayDrift where
  | factRefs | derivedRefs
  deriving DecidableEq

inductive StorageError where
  | constraintViolation (message : String)
  | conflict (message : String)
  | retryable (message : String)
  | internal (message : String)
  | notFound
  | scopeMissing (kind : String) (id : Uuid)
  | replayChanged (drift : ReplayDrift)
  | idempotencyConflict (requestId : List UInt8) (existing : Uuid)
  | memoryIdCollision
  /-- The process panicked; the transaction is rolled back. -/
  | panicked (message : String)
  /-- The statement was canceled: a loop that is not bounded in the source ran too long. -/
  | canceled
  /-- The transfer answered `false` and was rolled back. -/
  | notTransferred
  deriving DecidableEq

structure FactIngestOutcome where
  memoryId : Uuid
  handle : Uuid
  idempotentReplay : Bool
  forgotten : Bool
  deriving DecidableEq

/-- An admission that wrote a version answers with its outcome, the head it was prepared
against and its publication position. -/
inductive Response where
  | admitted (outcome : FactIngestOutcome) (expectedHeadT : Option Uuid) (position : Option ℕ)
  | replayed (outcome : FactIngestOutcome)
  | done
  | erased (count : ℕ)
  deriving DecidableEq

/-! ### The process -/

/-- What the environment decides at a call. -/
structure Input where
  /-- The process the call runs in. -/
  process : ℕ := 0
  clockMillis : ℕ := 0
  random : ℕ := 0
  /-- Which row a `LIMIT 1` without order takes, and how often an unbounded loop runs. -/
  choice : ℕ := 0
  /-- The answer of a table left out of the model. -/
  found : Bool := true
  deriving DecidableEq

/-- The id generator of each process. -/
abbrev Processes := ℕ → Generator

abbrev Tx := Prog Row Lock StorageError Input Processes

def liftExcept {α : Type} : Except StorageError α → Tx α
  | .ok a => pure a
  | .error e => Prog.fail e

/-- `proxiima_core::new_memory_uuid_after`, above a floor when there is one. -/
def mintMemoryUuid (storeNumber : ℕ) (floor : Option Uuid) : Tx (Option Uuid) :=
  Prog.call fun x processes =>
    match (processes x.process).mint x.clockMillis x.random storeNumber floor with
    | some (id, g) => (some id, Function.update processes x.process g)
    | none => (none, processes)

def newMemoryUuid (storeNumber : ℕ) : Tx Uuid := do
  match ← mintMemoryUuid storeNumber none with
  | some id => pure id
  | none => Prog.fail (.panicked "memory UUID timestamp exceeds 48 bits")

def newMemoryUuidAfter (storeNumber : ℕ) (floor : Uuid) : Tx Uuid := do
  match ← mintMemoryUuid storeNumber (some floor) with
  | some id => pure id
  | none => Prog.fail (.constraintViolation "memory UUID timestamp range exhausted")

def choose : Tx ℕ := Prog.call fun x processes => (x.choice, processes)

/-- What a table left out here answers. -/
def probe : Tx Bool := Prog.call fun x processes => (x.found, processes)

/-! ### Advisory locks -/

section Advisory

variable (H : Hashes)

/-- A sorted, deduplicated set of advisory locks. -/
def lockAdvisoryIds (name : Uuid → LockName) (ids : List Uuid) : Tx PUnit :=
  (ids.dedup.insertionSort (· ≤ ·)).forM fun id => Prog.lock (H.exclusive (name id))

def lockMemoryHandles (handles : List Uuid) : Tx PUnit :=
  lockAdvisoryIds H .memoryHandle handles

def lockLifecycleTargets (targets : List Uuid) : Tx PUnit :=
  lockAdvisoryIds H .lifecycle targets

def lockOwnerFencesExclusive (owners : List Uuid) : Tx PUnit :=
  lockAdvisoryIds H .ownerFence owners

def lockOwnerFenceShared (owner : Uuid) : Tx Unit := Prog.lock (H.shared (.ownerFence owner))

def lockSourceFenceShared (owner : Uuid) (source : SourceId) : Tx Unit :=
  Prog.lock (H.shared (.sourceFence owner source))

end Advisory

end Proxiima.Memory
