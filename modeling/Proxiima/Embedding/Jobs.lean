import Proxiima.Access
import Proxiima.Memory.Commands
import Proxiima.VectorIndex.Sweep

/-!
# Embedding jobs

A job asks for the vectors of one memory in one space. Jobs are queued with the memory that needs
them, for the heads an owner is missing, and by a scan over all memories; workers claim them in the
order of their ids. A forget deletes the jobs of its memory. The transactions of the queue are given
statement by statement where another one can come between.
-/

namespace Proxiima.Embedding

open Memory (MemoryKind StorageError)

structure EmbeddingSpace where
  modelId : String
  dim : VectorIndex.EmbeddingDim
  deriving DecidableEq

inductive EmbeddingJobStatus where
  | pending | processing | failed | failedPermanent
  deriving DecidableEq

structure EmbeddingJob where
  owner : Uuid
  entity : Uuid
  space : EmbeddingSpace
  status : EmbeddingJobStatus := .pending
  claimedAt : Option ℕ := none
  claimToken : Option Uuid := none
  lastError : Option String := none
  deriving DecidableEq

structure MemoryRow where
  handle : Uuid
  owner : Uuid
  kind : MemoryKind
  schema : String
  forgotten : Bool := false
  deriving DecidableEq

structure MemoryHead where
  t : Uuid
  schema : String
  deriving DecidableEq

/-- The rows the queue reads and writes: the memories by `t`, the heads by series, the spaces a
memory has vectors in, and the jobs by `job_id`. -/
structure Tables where
  memory : SortedMap Uuid MemoryRow
  memoryHead : SortedMap Uuid MemoryHead
  embeddingHeads : List (Uuid × EmbeddingSpace)
  embeddingJobs : SortedMap Uuid EmbeddingJob
  deriving DecidableEq

namespace Tables

def empty : Tables := ⟨.empty, .empty, [], .empty⟩

def live (T : Tables) (t : Uuid) : Bool := (T.memory.get? t).any fun m => !m.forgotten

/-- The unique key of the job table is taken. -/
def hasJob (T : Tables) (owner entity : Uuid) (space : EmbeddingSpace) : Bool :=
  T.embeddingJobs.rows.any fun r =>
    r.2.owner = owner ∧ r.2.entity = entity ∧ r.2.space = space

end Tables

/-! ### Claims -/

def ensureNonnegativeLimit (limit : ℤ) : Except StorageError ℕ :=
  if limit < 0 then .error (.constraintViolation "limit must be nonnegative")
  else .ok limit.toNat

structure EmbeddingJobClaim where
  jobId : Uuid
  owner : Uuid
  entityKind : MemoryKind
  entity : Uuid
  space : EmbeddingSpace
  claimToken : Uuid
  deriving DecidableEq

/-- A job is pending and its owner and its owner's space are not skipped. -/
def EmbeddingJob.wanted (skipOwners : List Uuid) (skipOwnerSpaces : List (Uuid × EmbeddingSpace))
    (job : EmbeddingJob) : Bool :=
  job.status = .pending ∧ job.owner ∉ skipOwners ∧ (job.owner, job.space) ∉ skipOwnerSpaces

/-- The `claimed` rows of the statement: the limit counts every wanted job that is not locked. -/
def claimedRows (locked : Uuid → Bool) (limit : ℕ) (skipOwners : List Uuid)
    (skipOwnerSpaces : List (Uuid × EmbeddingSpace)) (T : Tables) : List Uuid :=
  ((T.embeddingJobs.rows.filter fun r =>
    r.2.wanted skipOwners skipOwnerSpaces ∧ !locked r.1).take limit).map Prod.fst

/-- The `settled` rows: of the claimed ones, those whose memory is live. -/
def settledRows (token : Uuid → Uuid) (claimed : List Uuid) (T : Tables) :
    List EmbeddingJobClaim :=
  T.embeddingJobs.rows.filterMap fun r =>
    if r.1 ∈ claimed then
      ((T.memory.get? r.2.entity).filter fun m => !m.forgotten).map fun m =>
        { jobId := r.1, owner := r.2.owner, entityKind := m.kind, entity := r.2.entity
          space := r.2.space, claimToken := token r.1 }
    else none

def EmbeddingJob.claim (now : ℕ) (token : Uuid) (job : EmbeddingJob) : EmbeddingJob :=
  { job with status := .processing, claimedAt := some now, claimToken := some token }

def claimJobs (now : ℕ) (token : Uuid → Uuid) (ids : List Uuid) (T : Tables) : Tables :=
  { T with
    embeddingJobs := T.embeddingJobs.adjust fun id job =>
      if id ∈ ids then job.claim now (token id) else job }

/-- `claim_pending_embedding_jobs`, with the jobs other transactions hold locked. -/
def claimPendingEmbeddingJobs (now : ℕ) (token : Uuid → Uuid) (locked : Uuid → Bool) (limit : ℤ)
    (skipOwners : List Uuid) (skipOwnerSpaces : List (Uuid × EmbeddingSpace)) (T : Tables) :
    Except StorageError (List EmbeddingJobClaim × Tables) :=
  (ensureNonnegativeLimit limit).map fun limit =>
    if limit = 0 then ([], T)
    else
      let claims := settledRows token (claimedRows locked limit skipOwners skipOwnerSpaces T) T
      (claims, claimJobs now token (claims.map EmbeddingJobClaim.jobId) T)

/-! ### The end of a claim -/

/-- `claim_fence`. -/
def EmbeddingJobClaim.fence (claim : EmbeddingJobClaim) (id : Uuid) (job : EmbeddingJob) : Bool :=
  id = claim.jobId ∧ job.claimToken = some claim.claimToken ∧ job.status = .processing ∧
    job.owner = claim.owner ∧ job.entity = claim.entity ∧ job.space = claim.space

def claimHeld (claim : EmbeddingJobClaim) (T : Tables) : Except StorageError Unit :=
  if T.embeddingJobs.rows.any fun r => claim.fence r.1 r.2 then .ok ()
  else .error (.conflict "embedding job claim is stale or no longer processing")

inductive ClaimExit where
  | failed | failedPermanent | released
  deriving DecidableEq

def ClaimExit.status : ClaimExit → EmbeddingJobStatus
  | failed => .failed
  | failedPermanent => .failedPermanent
  | released => .pending

def exitClaim (exit : ClaimExit) (error : String) (T : Tables) (claim : EmbeddingJobClaim) :
    Except StorageError Tables :=
  (claimHeld claim T).map fun _ =>
    { T with
      embeddingJobs := T.embeddingJobs.adjust fun id job =>
        if claim.fence id job then
          { job with
            status := exit.status, claimedAt := none, claimToken := none, lastError := some error }
        else job }

def failEmbeddingJob (claim : EmbeddingJobClaim) (error : String) (T : Tables) :
    Except StorageError Tables :=
  exitClaim .failed error T claim

def failEmbeddingJobPermanently (claim : EmbeddingJobClaim) (error : String) (T : Tables) :
    Except StorageError Tables :=
  exitClaim .failedPermanent error T claim

def releaseEmbeddingJobs (claims : List EmbeddingJobClaim) (error : String) (T : Tables) :
    Except StorageError Tables :=
  claims.foldlM (exitClaim .released error) T

/-- `complete_embedding_job`, after the vectors were written. -/
def completeEmbeddingJob (claim : EmbeddingJobClaim) (T : Tables) : Except StorageError Tables :=
  (claimHeld claim T).map fun _ =>
    { T with
      embeddingHeads := (claim.entity, claim.space) :: T.embeddingHeads
      embeddingJobs := T.embeddingJobs.filter fun id job => !claim.fence id job }

def renewEmbeddingJobs (now : ℕ) (claims : List EmbeddingJobClaim) (T : Tables) : Tables :=
  { T with
    embeddingJobs := T.embeddingJobs.adjust fun id job =>
      if claims.any fun claim => id = claim.jobId ∧ job.claimToken = some claim.claimToken ∧
          job.owner = claim.owner ∧ job.status = .processing
      then { job with claimedAt := some now } else job }

def reclaimStaleEmbeddingJobs (now : ℕ) (olderThanSeconds : ℤ) (T : Tables) :
    Except StorageError Tables :=
  if olderThanSeconds < 1 then
    .error (.constraintViolation "stale processing reclaim window must be positive")
  else .ok
    { T with
      embeddingJobs := T.embeddingJobs.adjust fun _ job =>
        if job.status = .processing ∧
          job.claimedAt.all fun at_ => at_ + olderThanSeconds.toNat < now
        then { job with status := .pending, claimedAt := none, claimToken := none } else job }

/-! ### Enqueues -/

/-- One row of an insert: what is queued already stays as it is. -/
def newJob (T : Tables) (rows : List (Uuid × EmbeddingJob))
    (p : (Uuid × Uuid × EmbeddingSpace) × Uuid) : List (Uuid × EmbeddingJob) :=
  if T.hasJob p.1.1 p.1.2.1 p.1.2.2 ∨
      (rows.any fun r => r.2.owner = p.1.1 ∧ r.2.entity = p.1.2.1 ∧ r.2.space = p.1.2.2)
  then rows
  else rows ++ [(p.2, { owner := p.1.1, entity := p.1.2.1, space := p.1.2.2 })]

/-- The jobs an insert adds, `ids` being the ids it draws. -/
def newJobs (T : Tables) (targets : List (Uuid × Uuid × EmbeddingSpace)) (ids : List Uuid) :
    List (Uuid × EmbeddingJob) :=
  (targets.zip ids).foldl (newJob T) []

def addJobs (rows : List (Uuid × EmbeddingJob)) (T : Tables) : Tables :=
  { T with
    embeddingJobs := rows.foldl (fun jobs r => jobs.insert r.1 r.2) T.embeddingJobs }

/-- `enqueue_embedding_jobs_in_tx`. -/
def enqueueEmbeddingJobsInTx (owner entity : Uuid) (spaces : List EmbeddingSpace)
    (ids : List Uuid) (T : Tables) : Tables :=
  addJobs (newJobs T (spaces.map fun space => (owner, entity, space)) ids) T

/-- The limit of a permit, and whether the transaction may write the owner's goals: for such an
owner the row check of the job table does not look at the memory. -/
structure OwnerWritePermit where
  owner : Uuid
  accessKind : AccessKind
  writesGoals : Bool
  deriving DecidableEq

def accessKindOf : MemoryKind → AccessKind
  | .fact => .fact
  | .abstraction => .abstraction
  | .perspective => .perspective

def kindsWithin (limit : AccessKind) : List MemoryKind :=
  [MemoryKind.fact, .abstraction, .perspective].filter fun kind =>
    (accessKindOf kind).rank ≤ limit.rank

/-- `missing_embedding_ids`, without those that have a job. -/
def missingEmbeddingIds (T : Tables) (owner : Uuid) (space : EmbeddingSpace) (limit : ℕ)
    (nonEmbeddable : List String) (kinds : List MemoryKind) : List Uuid :=
  ((T.memory.rows.filter fun r =>
    (T.memoryHead.get? r.2.handle).any (fun head => head.t = r.1) ∧ !r.2.forgotten ∧
      r.2.owner = owner ∧ r.2.schema ∉ nonEmbeddable ∧ (r.1, space) ∉ T.embeddingHeads ∧
      !T.hasJob r.2.owner r.1 space ∧ r.2.kind ∈ kinds).take limit).map Prod.fst

/-! ### The scan over all memories -/

inductive EmbeddingReconcileScope where
  | missingOnly
  | includeStale
  | since (time : ℕ)
  deriving DecidableEq

/-- A scope by age looks at the memories created since its time. -/
def EmbeddingReconcileScope.covers (created : ℕ) : EmbeddingReconcileScope → Bool
  | since time => time ≤ created
  | _ => true

structure EmbeddingReconcileOptions where
  space : EmbeddingSpace
  scope : EmbeddingReconcileScope
  nonEmbeddable : List String
  owners : Option (List Uuid)
  deriving DecidableEq

def reconcilePageSize : ℕ := 2000

/-- The `page` rows: the next live memories in key order, of the owners and age asked for. -/
def reconcilePage (createdAt : Uuid → ℕ) (options : EmbeddingReconcileOptions)
    (after : Option Uuid) (T : Tables) : List (Uuid × MemoryRow) :=
  (T.memory.rows.filter fun r =>
    !r.2.forgotten ∧ SortedMap.After after r.1 ∧
      (options.owners.all fun owners => r.2.owner ∈ owners) ∧
      options.scope.covers (createdAt r.1)).take reconcilePageSize

/-- The `eligible` rows of a page. -/
def reconcileEligible (createdAt : Uuid → ℕ) (options : EmbeddingReconcileOptions)
    (after : Option Uuid) (T : Tables) : List (Uuid × MemoryRow) :=
  (reconcilePage createdAt options after T).filter fun r =>
    ((T.memoryHead.get? r.2.handle).any fun head =>
      head.t = r.1 ∧ head.schema ∉ options.nonEmbeddable) ∧
    (options.scope = .missingOnly → (r.1, options.space) ∉ T.embeddingHeads) ∧
    !T.embeddingJobs.rows.any fun j =>
      j.2.owner = r.2.owner ∧ j.2.entity = r.1 ∧ j.2.space = options.space ∧
        (j.2.status = .pending ∨ j.2.status = .processing ∨ j.2.status = .failedPermanent)

/-- The `limited` rows: once its row is locked, a memory is looked at again. -/
def reconcileLimited (eligible : List (Uuid × Uuid)) (limit : ℕ) (T : Tables) :
    List (Uuid × Uuid) :=
  (eligible.filter fun r => T.live r.1).take limit

/-- The `inserted` rows: a failed job is queued again. -/
def reconcileInsert (space : EmbeddingSpace) (limited : List (Uuid × Uuid)) (ids : List Uuid)
    (T : Tables) : Tables :=
  addJobs (newJobs T (limited.map fun r => (r.2, r.1, space)) ids)
    { T with
      embeddingJobs := T.embeddingJobs.adjust fun _ job =>
        if job.status = .failed ∧ job.space = space ∧ (job.entity, job.owner) ∈ limited then
          { job with status := .pending, claimedAt := none, claimToken := none, lastError := none }
        else job }

/-! ### Forget and restore -/

/-- `sync_memory_head`: the newest live version, or else the newest. -/
def syncMemoryHead (handle : Uuid) (T : Tables) : Tables :=
  let versions := T.memory.rows.filter fun r => r.2.handle = handle
  let alive := versions.filter fun r => !r.2.forgotten
  match (if alive = [] then versions else alive).getLast? with
  | some r =>
    { T with
      memoryHead :=
        T.memoryHead.adjust fun h head => if h = handle then { head with t := r.1 } else head }
  | none => { T with memoryHead := T.memoryHead.filter fun h _ => h ≠ handle }

def setForgotten (t : Uuid) (forgotten : Bool) (T : Tables) : Tables :=
  { T with
    memory := T.memory.adjust fun k m => if k = t then { m with forgotten := forgotten } else m }

/-- What a forget commits: the mark, the deletion of the jobs its statement found, and the head. -/
def forgetMemory (t : Uuid) (doomed : List Uuid) (T : Tables) : Tables :=
  let T' := setForgotten t true
    { T with
      embeddingHeads := T.embeddingHeads.filter fun p => p.1 ≠ t
      embeddingJobs := T.embeddingJobs.filter fun id _ => id ∉ doomed }
  match T.memory.get? t with
  | some m => syncMemoryHead m.handle T'
  | none => T'

/-- The owner a call reaches, and the kinds it may touch. -/
structure Reach where
  owner : Uuid
  kinds : List MemoryKind
  deriving DecidableEq

def Reach.admits (reach : Reach) (m : MemoryRow) : Bool :=
  m.owner = reach.owner ∧ m.kind ∈ reach.kinds

structure RouteSpaces where
  spaces : List EmbeddingSpace
  nonEmbeddable : List String
  deriving DecidableEq

def restoreMemory (t : Uuid) (reach : Reach) (route : RouteSpaces) (ids : List Uuid) (T : Tables) :
    Except StorageError Tables :=
  match T.memory.get? t with
  | none => .error .notFound
  | some m =>
    if !reach.admits m then .error .notFound
    else if m.forgotten then
      let T' := setForgotten t false T
      .ok (syncMemoryHead m.handle
        (if m.schema ∈ route.nonEmbeddable then T'
          else enqueueEmbeddingJobsInTx reach.owner t route.spaces ids T'))
    else .ok T

/-- A write admits a memory as the head of its series and queues it with it. -/
def admitMemory (t : Uuid) (row : MemoryRow) (spaces : List EmbeddingSpace) (ids : List Uuid)
    (T : Tables) : Tables :=
  enqueueEmbeddingJobsInTx row.owner t spaces ids
    { T with
      memory := T.memory.insert t { row with forgotten := false }
      memoryHead := T.memoryHead.insert row.handle { t := t, schema := row.schema } }

/-! ### Transactions -/

/-- A transaction that has run a statement and has not committed. -/
inductive OpenTx where
  /-- An enqueue of missing jobs has read its ids. -/
  | selected (permit : OwnerWritePermit) (space : EmbeddingSpace) (ids : List Uuid)
  /-- It has inserted its rows. -/
  | inserted (rows : List (Uuid × EmbeddingJob))
  /-- The scan has read a page. -/
  | reconciling (space : EmbeddingSpace) (limit : ℕ) (eligible : List (Uuid × Uuid))
  /-- A forget has marked its memory and deleted the jobs it found. -/
  | forgetting (t : Uuid) (doomed : List Uuid)
  deriving DecidableEq

structure JobStore where
  tables : Tables
  opened : List OpenTx
  deriving DecidableEq

namespace JobStore

def init : JobStore := ⟨.empty, []⟩

/-- The jobs an open forget has deleted: their rows stay locked until it ends. -/
def lockedJob (s : JobStore) (id : Uuid) : Bool :=
  s.opened.any fun
    | .forgetting _ doomed => id ∈ doomed
    | _ => false

/-- The memories an open forget has marked. -/
def lockedMemory (s : JobStore) (t : Uuid) : Bool :=
  s.opened.any fun
    | .forgetting t' _ => t = t'
    | _ => false

/-- The jobs open enqueues have inserted. -/
def uncommitted (s : JobStore) : List (Uuid × EmbeddingJob) :=
  s.opened.flatMap fun
    | .inserted rows => rows
    | _ => []

/-- An insert of these jobs has to wait for no other transaction, and draws ids nobody has. -/
def insertable (s : JobStore) (targets : List (Uuid × Uuid × EmbeddingSpace)) (ids : List Uuid) :
    Bool :=
  ids.Nodup ∧ targets.length ≤ ids.length ∧
    (∀ id ∈ ids, s.tables.embeddingJobs.get? id = none ∧ id ∉ s.uncommitted.map Prod.fst) ∧
    ∀ p ∈ targets,
      (∀ r ∈ s.uncommitted, (r.2.owner, r.2.entity, r.2.space) ≠ p) ∧
      ∀ r ∈ s.tables.embeddingJobs.rows,
        s.lockedJob r.1 → (r.2.owner, r.2.entity, r.2.space) ≠ p

/-- The tables after a transaction, which a refusal leaves as they were. -/
def finish (s : JobStore) (result : Except StorageError Tables) : JobStore :=
  match result with
  | .ok T => { s with tables := T }
  | .error _ => s

end JobStore

inductive Action where
  | enqueueMissing (permit : OwnerWritePermit) (space : EmbeddingSpace) (limit : ℤ)
      (nonEmbeddable : List String)
  | insertMissing (n : ℕ) (ids : List Uuid)
  | commit (n : ℕ)
  | rollback (n : ℕ)
  | admitMemory (t : Uuid) (row : MemoryRow) (spaces : List EmbeddingSpace) (ids : List Uuid)
  | reconcile (options : EmbeddingReconcileOptions) (limit : ℕ) (after : Option Uuid)
  | reconcileInsert (n : ℕ) (ids : List Uuid)
  | claim (now : ℕ) (token : Uuid → Uuid) (limit : ℤ) (skipOwners : List Uuid)
      (skipOwnerSpaces : List (Uuid × EmbeddingSpace))
  | release (claims : List EmbeddingJobClaim) (error : String)
  | fail (claim : EmbeddingJobClaim) (permanently : Bool) (error : String)
  | complete (claim : EmbeddingJobClaim)
  | renew (now : ℕ) (claims : List EmbeddingJobClaim)
  | reclaim (now : ℕ) (olderThanSeconds : ℤ)
  | forget (t : Uuid) (reach : Reach)
  | restore (t : Uuid) (reach : Reach) (route : RouteSpaces) (ids : List Uuid)

namespace JobStore

/-- `enqueue_missing_embedding_jobs` up to its read, which takes no lock. -/
def enqueueMissing (s : JobStore) (permit : OwnerWritePermit) (space : EmbeddingSpace) (limit : ℤ)
    (nonEmbeddable : List String) : JobStore :=
  match ensureNonnegativeLimit limit with
  | .error _ => s
  | .ok limit =>
    let ids := missingEmbeddingIds s.tables permit.owner space limit nonEmbeddable
      (kindsWithin permit.accessKind)
    if ids = [] then s else { s with opened := s.opened ++ [.selected permit space ids] }

/-- Its insert. Below the goals of the owner the row check asks for the memory, which row security
hides once it is forgotten; the transaction then fails. -/
def insertMissing (s : JobStore) (n : ℕ) (jobIds : List Uuid) : Option JobStore :=
  match s.opened[n]? with
  | some (.selected permit space ids) =>
    let targets := ids.map fun t => (permit.owner, t, space)
    if !s.insertable targets jobIds then none
    else if !permit.writesGoals ∧ ids.any fun t => !s.tables.live t then
      some { s with opened := s.opened.eraseIdx n }
    else some { s with opened := s.opened.set n (.inserted (newJobs s.tables targets jobIds)) }
  | _ => none

def commit (s : JobStore) (n : ℕ) : Option JobStore :=
  match s.opened[n]? with
  | some (.inserted rows) =>
    some { tables := addJobs rows s.tables, opened := s.opened.eraseIdx n }
  | some (.forgetting t doomed) =>
    some { tables := forgetMemory t doomed s.tables, opened := s.opened.eraseIdx n }
  | _ => none

/-- A page of the scan waits for the forgets of its memories, and then takes the live ones. -/
def reconcileInsert (s : JobStore) (n : ℕ) (ids : List Uuid) : Option JobStore :=
  match s.opened[n]? with
  | some (.reconciling space limit eligible) =>
    let limited := reconcileLimited eligible limit s.tables
    if (limited.any fun r => s.lockedMemory r.1) ∨
        !s.insertable (limited.map fun r => (r.2, r.1, space)) ids then none
    else some
      { tables := Embedding.reconcileInsert space limited ids s.tables
        opened := s.opened.eraseIdx n }
  | _ => none

/-- A forget up to the deletion of the jobs it finds. -/
def forget (s : JobStore) (t : Uuid) (reach : Reach) : Option JobStore :=
  match s.tables.memory.get? t with
  | none => some s
  | some m =>
    if !reach.admits m ∨ m.forgotten then some s
    else if s.lockedMemory t then none
    else some
      { s with
        opened := s.opened ++ [.forgetting t
          ((s.tables.embeddingJobs.rows.filter fun r => r.2.entity = t).map Prod.fst)] }

/-- One action of one of the callers; `none` where it has to wait. -/
def step (createdAt : Uuid → ℕ) (s : JobStore) : Action → Option JobStore
  | .enqueueMissing permit space limit nonEmbeddable =>
    some (s.enqueueMissing permit space limit nonEmbeddable)
  | .insertMissing n ids => s.insertMissing n ids
  | .commit n => s.commit n
  | .rollback n => some { s with opened := s.opened.eraseIdx n }
  | .admitMemory t row spaces ids =>
    if s.tables.memory.get? t = none ∧
        s.insertable (spaces.map fun space => (row.owner, t, space)) ids then
      some { s with tables := Embedding.admitMemory t row spaces ids s.tables }
    else none
  | .reconcile options limit after =>
    some { s with
      opened := s.opened ++ [.reconciling options.space limit
        ((reconcileEligible createdAt options after s.tables).map fun r => (r.1, r.2.owner))] }
  | .reconcileInsert n ids => s.reconcileInsert n ids
  | .claim now token limit skipOwners skipOwnerSpaces =>
    some (s.finish ((claimPendingEmbeddingJobs now token s.lockedJob limit skipOwners
      skipOwnerSpaces s.tables).map Prod.snd))
  | .release claims error =>
    if claims.any fun claim => s.lockedJob claim.jobId then none
    else some (s.finish (releaseEmbeddingJobs claims error s.tables))
  | .fail claim permanently error =>
    if s.lockedJob claim.jobId then none
    else some (s.finish (if permanently then failEmbeddingJobPermanently claim error s.tables
      else failEmbeddingJob claim error s.tables))
  | .complete claim =>
    if s.lockedJob claim.jobId then none
    else some (s.finish (completeEmbeddingJob claim s.tables))
  | .renew now claims =>
    if claims.any fun claim => s.lockedJob claim.jobId then none
    else some (s.finish (.ok (renewEmbeddingJobs now claims s.tables)))
  | .reclaim now olderThanSeconds =>
    if s.tables.embeddingJobs.rows.any fun r => s.lockedJob r.1 ∧ r.2.status = .processing then none
    else some (s.finish (reclaimStaleEmbeddingJobs now olderThanSeconds s.tables))
  | .forget t reach => s.forget t reach
  | .restore t reach route ids =>
    if s.lockedMemory t ∨
        !s.insertable (route.spaces.map fun space => (reach.owner, t, space)) ids then none
    else some (s.finish (restoreMemory t reach route ids s.tables))

def run (createdAt : Uuid → ℕ) (s : JobStore) (actions : List Action) : Option JobStore :=
  actions.foldlM (step createdAt) s

end JobStore

end Proxiima.Embedding
