import Proxiima.Memory.Derived

/-!
# Forget, restore, erase and transfer

`forget.rs` and the transfer of `owner_columns.rs`. Each takes the lock of the series handle
before it changes a version, and moves the head to what remains.
-/

namespace Proxiima.Memory

open ReadCommitted Prog

def probeMemoryHandleForOwner (owner t : Uuid) : Tx (Option Uuid) := do
  let v ← view
  pure ((ownedMemory v owner t).map (·.handle))

/-- Point the head at the newest remaining version, or delete it when none is left. -/
def syncMemoryHead (handle : Uuid) : Tx PUnit := do
  let v ← view
  let newest := remaining v handle
  match ← lockRow (V := Row) (.row (.head handle)) (.head handle) with
  | none => pure ()
  | some head => write [⟨.head handle, newest.map fun t => { head with t := t }⟩]

/-- `DELETE FROM ingest_keys` -/
def deleteIngestKeys (asked : Uuid → Uuid → Bool) : Tx PUnit := do
  let v ← view
  (receipts v asked).forM fun r => do
    match ← lockRow (V := Row) (.row (.ingestKey r.1 r.2.1 r.2.2)) (.ingestKey r.1 r.2.1 r.2.2) with
    | none => pure ()
    | some _ => write [⟨.ingestKey r.1 r.2.1 r.2.2, none⟩]

section Hashed

variable (H : Hashes)

/-! ### Forget and restore -/

/-- Lock the source and every depender before the source row is locked. -/
def lockForgetFootprint (sourceT sourceHandle : Uuid) : Tx PUnit := do
  let v ← view
  let handles := sourceHandle :: (dependers v sourceT).map Prod.snd
  lockMemoryHandles H handles
  let v ← view
  let grounded := dependers v sourceT
  failIf (¬ ∀ p ∈ grounded, p.2 ∈ handles)
    (.retryable "forget depender handle set grew before lifecycle lock acquisition")
  lockLifecycleTargets H (sourceT :: grounded.map Prod.fst)
  let v ← view
  failIf (¬ ∀ p ∈ dependers v sourceT, p.1 ∈ grounded.map Prod.fst ∧ p.2 ∈ handles)
    (.retryable "forget depender footprint grew after lifecycle lock acquisition")

/-- The owner's row for `t`, locked, with its series locked before it. -/
def lockOwned (owner t : Uuid) : Tx MemoryRow := do
  match ← probeMemoryHandleForOwner owner t with
  | none => fail .notFound
  | some handle =>
    lockForgetFootprint H t handle
    match ← lockRow (V := Row) (.row (.memory t)) (.memory t) with
    | none => fail .notFound
    | some m =>
      failIf (m.ownerId ≠ owner ∨ m.handle ≠ handle) .notFound
      pure m

def markForgotten (t : Uuid) (m : MemoryRow) (forgotten : Bool) : Tx PUnit := do
  write [⟨.memory t, some { m with forgotten := forgotten }⟩]
  syncMemoryHead m.handle

def forgetInLifecycle (owner t : Uuid) (kinds : Option (List MemoryKind)) : Tx Response := do
  let m ← lockOwned H owner t
  failIf (m.forgotten = true ∨ ¬ kinds.all fun ks => m.kind ∈ ks) .notFound
  markForgotten t m true
  pure .done

def restoreInLifecycle (owner t : Uuid) (kinds : List MemoryKind) : Tx Response := do
  let m ← lockOwned H owner t
  failIf (m.kind ∉ kinds) .notFound
  if m.forgotten then
    markForgotten t m false
  pure .done

/-! ### Erase -/

def eraseMemoryInLifecycle (owner t : Uuid) : Tx PUnit := do
  lockOwnerFencesExclusive H [owner]
  match ← probeMemoryHandleForOwner owner t with
  | none => fail .notFound
  | some probedHandle =>
    lockMemoryHandles H [probedHandle]
    lockLifecycleTargets H [t]
    match ← probeMemoryHandleForOwner owner t with
    | none => fail .notFound
    | some handle =>
      failIf (handle ≠ probedHandle) (.retryable "memory target changed series while erasing")
      match ← lockRow (V := Row) (.row (.memory t)) (.memory t) with
      | none => pure ()
      | some m => if m.ownerId = owner then write [⟨.memory t, none⟩]
      syncMemoryHead handle
      deleteIngestKeys fun o t' => o = owner ∧ t' = t

def eraseMemory (owner t : Uuid) : Tx Response := do
  eraseMemoryInLifecycle H owner t
  pure (.erased 1)

/-- The members `(handle, t)` of the series of these handles under an owner. -/
def snapshotSeriesForHandles (v : Tables) (owner : Uuid) (handles : List Uuid) :
    List (Uuid × Uuid) :=
  ((memories v).filter fun p => p.2.ownerId = owner ∧ p.2.handle ∈ handles).map
    fun p => (p.2.handle, p.1)

def snapshotSeriesForErase (v : Tables) (owner : Uuid) (ts : List Uuid) : List (Uuid × Uuid) :=
  snapshotSeriesForHandles v owner
    (((memories v).filter fun p => p.2.ownerId = owner ∧ p.1 ∈ ts).map fun p => p.2.handle)

/-- A handle has none of the members it had: the series was replaced. -/
def generationReplaced (before after : List (Uuid × Uuid)) : Bool :=
  after.any fun p => !(after.any fun q => q ∈ before ∧ q.1 = p.1)

def eraseMemorySeries (owner : Uuid) (ts : List Uuid) : Tx Response :=
  if ts = [] then
    pure (.erased 0)
  else do
    lockOwnerFencesExclusive H [owner]
    let v ← view
    let before := snapshotSeriesForErase v owner ts
    lockMemoryHandles H (before.map Prod.fst)
    let v ← view
    let after := snapshotSeriesForHandles v owner (before.map Prod.fst)
    failIf (generationReplaced before after)
      (.retryable "memory series was replaced while erase waited for its handle lock")
    let versions := (after.map Prod.snd).dedup.insertionSort (· ≤ ·)
    lockLifecycleTargets H versions
    versions.forM (eraseMemoryInLifecycle H owner)
    pure (.erased versions.length)

/-! ### Transfer -/

/-- `SELECT t FROM memory WHERE handle AND owner ORDER BY t` -/
def seriesTs (v : Tables) (handle owner : Uuid) : List Uuid :=
  (((versions v handle).filter fun p => p.2.ownerId = owner).map Prod.fst).dedup.insertionSort
    (· ≤ ·)

def lockSeriesMembership (handle fromOwner : Uuid) : Tx (List Uuid) := do
  lockMemoryHandles H [handle]
  let v ← view
  let expected := seriesTs v handle fromOwner
  if expected = [] then
    pure []
  else
    lockLifecycleTargets H expected
    let v ← view
    failIf (seriesTs v handle fromOwner ≠ expected)
      (.retryable "series membership changed before transfer lifecycle locks were complete")
    pure expected

/-- The head the transfer moves, when the series is still the owner's. -/
def transferHead (v : Tables) (handle fromOwner : Uuid) (ts : List Uuid) :
    Except StorageError Uuid :=
  match headOf v handle with
  | none => .error (.retryable "memory head disappeared while the series still had rows")
  | some head =>
    if head.ownerId ≠ fromOwner then
      .error .notTransferred
    else if head.t ∉ ts then
      .error (.retryable "series head advanced after transfer locked its version set")
    else
      .ok head.t

/-- The generated leg over `memory`. -/
def rehomeMemory (fromOwner toOwner t : Uuid) : Tx PUnit := do
  match ← lockRow (V := Row) (.row (.memory t)) (.memory t) with
  | none => pure ()
  | some m => if m.ownerId = fromOwner then write [⟨.memory t, some { m with ownerId := toOwner }⟩]

/-- The head compare-and-set that decides whether the transfer happened. -/
def persistSeriesHeadTransfer (handle fromOwner toOwner expectedHeadT : Uuid) : Tx PUnit := do
  let refused : Tx PUnit := do
    let v ← view
    if (headOf v handle).any fun head => head.ownerId = fromOwner then
      fail (.retryable "series head advanced before transfer could persist")
    else
      fail .notTransferred
  match ← lockRow (V := Row) (.row (.head handle)) (.head handle) with
  | none => refused
  | some head =>
    if head.ownerId = fromOwner ∧ head.t = expectedHeadT then
      write [⟨.head handle, some { head with ownerId := toOwner }⟩]
    else
      refused

def transferCounter (handle fromOwner toOwner : Uuid) : Tx PUnit := do
  match ← lockRow (V := Row) (.row (.counter handle)) (.counter handle) with
  | none => pure ()
  | some c =>
    if c.ownerId = fromOwner then write [⟨.counter handle, some { c with ownerId := toOwner }⟩]

def transferMemoryHandle (requestedT handle fromOwner toOwner : Uuid) : Tx PUnit := do
  let ts ← lockSeriesMembership H handle fromOwner
  failIf (ts = []) .notTransferred
  let hasGuidance ← probe
  failIf (hasGuidance = true) (.constraintViolation
    "a memory series with Goal/Perspective causal relations cannot transfer owners")
  failIf (requestedT ∉ ts) .notTransferred
  let v ← view
  let expectedHeadT ← liftExcept (transferHead v handle fromOwner ts)
  let unpublishedUpload ← probe
  failIf (unpublishedUpload = true)
    (.conflict "owner has an upload whose publication is not complete")
  ts.forM (rehomeMemory fromOwner toOwner)
  deleteIngestKeys fun _ t => t ∈ ts
  persistSeriesHeadTransfer handle fromOwner toOwner expectedHeadT
  transferCounter handle fromOwner toOwner

def transferToOwner (fromOwner toOwner t : Uuid) : Tx Response := do
  failIf (fromOwner = toOwner)
    (.constraintViolation "transfer destination is the current owner")
  lockOwnerFencesExclusive H [fromOwner, toOwner]
  match ← probeMemoryHandleForOwner fromOwner t with
  | none => fail .notTransferred
  | some handle =>
    transferMemoryHandle H t handle fromOwner toOwner
    pure .done

/-! ### The system -/

def runCommand : Command → Tx Response
  | .ingest admission publish => ingestCore H admission publish
  | .derive draft => appendDerivedTimeseries H draft
  | .fork request => forkMemory H request
  | .lifecycleFact storeNumber owner schemaId =>
    retryCollision (ingestUnpinnedFactAt H storeNumber owner schemaId)
  | .forget owner t kinds => forgetInLifecycle H owner t kinds
  | .restore owner t kinds => restoreInLifecycle H owner t kinds
  | .erase owner t => eraseMemory H owner t
  | .eraseSeries owner ts => eraseMemorySeries H owner ts
  | .transfer fromOwner toOwner t => transferToOwner H fromOwner toOwner t

/-- The memory store: any number of transactions of these commands, side by side. -/
def system : System Row Lock StorageError Input Processes Command Response where
  conflict := Lock.conflict
  symm := Lock.conflict_symm
  rowLock := .row
  row_conflict k := by simp [Lock.conflict]
  body := runCommand H

end Hashed

end Proxiima.Memory
