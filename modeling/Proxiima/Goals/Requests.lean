import Proxiima.Collaboration.Tables

/-!
# Goal commands

The requests of the goal verbs, as the engine hands them to the store: create, transition,
achieve, modify and decompose. A topology can be built only through `GoalTopologyWrite.new`, which
keeps the first of repeated motivations and refuses repeated dependencies and evidence. Request
keys are the trimmed texts `IdempotencyKey` holds, and the typed payload of a sidecar is some
type `P`.
-/

namespace Proxiima.Goals

open Collaboration (GoalState)

inductive PendingWork where
  | keep | discard
  deriving DecidableEq

inductive GoalTransitionKind where
  | pause (pending : PendingWork)
  | resume
  | abandon
  deriving DecidableEq

def GoalTransitionKind.nextState : GoalTransitionKind → GoalState
  | pause _ => .paused
  | resume => .active
  | abandon => .abandoned

inductive SystemOrigin where
  | operator (operatorId inputContractId modelId promptVersion : String)
  | tool (toolId : String)
  deriving DecidableEq

inductive GoalAuthorship where
  | user
  | system (origin : SystemOrigin)
  | external
  deriving DecidableEq

inductive PayloadKind where
  | fact | abstraction | perspective | goal | citedObject
  deriving DecidableEq

inductive EntityKind where
  | fact | abstraction | perspective | goal
  deriving DecidableEq

structure SidecarPayload (P : Type) where
  kind : PayloadKind
  schemaId : String
  schemaVersion : UInt32
  payload : P
  deriving DecidableEq

structure GoalPayloadWrite (P : Type) where
  schemaId : String
  schemaVersion : UInt32
  title : String
  text : String
  payload : List UInt8
  sidecarPayload : Option (SidecarPayload P)
  deriving DecidableEq

/-- A memory a goal rests on; `remote` is the kind its own store reported for it, when it is
another store's. -/
structure GoalEvidenceRef where
  memoryId : Uuid
  remote : Option EntityKind
  deriving DecidableEq

/-! ### Topologies -/

/-- `ProtocolError::invalid_argument`. -/
structure InvalidArgument where
  field : String
  message : String
  deriving DecidableEq

/-- Each motivation at its first occurrence. -/
def normalized (motivatedBy : List Uuid) : List Uuid :=
  motivatedBy.foldl (fun kept m => if m ∈ kept then kept else kept ++ [m]) []

lemma nodup_foldl_normalized (ms kept : List Uuid) (h : kept.Nodup) :
    (ms.foldl (fun kept m => if m ∈ kept then kept else kept ++ [m]) kept).Nodup := by
  induction ms generalizing kept with
  | nil => exact h
  | cons m ms ih =>
    rw [List.foldl_cons]
    refine ih _ ?_
    split
    · exact h
    · rename_i hm
      exact List.nodup_append.2 ⟨h, List.nodup_singleton m, fun x hx y hy =>
        fun hxy => hm (List.mem_singleton.1 hy ▸ hxy ▸ hx)⟩

lemma nodup_normalized (ms : List Uuid) : (normalized ms).Nodup :=
  nodup_foldl_normalized ms [] List.nodup_nil

structure GoalTopologyWrite where
  motivatedBy : List Uuid
  dependencies : List Uuid
  evidence : List GoalEvidenceRef
  motivatedBy_nodup : motivatedBy.Nodup
  dependencies_nodup : dependencies.Nodup
  evidence_nodup : (evidence.map GoalEvidenceRef.memoryId).Nodup
  deriving DecidableEq

def GoalTopologyWrite.new (motivatedBy dependencies : List Uuid) (evidence : List GoalEvidenceRef) :
    Except InvalidArgument GoalTopologyWrite :=
  if hd : dependencies.Nodup then
    if he : (evidence.map GoalEvidenceRef.memoryId).Nodup then
      .ok ⟨normalized motivatedBy, dependencies, evidence, nodup_normalized motivatedBy, hd, he⟩
    else .error ⟨"evidence", "duplicate goal evidence"⟩
  else .error ⟨"dependencies", "duplicate goal dependency"⟩

/-! ### Requests -/

structure GoalDraft (P : Type) where
  owner : Uuid
  schemaId : String
  schemaVersion : UInt32
  title : String
  text : String
  payload : List UInt8
  sidecarPayload : Option (SidecarPayload P)
  state : GoalState
  topology : GoalTopologyWrite
  supersedesGoalId : Option Uuid
  authorship : GoalAuthorship
  requestId : String
  deriving DecidableEq

structure CreateGoalAtomicRequest (P : Type) where
  draft : GoalDraft P
  writeActT : Option Uuid
  deriving DecidableEq

structure TransitionGoalAtomicRequest where
  owner : Uuid
  priorGoalId : Uuid
  transition : GoalTransitionKind
  authorship : GoalAuthorship
  requestId : String
  deriving DecidableEq

structure AchieveGoalAtomicRequest where
  owner : Uuid
  priorGoalId : Uuid
  authorship : GoalAuthorship
  requestId : String
  evidence : List GoalEvidenceRef
  deriving DecidableEq

structure ModifyGoalAtomicRequest (P : Type) where
  owner : Uuid
  priorGoalId : Uuid
  replacement : GoalPayloadWrite P
  authorship : GoalAuthorship
  requestId : String
  evidence : Option (List GoalEvidenceRef)
  motivatedBy : Option (List Uuid)
  deriving DecidableEq

structure ChildGoalDraft (P : Type) where
  payload : GoalPayloadWrite P
  evidence : List GoalEvidenceRef
  requestId : String
  deriving DecidableEq

structure DecomposeGoalAtomicRequest (P : Type) where
  owner : Uuid
  parentGoalId : Uuid
  authorship : GoalAuthorship
  topology : GoalTopologyWrite
  children : List (ChildGoalDraft P)
  deriving DecidableEq

inductive StorageError where
  | notFound
  | constraintViolation (message : String)
  | conflict (message : String)
  | retryable (message : String)
  | idempotencyConflict (requestId : String) (existing : Option Uuid)
  | goalChildrenOpen (openGoals : List Uuid)
  | goalChildrenAllAbandoned
  | memoryIdCollision
  | internal (message : String)
  /-- The process panicked; the transaction is rolled back. -/
  | panicked (message : String)
  deriving DecidableEq

structure GoalWriteOutcome where
  goalId : Uuid
  goalHandle : Uuid
  edgeCount : ℕ
  idempotentReplay : Bool
  deriving DecidableEq

structure DecomposeGoalOutcome where
  children : List GoalWriteOutcome
  idempotentReplay : Bool
  deriving DecidableEq

end Proxiima.Goals
