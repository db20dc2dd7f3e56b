import Proxiima.Goals.Requests
import Proxiima.Serde.Json

/-!
# What a goal command declares

Every goal command is recorded beside the goal version it wrote, as a JSON declaration of the
command. A later command under the same request key replays when it declares the same. The
declaration names the author by category only, and leaves out what belongs to the session or to
the episode: the operator and tool of an authorship, the write act of a create, and the store a
piece of evidence was read in. It also leaves out the motivations a modify names.
-/

namespace Proxiima.Goals

open Collaboration (GoalState)
open Serde (Json)

/-- How ids are written as text, and read back. -/
structure UuidText where
  text : Uuid → String
  parse : String → Option Uuid
  parse_text : ∀ id, parse (text id) = some id

/-- Ids written in unary. -/
def unary : UuidText where
  text id := String.ofList (List.replicate id '1')
  parse s := some s.toList.length
  parse_text id := by simp

variable {P J : Type}

/-! ### The declarations -/

/-- The category of an author. -/
inductive Author where
  | user | systemOperator | systemTool | external
  deriving DecidableEq

def authorshipDeclaration : GoalAuthorship → Author
  | .user => .user
  | .system (.operator ..) => .systemOperator
  | .system (.tool _) => .systemTool
  | .external => .external

def replayAuthorship : Author → String
  | .user => "user"
  | .systemOperator => "system_operator"
  | .systemTool => "system_tool"
  | .external => "external"

/-- `ReplayPayloadKind`. -/
def replayPayloadKind : PayloadKind → String
  | .fact => "Fact"
  | .abstraction => "Abstraction"
  | .perspective => "Perspective"
  | .goal => "Goal"
  | .citedObject => "CitedObject"

/-- `ReplayGoalState`. -/
def replayGoalState : GoalState → String
  | .active => "Active"
  | .paused => "Paused"
  | .achieved => "Achieved"
  | .abandoned => "Abandoned"

/-- `ReplayPendingWork`. -/
def replayPendingWork : PendingWork → String
  | .keep => "keep"
  | .discard => "discard"

structure ReplaySidecar (J : Type) where
  kind : PayloadKind
  schemaId : String
  schemaVersion : UInt32
  payload : J

structure ReplayPayload (J : Type) where
  schemaId : String
  schemaVersion : UInt32
  title : String
  text : String
  payload : List UInt8
  sidecar : Option (ReplaySidecar J)

structure ReplayTopology where
  motivatedBy : List Uuid
  dependencies : List Uuid
  evidence : List Uuid

structure ReplayDraft (J : Type) where
  schemaId : String
  schemaVersion : UInt32
  title : String
  text : String
  payload : List UInt8
  sidecar : Option (ReplaySidecar J)
  state : GoalState
  topology : ReplayTopology
  supersedesGoalId : Option Uuid
  authorship : Author

structure TransitionBody where
  priorGoalId : Uuid
  nextState : GoalState
  authorship : Author
  pending : Option PendingWork

structure PriorAuthorshipBody where
  priorGoalId : Uuid
  authorship : Author
  evidence : Option (List Uuid)

structure ModifyBody (J : Type) where
  priorGoalId : Uuid
  replacement : ReplayPayload J
  authorship : Author
  evidence : Option (List Uuid)

structure DecomposeChildBody (J : Type) where
  parentGoalId : Uuid
  authorship : Author
  topology : ReplayTopology
  childIndex : ℕ
  payload : ReplayPayload J
  evidence : List Uuid

inductive ReplayCommand (J : Type) where
  | create (draft : ReplayDraft J)
  | transition (body : TransitionBody)
  | achieve (body : PriorAuthorshipBody)
  | modify (body : ModifyBody J)
  | decomposeChild (body : DecomposeChildBody J)

structure ReplayDeclaration (J : Type) where
  version : UInt8
  command : ReplayCommand J

/-! ### As JSON -/

section Json

variable (U : UuidText)

def idJson (id : Uuid) : Json J := .str (U.text id)

/-- A reference, an object of its one member. -/
def refJson (name : String) (id : Uuid) : Json J := .obj [(name, idJson U id)]

def motivationJson (id : Uuid) : Json J := refJson U "perspective_id" id

def dependencyJson (id : Uuid) : Json J := refJson U "goal_id" id

def evidenceJson (id : Uuid) : Json J := refJson U "memory_id" id

def bytesJson (bytes : List UInt8) : Json J := .arr (bytes.map fun b => .num b.toNat)

def ReplaySidecar.toJson (s : ReplaySidecar J) : Json J :=
  .obj [("kind", .str (replayPayloadKind s.kind)), ("schema_id", .str s.schemaId),
    ("schema_version", .num s.schemaVersion.toNat), ("payload", .value s.payload)]

def ReplayPayload.toJson (p : ReplayPayload J) : Json J :=
  .obj [("schema_id", .str p.schemaId), ("schema_version", .num p.schemaVersion.toNat),
    ("title", .str p.title), ("text", .str p.text), ("payload", bytesJson p.payload),
    ("sidecar", p.sidecar.elim .null ReplaySidecar.toJson)]

def ReplayTopology.toJson (t : ReplayTopology) : Json J :=
  .obj [("motivated_by", .arr (t.motivatedBy.map (motivationJson U))),
    ("dependencies", .arr (t.dependencies.map (dependencyJson U))),
    ("evidence", .arr (t.evidence.map (evidenceJson U)))]

def ReplayDraft.toJson (d : ReplayDraft J) : Json J :=
  .obj [("schema_id", .str d.schemaId), ("schema_version", .num d.schemaVersion.toNat),
    ("title", .str d.title), ("text", .str d.text), ("payload", bytesJson d.payload),
    ("sidecar", d.sidecar.elim .null ReplaySidecar.toJson),
    ("state", .str (replayGoalState d.state)), ("topology", d.topology.toJson U),
    ("supersedes_goal_id", d.supersedesGoalId.elim .null (idJson U)),
    ("authorship", .str (replayAuthorship d.authorship))]

def TransitionBody.members (b : TransitionBody) : List (String × Json J) :=
  [("prior_goal_id", idJson U b.priorGoalId), ("next_state", .str (replayGoalState b.nextState)),
    ("authorship", .str (replayAuthorship b.authorship))] ++
  -- A declaration without `pending` is one from before the member existed.
  b.pending.elim [] fun p => [("pending", .str (replayPendingWork p))]

def evidenceMember (evidence : Option (List Uuid)) : Json J :=
  evidence.elim .null fun ids => .arr (ids.map (evidenceJson U))

def PriorAuthorshipBody.members (b : PriorAuthorshipBody) : List (String × Json J) :=
  [("prior_goal_id", idJson U b.priorGoalId), ("authorship", .str (replayAuthorship b.authorship)),
    ("evidence", evidenceMember U b.evidence)]

def ModifyBody.members (b : ModifyBody J) : List (String × Json J) :=
  [("prior_goal_id", idJson U b.priorGoalId), ("replacement", b.replacement.toJson),
    ("authorship", .str (replayAuthorship b.authorship)), ("evidence", evidenceMember U b.evidence)]

def DecomposeChildBody.members (b : DecomposeChildBody J) : List (String × Json J) :=
  [("parent_goal_id", idJson U b.parentGoalId),
    ("authorship", .str (replayAuthorship b.authorship)), ("topology", b.topology.toJson U),
    ("child_index", .num b.childIndex), ("payload", b.payload.toJson),
    ("evidence", .arr (b.evidence.map (evidenceJson U)))]

/-- The verb, and the members of the body. -/
def ReplayCommand.members : ReplayCommand J → List (String × Json J)
  | .create draft => [("verb", .str "create"), ("draft", draft.toJson U)]
  | .transition body => ("verb", .str "transition") :: body.members U
  | .achieve body => ("verb", .str "achieve") :: body.members U
  | .modify body => ("verb", .str "modify") :: body.members U
  | .decomposeChild body => ("verb", .str "decompose_child") :: body.members U

def ReplayDeclaration.toJson (d : ReplayDeclaration J) : Json J :=
  .obj (("version", .num d.version.toNat) :: d.command.members U)

end Json

/-! ### The declaration of each command -/

section Commands

-- `SidecarPayload::durable`, of the typed payload.
variable (durable : P → Except String J)

def replayDeclaration (command : ReplayCommand J) : ReplayDeclaration J := ⟨1, command⟩

def GoalTopologyWrite.declared (t : GoalTopologyWrite) : ReplayTopology :=
  ⟨t.motivatedBy, t.dependencies, t.evidence.map GoalEvidenceRef.memoryId⟩

def durablePayload (payload : P) : Except StorageError J :=
  (durable payload).mapError .internal

def sidecarDeclaration : Option (SidecarPayload P) →
    Except StorageError (Option (ReplaySidecar J))
  | none => .ok none
  | some s => do
    let payload ← durablePayload durable s.payload
    pure (some ⟨s.kind, s.schemaId, s.schemaVersion, payload⟩)

def payloadDeclaration (p : GoalPayloadWrite P) : Except StorageError (ReplayPayload J) := do
  let sidecar ← sidecarDeclaration durable p.sidecarPayload
  pure ⟨p.schemaId, p.schemaVersion, p.title, p.text, p.payload, sidecar⟩

def draftDeclaration (d : GoalDraft P) : Except StorageError (ReplayDraft J) := do
  let sidecar ← sidecarDeclaration durable d.sidecarPayload
  pure ⟨d.schemaId, d.schemaVersion, d.title, d.text, d.payload, sidecar, d.state,
    d.topology.declared, d.supersedesGoalId, authorshipDeclaration d.authorship⟩

def createReplayDeclaration (req : CreateGoalAtomicRequest P) :
    Except StorageError (ReplayDeclaration J) := do
  let draft ← draftDeclaration durable req.draft
  pure (replayDeclaration (.create draft))

def GoalTransitionKind.pending : GoalTransitionKind → Option PendingWork
  | pause pending => some pending
  | resume => none
  | abandon => none

def transitionReplayDeclaration (req : TransitionGoalAtomicRequest) : ReplayDeclaration J :=
  replayDeclaration (.transition ⟨req.priorGoalId, req.transition.nextState,
    authorshipDeclaration req.authorship, req.transition.pending⟩)

def achieveReplayDeclaration (req : AchieveGoalAtomicRequest) : ReplayDeclaration J :=
  replayDeclaration (.achieve ⟨req.priorGoalId, authorshipDeclaration req.authorship,
    some (req.evidence.map GoalEvidenceRef.memoryId)⟩)

def modifyReplayDeclaration (req : ModifyGoalAtomicRequest P) :
    Except StorageError (ReplayDeclaration J) := do
  let replacement ← payloadDeclaration durable req.replacement
  pure (replayDeclaration (.modify ⟨req.priorGoalId, replacement,
    authorshipDeclaration req.authorship,
    req.evidence.map fun evidence => evidence.map GoalEvidenceRef.memoryId⟩))

def decomposeChildReplayDeclaration (req : DecomposeGoalAtomicRequest P)
    (child : ChildGoalDraft P) (childIndex : ℕ) : Except StorageError (ReplayDeclaration J) := do
  let payload ← payloadDeclaration durable child.payload
  pure (replayDeclaration (.decomposeChild ⟨req.parentGoalId,
    authorshipDeclaration req.authorship, req.topology.declared, childIndex, payload,
    child.evidence.map GoalEvidenceRef.memoryId⟩))

/-- The declarations of the children from the index `i` on. -/
def declareChildren (req : DecomposeGoalAtomicRequest P) :
    ℕ → List (ChildGoalDraft P) → Except StorageError (List (ReplayDeclaration J))
  | _, [] => .ok []
  | i, child :: rest => do
    let declaration ← decomposeChildReplayDeclaration durable req child i
    let declarations ← declareChildren req (i + 1) rest
    pure (declaration :: declarations)

def decomposeReplayDeclarations (req : DecomposeGoalAtomicRequest P) :
    Except StorageError (List (ReplayDeclaration J)) :=
  declareChildren durable req 0 req.children

end Commands

end Proxiima.Goals
