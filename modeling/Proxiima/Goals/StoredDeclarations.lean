import Proxiima.Goals.Declarations

/-!
# Stored declarations read back

A schema evolution reads a stored declaration back, through a second family of types, replaces the
ids in it and the payload, and writes it again. The readers refuse unknown members and unknown
names. They accept whatever the first family wrote, and the second family writes what it read
back the way it was: a declaration is read back as its `stored` form, from which the same JSON is
written.
-/

namespace Proxiima.Goals

open Collaboration (GoalState)
open Serde

variable {P J : Type}

/-! ### The stored family -/

/-- An enumeration with the names its members are written under. -/
def named {α : Type} (name : α → String) (members : List α) : List (String × α) :=
  members.map fun x => (name x, x)

/-- `StoredPayloadKind`, renamed to Pascal case. -/
def storedPayloadKind : PayloadKind → String
  | .fact => "Fact"
  | .abstraction => "Abstraction"
  | .perspective => "Perspective"
  | .goal => "Goal"
  | .citedObject => "CitedObject"

def readPayloadKind : Json J → Except Error PayloadKind :=
  readVariant (named storedPayloadKind [.fact, .abstraction, .perspective, .goal, .citedObject])

/-- `StoredGoalState`, renamed to Pascal case. -/
def storedGoalState : GoalState → String
  | .active => "Active"
  | .paused => "Paused"
  | .achieved => "Achieved"
  | .abandoned => "Abandoned"

def readGoalState : Json J → Except Error GoalState :=
  readVariant (named storedGoalState [.active, .paused, .achieved, .abandoned])

/-- `StoredAuthorship`, renamed to snake case. -/
def storedAuthorship : Author → String
  | .user => "user"
  | .systemOperator => "system_operator"
  | .systemTool => "system_tool"
  | .external => "external"

def readAuthorship : Json J → Except Error Author :=
  readVariant (named storedAuthorship [.user, .systemOperator, .systemTool, .external])

/-- `StoredPendingWork`, renamed to lower case. -/
def storedPendingWork : PendingWork → String
  | .keep => "keep"
  | .discard => "discard"

def readPendingWork : Json J → Except Error PendingWork :=
  readVariant (named storedPendingWork [.keep, .discard])

structure StoredSidecar (J : Type) where
  kind : PayloadKind
  schemaId : String
  schemaVersion : ℕ
  payload : Json J

structure StoredPayload (J : Type) where
  schemaId : String
  schemaVersion : ℕ
  title : String
  text : String
  payload : List ℕ
  sidecar : Option (StoredSidecar J)

structure StoredTopology where
  motivatedBy : List Uuid
  dependencies : List Uuid
  evidence : List Uuid

structure StoredDraft (J : Type) where
  schemaId : String
  schemaVersion : ℕ
  title : String
  text : String
  payload : List ℕ
  sidecar : Option (StoredSidecar J)
  state : GoalState
  topology : StoredTopology
  supersedesGoalId : Option Uuid
  authorship : Author

structure StoredTransitionBody where
  priorGoalId : Uuid
  nextState : GoalState
  authorship : Author
  pending : Option PendingWork

structure StoredPriorAuthorshipBody where
  priorGoalId : Uuid
  authorship : Author
  evidence : Option (List Uuid)

structure StoredModifyBody (J : Type) where
  priorGoalId : Uuid
  replacement : StoredPayload J
  authorship : Author
  evidence : Option (List Uuid)

structure StoredDecomposeChildBody (J : Type) where
  parentGoalId : Uuid
  authorship : Author
  topology : StoredTopology
  childIndex : ℕ
  payload : StoredPayload J
  evidence : List Uuid

inductive StoredReplayCommand (J : Type) where
  | create (draft : StoredDraft J)
  | transition (body : StoredTransitionBody)
  | achieve (body : StoredPriorAuthorshipBody)
  | modify (body : StoredModifyBody J)
  | decomposeChild (body : StoredDecomposeChildBody J)

structure StoredReplayDeclaration (J : Type) where
  version : ℕ
  command : StoredReplayCommand J

/-! ### Reading -/

section Read

variable (U : UuidText)

def readId (j : Json J) : Except Error Uuid := do
  let s ← readStr j
  match U.parse s with
  | some id => pure id
  | none => throw .invalidValue

def readRef (name : String) (j : Json J) : Except Error Uuid := do
  let ms ← readStruct [name] j
  requiredMember name (readId U) ms

def readMotivation : Json J → Except Error Uuid := readRef U "perspective_id"

def readDependency : Json J → Except Error Uuid := readRef U "goal_id"

def readEvidence : Json J → Except Error Uuid := readRef U "memory_id"

def readU8 : Json J → Except Error ℕ := readBelow (2 ^ 8)

def readU32 : Json J → Except Error ℕ := readBelow (2 ^ 32)

def StoredSidecar.read (j : Json J) : Except Error (StoredSidecar J) := do
  let ms ← readStruct ["kind", "schema_id", "schema_version", "payload"] j
  let kind ← requiredMember "kind" readPayloadKind ms
  let schemaId ← requiredMember "schema_id" readStr ms
  let schemaVersion ← requiredMember "schema_version" readU32 ms
  let payload ← requiredMember "payload" .ok ms
  pure ⟨kind, schemaId, schemaVersion, payload⟩

def StoredPayload.read (j : Json J) : Except Error (StoredPayload J) := do
  let ms ← readStruct ["schema_id", "schema_version", "title", "text", "payload", "sidecar"] j
  let schemaId ← requiredMember "schema_id" readStr ms
  let schemaVersion ← requiredMember "schema_version" readU32 ms
  let title ← requiredMember "title" readStr ms
  let text ← requiredMember "text" readStr ms
  let payload ← requiredMember "payload" (readArr readU8) ms
  let sidecar ← optionalMember "sidecar" StoredSidecar.read ms
  pure ⟨schemaId, schemaVersion, title, text, payload, sidecar⟩

def StoredTopology.read (j : Json J) : Except Error StoredTopology := do
  let ms ← readStruct ["motivated_by", "dependencies", "evidence"] j
  let motivatedBy ← requiredMember "motivated_by" (readArr (readMotivation U)) ms
  let dependencies ← requiredMember "dependencies" (readArr (readDependency U)) ms
  let evidence ← requiredMember "evidence" (readArr (readEvidence U)) ms
  pure ⟨motivatedBy, dependencies, evidence⟩

def StoredDraft.read (j : Json J) : Except Error (StoredDraft J) := do
  let ms ← readStruct ["schema_id", "schema_version", "title", "text", "payload", "sidecar",
    "state", "topology", "supersedes_goal_id", "authorship"] j
  let schemaId ← requiredMember "schema_id" readStr ms
  let schemaVersion ← requiredMember "schema_version" readU32 ms
  let title ← requiredMember "title" readStr ms
  let text ← requiredMember "text" readStr ms
  let payload ← requiredMember "payload" (readArr readU8) ms
  let sidecar ← optionalMember "sidecar" StoredSidecar.read ms
  let state ← requiredMember "state" readGoalState ms
  let topology ← requiredMember "topology" (StoredTopology.read U) ms
  let supersedesGoalId ← optionalMember "supersedes_goal_id" (readId U) ms
  let authorship ← requiredMember "authorship" readAuthorship ms
  pure ⟨schemaId, schemaVersion, title, text, payload, sidecar, state, topology,
    supersedesGoalId, authorship⟩

def readCreateBody (j : Json J) : Except Error (StoredDraft J) := do
  let ms ← readStruct ["draft"] j
  requiredMember "draft" (StoredDraft.read U) ms

def StoredTransitionBody.read (j : Json J) : Except Error StoredTransitionBody := do
  let ms ← readStruct ["prior_goal_id", "next_state", "authorship", "pending"] j
  let priorGoalId ← requiredMember "prior_goal_id" (readId U) ms
  let nextState ← requiredMember "next_state" readGoalState ms
  let authorship ← requiredMember "authorship" readAuthorship ms
  let pending ← optionalMember "pending" readPendingWork ms
  pure ⟨priorGoalId, nextState, authorship, pending⟩

def StoredPriorAuthorshipBody.read (j : Json J) : Except Error StoredPriorAuthorshipBody := do
  let ms ← readStruct ["prior_goal_id", "authorship", "evidence"] j
  let priorGoalId ← requiredMember "prior_goal_id" (readId U) ms
  let authorship ← requiredMember "authorship" readAuthorship ms
  let evidence ← optionalMember "evidence" (readArr (readEvidence U)) ms
  pure ⟨priorGoalId, authorship, evidence⟩

def StoredModifyBody.read (j : Json J) : Except Error (StoredModifyBody J) := do
  let ms ← readStruct ["prior_goal_id", "replacement", "authorship", "evidence"] j
  let priorGoalId ← requiredMember "prior_goal_id" (readId U) ms
  let replacement ← requiredMember "replacement" StoredPayload.read ms
  let authorship ← requiredMember "authorship" readAuthorship ms
  let evidence ← optionalMember "evidence" (readArr (readEvidence U)) ms
  pure ⟨priorGoalId, replacement, authorship, evidence⟩

def StoredDecomposeChildBody.read (j : Json J) : Except Error (StoredDecomposeChildBody J) := do
  let ms ← readStruct ["parent_goal_id", "authorship", "topology", "child_index", "payload",
    "evidence"] j
  let parentGoalId ← requiredMember "parent_goal_id" (readId U) ms
  let authorship ← requiredMember "authorship" readAuthorship ms
  let topology ← requiredMember "topology" (StoredTopology.read U) ms
  let childIndex ← requiredMember "child_index" readNat ms
  let payload ← requiredMember "payload" StoredPayload.read ms
  let evidence ← requiredMember "evidence" (readArr (readEvidence U)) ms
  pure ⟨parentGoalId, authorship, topology, childIndex, payload, evidence⟩

/-- The body of a verb, from the members that are left once the verb is taken out. -/
def readVerb (verb : String) (body : Json J) : Except Error (StoredReplayCommand J) :=
  match verb with
  | "create" => .create <$> readCreateBody U body
  | "transition" => .transition <$> StoredTransitionBody.read U body
  | "achieve" => .achieve <$> StoredPriorAuthorshipBody.read U body
  | "modify" => .modify <$> StoredModifyBody.read U body
  | "decompose_child" => .decomposeChild <$> StoredDecomposeChildBody.read U body
  | verb => .error (.unknownVariant verb)

/-- The command is flattened: its members stand beside the version. -/
def StoredReplayDeclaration.read : Json J → Except Error (StoredReplayDeclaration J)
  | .obj ms => do
    let version ← requiredMember "version" readU8 ms
    let rest := without "version" ms
    let verb ← requiredMember "verb" readStr rest
    let command ← readVerb U verb (.obj (without "verb" rest))
    pure ⟨version, command⟩
  | _ => .error .invalidType

end Read

/-! ### Writing -/

section Write

variable (U : UuidText)

def naturalsJson (ns : List ℕ) : Json J := .arr (ns.map .num)

def StoredSidecar.toJson (s : StoredSidecar J) : Json J :=
  .obj [("kind", .str (storedPayloadKind s.kind)), ("schema_id", .str s.schemaId),
    ("schema_version", .num s.schemaVersion), ("payload", s.payload)]

def StoredPayload.toJson (p : StoredPayload J) : Json J :=
  .obj [("schema_id", .str p.schemaId), ("schema_version", .num p.schemaVersion),
    ("title", .str p.title), ("text", .str p.text), ("payload", naturalsJson p.payload),
    ("sidecar", p.sidecar.elim .null StoredSidecar.toJson)]

def StoredTopology.toJson (t : StoredTopology) : Json J :=
  .obj [("motivated_by", .arr (t.motivatedBy.map (refJson U "perspective_id"))),
    ("dependencies", .arr (t.dependencies.map (refJson U "goal_id"))),
    ("evidence", .arr (t.evidence.map (refJson U "memory_id")))]

def StoredDraft.toJson (d : StoredDraft J) : Json J :=
  .obj [("schema_id", .str d.schemaId), ("schema_version", .num d.schemaVersion),
    ("title", .str d.title), ("text", .str d.text), ("payload", naturalsJson d.payload),
    ("sidecar", d.sidecar.elim .null StoredSidecar.toJson),
    ("state", .str (storedGoalState d.state)), ("topology", d.topology.toJson U),
    ("supersedes_goal_id", d.supersedesGoalId.elim .null (idJson U)),
    ("authorship", .str (storedAuthorship d.authorship))]

def StoredTransitionBody.members (b : StoredTransitionBody) : List (String × Json J) :=
  [("prior_goal_id", idJson U b.priorGoalId), ("next_state", .str (storedGoalState b.nextState)),
    ("authorship", .str (storedAuthorship b.authorship))] ++
  b.pending.elim [] fun p => [("pending", .str (storedPendingWork p))]

def storedEvidenceMember (evidence : Option (List Uuid)) : Json J :=
  evidence.elim .null fun ids => .arr (ids.map (refJson U "memory_id"))

def StoredPriorAuthorshipBody.members (b : StoredPriorAuthorshipBody) : List (String × Json J) :=
  [("prior_goal_id", idJson U b.priorGoalId),
    ("authorship", .str (storedAuthorship b.authorship)),
    ("evidence", storedEvidenceMember U b.evidence)]

def StoredModifyBody.members (b : StoredModifyBody J) : List (String × Json J) :=
  [("prior_goal_id", idJson U b.priorGoalId), ("replacement", b.replacement.toJson),
    ("authorship", .str (storedAuthorship b.authorship)),
    ("evidence", storedEvidenceMember U b.evidence)]

def StoredDecomposeChildBody.members (b : StoredDecomposeChildBody J) : List (String × Json J) :=
  [("parent_goal_id", idJson U b.parentGoalId),
    ("authorship", .str (storedAuthorship b.authorship)), ("topology", b.topology.toJson U),
    ("child_index", .num b.childIndex), ("payload", b.payload.toJson),
    ("evidence", .arr (b.evidence.map (refJson U "memory_id")))]

def StoredReplayCommand.members : StoredReplayCommand J → List (String × Json J)
  | .create draft => [("verb", .str "create"), ("draft", draft.toJson U)]
  | .transition body => ("verb", .str "transition") :: body.members U
  | .achieve body => ("verb", .str "achieve") :: body.members U
  | .modify body => ("verb", .str "modify") :: body.members U
  | .decomposeChild body => ("verb", .str "decompose_child") :: body.members U

def StoredReplayDeclaration.toJson (d : StoredReplayDeclaration J) : Json J :=
  .obj (("version", .num d.version) :: d.command.members U)

end Write

/-! ### The stored form of a declaration -/

def ReplaySidecar.stored (s : ReplaySidecar J) : StoredSidecar J :=
  ⟨s.kind, s.schemaId, s.schemaVersion.toNat, .value s.payload⟩

def storedBytes (bytes : List UInt8) : List ℕ := bytes.map UInt8.toNat

def ReplayPayload.stored (p : ReplayPayload J) : StoredPayload J :=
  ⟨p.schemaId, p.schemaVersion.toNat, p.title, p.text, storedBytes p.payload,
    p.sidecar.map ReplaySidecar.stored⟩

def ReplayTopology.stored (t : ReplayTopology) : StoredTopology :=
  ⟨t.motivatedBy, t.dependencies, t.evidence⟩

def ReplayDraft.stored (d : ReplayDraft J) : StoredDraft J :=
  ⟨d.schemaId, d.schemaVersion.toNat, d.title, d.text, storedBytes d.payload,
    d.sidecar.map ReplaySidecar.stored, d.state, d.topology.stored, d.supersedesGoalId,
    d.authorship⟩

def ReplayCommand.stored : ReplayCommand J → StoredReplayCommand J
  | .create draft => .create draft.stored
  | .transition b => .transition ⟨b.priorGoalId, b.nextState, b.authorship, b.pending⟩
  | .achieve b => .achieve ⟨b.priorGoalId, b.authorship, b.evidence⟩
  | .modify b => .modify ⟨b.priorGoalId, b.replacement.stored, b.authorship, b.evidence⟩
  | .decomposeChild b => .decomposeChild ⟨b.parentGoalId, b.authorship, b.topology.stored,
      b.childIndex, b.payload.stored, b.evidence⟩

def ReplayDeclaration.stored (d : ReplayDeclaration J) : StoredReplayDeclaration J :=
  ⟨d.version.toNat, d.command.stored⟩

lemma readPayloadKind_str (k : PayloadKind) :
    readPayloadKind (.str (replayPayloadKind k) : Json J) = .ok k := by
  cases k <;> rfl

lemma readGoalState_str (s : GoalState) :
    readGoalState (.str (replayGoalState s) : Json J) = .ok s := by
  cases s <;> rfl

lemma readAuthorship_str (a : Author) :
    readAuthorship (.str (replayAuthorship a) : Json J) = .ok a := by
  cases a <;> rfl

lemma readPendingWork_str (p : PendingWork) :
    readPendingWork (.str (replayPendingWork p) : Json J) = .ok p := by
  cases p <;> rfl

lemma readU32_num (n : UInt32) : readU32 (.num n.toNat : Json J) = .ok n.toNat :=
  readBelow_num n.toNat_lt

lemma readU8_num (n : UInt8) : readU8 (.num n.toNat : Json J) = .ok n.toNat :=
  readBelow_num n.toNat_lt

lemma readBytes (bytes : List UInt8) :
    readArr readU8 (bytesJson bytes : Json J) = .ok (storedBytes bytes) :=
  readArr_map readU8_num bytes

section RoundTrip

variable (U : UuidText)

lemma readId_idJson (id : Uuid) : readId U (idJson U id : Json J) = .ok id := by
  change (match U.parse (U.text id) with
    | some id => pure id
    | none => throw Error.invalidValue : Except Error Uuid) = _
  rw [U.parse_text]
  rfl

lemma readRef_refJson (name : String) (id : Uuid) :
    readRef U name (refJson U name id : Json J) = .ok id := by
  simp [readRef, refJson, readStruct, requiredMember, member, readId_idJson, bind, Except.bind]

lemma StoredSidecar.read_toJson (s : ReplaySidecar J) :
    StoredSidecar.read s.toJson = .ok s.stored := by
  simp [StoredSidecar.read, ReplaySidecar.toJson, readStruct, requiredMember, member,
    readPayloadKind_str, readStr, readU32_num, bind, Except.bind, pure, Except.pure,
    ReplaySidecar.stored]

lemma readSidecar (o : Option (ReplaySidecar J)) :
    readOption StoredSidecar.read (o.elim .null ReplaySidecar.toJson) =
      .ok (o.map ReplaySidecar.stored) :=
  readOption_elim StoredSidecar.read_toJson (fun _ h => nomatch h) o

lemma StoredPayload.read_toJson (p : ReplayPayload J) :
    StoredPayload.read p.toJson = .ok p.stored := by
  simp [StoredPayload.read, ReplayPayload.toJson, readStruct, requiredMember, optionalMember,
    member, readStr, readU32_num, readBytes, readSidecar, bind, Except.bind, pure, Except.pure,
    ReplayPayload.stored]

lemma readRefs (name : String) (ids : List Uuid) :
    readArr (readRef U name) (.arr (ids.map (refJson U name)) : Json J) = .ok ids := by
  have h := readArr_map (@readRef_refJson J U name) ids
  rwa [List.map_id'] at h

lemma StoredTopology.read_toJson (t : ReplayTopology) :
    StoredTopology.read U (t.toJson U : Json J) = .ok t.stored := by
  have hm : readArr (readMotivation U) (.arr (t.motivatedBy.map (motivationJson U)) : Json J) =
      .ok t.motivatedBy := readRefs U _ _
  have hd : readArr (readDependency U) (.arr (t.dependencies.map (dependencyJson U)) : Json J) =
      .ok t.dependencies := readRefs U _ _
  have he : readArr (readEvidence U) (.arr (t.evidence.map (evidenceJson U)) : Json J) =
      .ok t.evidence := readRefs U _ _
  simp [StoredTopology.read, ReplayTopology.toJson, readStruct, requiredMember, member, hm, hd, he,
    bind, Except.bind, pure, Except.pure, ReplayTopology.stored]

lemma readIdOption (o : Option Uuid) :
    readOption (readId U) (o.elim .null (idJson U) : Json J) = .ok o := by
  have h := readOption_elim (@readId_idJson J U) (fun _ h => nomatch h) o
  rwa [Option.map_id'] at h

lemma readEvidenceOption (o : Option (List Uuid)) :
    readOption (readArr (readEvidence U)) (evidenceMember U o : Json J) = .ok o := by
  have h := readOption_elim (@readRefs J U "memory_id") (fun _ h => nomatch h) o
  rwa [Option.map_id'] at h

lemma StoredDraft.read_toJson (d : ReplayDraft J) :
    StoredDraft.read U (d.toJson U) = .ok d.stored := by
  simp [StoredDraft.read, ReplayDraft.toJson, readStruct, requiredMember, optionalMember, member,
    readStr, readU32_num, readBytes, readSidecar, readGoalState_str, readAuthorship_str,
    StoredTopology.read_toJson, readIdOption, bind, Except.bind, pure, Except.pure,
    ReplayDraft.stored]

/-- The readers accept the members a body was written with. -/
lemma readVerb_members (c : ReplayCommand J) :
    ∃ verb body, c.members U = ("verb", .str verb) :: body ∧ without "version" body = body ∧
      without "verb" body = body ∧ readVerb U verb (.obj body) = .ok c.stored := by
  cases c with
  | create draft =>
    refine ⟨_, _, rfl, rfl, rfl, ?_⟩
    simp [readVerb, readCreateBody, readStruct, requiredMember, member, StoredDraft.read_toJson,
      ReplayCommand.stored, bind, Except.bind, Functor.map, Except.map]
  | transition b =>
    obtain ⟨prior, next, author, pending⟩ := b
    refine ⟨_, _, rfl, ?_⟩
    cases pending with
    | none =>
      refine ⟨rfl, rfl, ?_⟩
      simp [TransitionBody.members, readVerb, StoredTransitionBody.read, readStruct,
        requiredMember, optionalMember, member, readId_idJson, readGoalState_str,
        readAuthorship_str, ReplayCommand.stored, bind, Except.bind, pure, Except.pure,
        Functor.map, Except.map]
    | some p =>
      refine ⟨rfl, rfl, ?_⟩
      simp [TransitionBody.members, readVerb, StoredTransitionBody.read, readStruct,
        requiredMember, optionalMember, member, readOption, readId_idJson, readGoalState_str,
        readAuthorship_str, readPendingWork_str, ReplayCommand.stored, bind, Except.bind, pure,
        Except.pure, Functor.map, Except.map]
  | achieve b =>
    refine ⟨_, _, rfl, rfl, rfl, ?_⟩
    simp [readVerb, StoredPriorAuthorshipBody.read, PriorAuthorshipBody.members, readStruct,
      requiredMember, optionalMember, member, readId_idJson, readAuthorship_str,
      readEvidenceOption, ReplayCommand.stored, bind, Except.bind, pure, Except.pure,
      Functor.map, Except.map]
  | modify b =>
    refine ⟨_, _, rfl, rfl, rfl, ?_⟩
    simp [readVerb, StoredModifyBody.read, ModifyBody.members, readStruct,
      requiredMember, optionalMember, member, readId_idJson, readAuthorship_str,
      StoredPayload.read_toJson, readEvidenceOption, ReplayCommand.stored, bind, Except.bind,
      pure, Except.pure, Functor.map, Except.map]
  | decomposeChild b =>
    refine ⟨_, _, rfl, rfl, rfl, ?_⟩
    have hev : readArr (readEvidence U) (.arr (b.evidence.map (evidenceJson U)) : Json J) =
        .ok b.evidence := readRefs U _ _
    simp [readVerb, StoredDecomposeChildBody.read, DecomposeChildBody.members, readStruct,
      requiredMember, member, readId_idJson, readAuthorship_str, StoredTopology.read_toJson,
      readNat, StoredPayload.read_toJson, hev, ReplayCommand.stored, bind,
      Except.bind, pure, Except.pure, Functor.map, Except.map]

/-- **Whatever a command declares is read back**, as its stored form. -/
theorem StoredReplayDeclaration.read_toJson (d : ReplayDeclaration J) :
    StoredReplayDeclaration.read U (d.toJson U) = .ok d.stored := by
  obtain ⟨verb, body, hmembers, hversion, hverb, hread⟩ := readVerb_members U d.command
  have hrest : without "version" (("version", Json.num d.version.toNat) ::
      ("verb", .str verb) :: body) = ("verb", .str verb) :: body := by
    have hv : without "version" (("verb", (.str verb : Json J)) :: body) =
        ("verb", .str verb) :: without "version" body := rfl
    exact hv.trans (by rw [hversion])
  have hbody : without "verb" (("verb", (.str verb : Json J)) :: body) = body := hverb
  simp [ReplayDeclaration.toJson, hmembers, StoredReplayDeclaration.read, requiredMember, member,
    hrest, hbody, readU8_num, readStr, hread, ReplayDeclaration.stored, bind, Except.bind, pure,
    Except.pure]

/-! ### Writing it again -/

lemma storedPayloadKind_eq (k : PayloadKind) : storedPayloadKind k = replayPayloadKind k := by
  cases k <;> rfl

lemma storedGoalState_eq (s : GoalState) : storedGoalState s = replayGoalState s := by
  cases s <;> rfl

lemma storedAuthorship_eq (a : Author) : storedAuthorship a = replayAuthorship a := by
  cases a <;> rfl

lemma storedPendingWork_eq (p : PendingWork) : storedPendingWork p = replayPendingWork p := by
  cases p <;> rfl

lemma naturalsJson_storedBytes (bytes : List UInt8) :
    (naturalsJson (storedBytes bytes) : Json J) = bytesJson bytes := by
  simp [naturalsJson, storedBytes, bytesJson]

lemma ReplaySidecar.stored_toJson (s : ReplaySidecar J) : s.stored.toJson = s.toJson := by
  simp [StoredSidecar.toJson, ReplaySidecar.toJson, ReplaySidecar.stored, storedPayloadKind_eq]

lemma sidecar_stored_toJson (o : Option (ReplaySidecar J)) :
    (o.map ReplaySidecar.stored).elim .null StoredSidecar.toJson =
      o.elim .null ReplaySidecar.toJson := by
  cases o with
  | none => rfl
  | some s => exact s.stored_toJson

lemma ReplayPayload.stored_toJson (p : ReplayPayload J) : p.stored.toJson = p.toJson := by
  simp only [StoredPayload.toJson, ReplayPayload.toJson, ReplayPayload.stored,
    naturalsJson_storedBytes, sidecar_stored_toJson]

lemma ReplayTopology.stored_toJson (t : ReplayTopology) :
    (t.stored.toJson U : Json J) = t.toJson U := rfl

lemma ReplayDraft.stored_toJson (d : ReplayDraft J) : d.stored.toJson U = d.toJson U := by
  simp only [StoredDraft.toJson, ReplayDraft.toJson, ReplayDraft.stored, naturalsJson_storedBytes,
    sidecar_stored_toJson, storedGoalState_eq, storedAuthorship_eq, ReplayTopology.stored_toJson]

lemma ReplayCommand.stored_members (c : ReplayCommand J) : c.stored.members U = c.members U := by
  cases c with
  | create draft =>
    simp only [ReplayCommand.stored, StoredReplayCommand.members, ReplayCommand.members,
      ReplayDraft.stored_toJson]
  | transition b =>
    simp only [ReplayCommand.stored, StoredReplayCommand.members, ReplayCommand.members,
      StoredTransitionBody.members, TransitionBody.members, storedGoalState_eq,
      storedAuthorship_eq, storedPendingWork_eq]
  | achieve b =>
    simp only [ReplayCommand.stored, StoredReplayCommand.members, ReplayCommand.members,
      StoredPriorAuthorshipBody.members, PriorAuthorshipBody.members, storedAuthorship_eq]
    rfl
  | modify b =>
    simp only [ReplayCommand.stored, StoredReplayCommand.members, ReplayCommand.members,
      StoredModifyBody.members, ModifyBody.members, storedAuthorship_eq,
      ReplayPayload.stored_toJson]
    rfl
  | decomposeChild b =>
    simp only [ReplayCommand.stored, StoredReplayCommand.members, ReplayCommand.members,
      StoredDecomposeChildBody.members, DecomposeChildBody.members, storedAuthorship_eq,
      ReplayPayload.stored_toJson, ReplayTopology.stored_toJson]
    rfl

/-- A declaration read back is written as it was. -/
theorem ReplayDeclaration.stored_toJson (d : ReplayDeclaration J) :
    d.stored.toJson U = d.toJson U := by
  rw [StoredReplayDeclaration.toJson, ReplayDeclaration.toJson, ← ReplayCommand.stored_members]
  rfl

/-! ### Equal declarations -/

lemma storedBytes_injective : Function.Injective storedBytes :=
  List.map_injective_iff.2 fun _ _ h => UInt8.toNat.inj h

lemma ReplaySidecar.stored_injective :
    Function.Injective (ReplaySidecar.stored : ReplaySidecar J → StoredSidecar J) := by
  rintro ⟨k, s, v, p⟩ ⟨k', s', v', p'⟩ h
  simp only [ReplaySidecar.stored, StoredSidecar.mk.injEq, UInt32.toNat_inj, Json.value.injEq] at h
  obtain ⟨rfl, rfl, rfl, rfl⟩ := h
  rfl

lemma ReplayPayload.stored_injective :
    Function.Injective (ReplayPayload.stored : ReplayPayload J → StoredPayload J) := by
  rintro ⟨s, v, t, x, b, c⟩ ⟨s', v', t', x', b', c'⟩ h
  simp only [ReplayPayload.stored, StoredPayload.mk.injEq, UInt32.toNat_inj,
    storedBytes_injective.eq_iff, (Option.map_injective ReplaySidecar.stored_injective).eq_iff] at h
  obtain ⟨rfl, rfl, rfl, rfl, rfl, rfl⟩ := h
  rfl

lemma ReplayTopology.stored_injective : Function.Injective ReplayTopology.stored := by
  rintro ⟨m, d, e⟩ ⟨m', d', e'⟩ h
  simpa [ReplayTopology.stored] using h

lemma ReplayDraft.stored_injective :
    Function.Injective (ReplayDraft.stored : ReplayDraft J → StoredDraft J) := by
  rintro ⟨s, v, t, x, b, c, st, tp, sg, a⟩ ⟨s', v', t', x', b', c', st', tp', sg', a'⟩ h
  simp only [ReplayDraft.stored, StoredDraft.mk.injEq, UInt32.toNat_inj,
    storedBytes_injective.eq_iff, (Option.map_injective ReplaySidecar.stored_injective).eq_iff,
    ReplayTopology.stored_injective.eq_iff] at h
  obtain ⟨rfl, rfl, rfl, rfl, rfl, rfl, rfl, rfl, rfl, rfl⟩ := h
  rfl

lemma ReplayCommand.stored_injective :
    Function.Injective (ReplayCommand.stored : ReplayCommand J → StoredReplayCommand J) := by
  intro c c' h
  cases c with
  | create draft =>
    cases c' with
    | create draft' =>
      exact congrArg _ (ReplayDraft.stored_injective (StoredReplayCommand.create.inj h))
    | _ => cases h
  | transition b =>
    cases c' with
    | transition b' =>
      obtain ⟨p, n, a, w⟩ := b
      obtain ⟨p', n', a', w'⟩ := b'
      simpa [ReplayCommand.stored] using h
    | _ => cases h
  | achieve b =>
    cases c' with
    | achieve b' =>
      obtain ⟨p, a, e⟩ := b
      obtain ⟨p', a', e'⟩ := b'
      simpa [ReplayCommand.stored] using h
    | _ => cases h
  | modify b =>
    cases c' with
    | modify b' =>
      obtain ⟨p, r, a, e⟩ := b
      obtain ⟨p', r', a', e'⟩ := b'
      simpa [ReplayCommand.stored, ReplayPayload.stored_injective.eq_iff] using h
    | _ => cases h
  | decomposeChild b =>
    cases c' with
    | decomposeChild b' =>
      obtain ⟨p, a, t, i, r, e⟩ := b
      obtain ⟨p', a', t', i', r', e'⟩ := b'
      simpa [ReplayCommand.stored, ReplayPayload.stored_injective.eq_iff,
        ReplayTopology.stored_injective.eq_iff] using h
    | _ => cases h

end RoundTrip

end Proxiima.Goals
