import Proxiima.Goals.Replays

/-!
# Rewriting a declaration

A schema evolution moves a stored declaration to the goal that takes the old one's place: it reads
the declaration back, replaces the memory and goal ids in it through its maps and the payload by
the migrated one, and stores it again. The result is the declaration of the same command over the
new ids and with the new payload, so that command replays and one that declares anything else
conflicts.
-/

namespace Proxiima.Goals

open ReadCommitted
open Serde (Json)

variable {P J : Type}

/-! ### The rewriting -/

section Rewrite

variable (mapMemory mapGoal : Uuid → Except StorageError Uuid)

def rewriteStoredTopology (t : StoredTopology) : Except StorageError StoredTopology := do
  let motivatedBy ← t.motivatedBy.mapM mapMemory
  let dependencies ← t.dependencies.mapM mapGoal
  let evidence ← t.evidence.mapM mapMemory
  pure ⟨motivatedBy, dependencies, evidence⟩

def rewriteStoredEvidence (evidence : List Uuid) : Except StorageError (List Uuid) :=
  evidence.mapM mapMemory

/-- `body.evidence`, where it is present. -/
def rewriteEvidenceMember : Option (List Uuid) → Except StorageError (Option (List Uuid))
  | none => .ok none
  | some evidence => some <$> rewriteStoredEvidence mapMemory evidence

def rewriteSupersedes : Option Uuid → Except StorageError (Option Uuid)
  | none => .ok none
  | some id => some <$> mapGoal id

def rewriteCommand (replacement : StoredPayload J) :
    StoredReplayCommand J → Except StorageError (StoredReplayCommand J)
  | .create draft => do
    let supersedesGoalId ← rewriteSupersedes mapGoal draft.supersedesGoalId
    let topology ← rewriteStoredTopology mapMemory mapGoal draft.topology
    pure (.create { draft with
      payload := replacement.payload
      schemaId := replacement.schemaId
      schemaVersion := replacement.schemaVersion
      title := replacement.title
      text := replacement.text
      sidecar := replacement.sidecar
      supersedesGoalId := supersedesGoalId
      topology := topology })
  | .transition body => do
    let priorGoalId ← mapGoal body.priorGoalId
    pure (.transition { body with priorGoalId := priorGoalId })
  | .achieve body => do
    let priorGoalId ← mapGoal body.priorGoalId
    let evidence ← rewriteEvidenceMember mapMemory body.evidence
    pure (.achieve { body with priorGoalId := priorGoalId, evidence := evidence })
  | .modify body => do
    let priorGoalId ← mapGoal body.priorGoalId
    let evidence ← rewriteEvidenceMember mapMemory body.evidence
    pure (.modify { body with
      priorGoalId := priorGoalId, replacement := replacement, evidence := evidence })
  | .decomposeChild body => do
    let parentGoalId ← mapGoal body.parentGoalId
    let topology ← rewriteStoredTopology mapMemory mapGoal body.topology
    let evidence ← rewriteStoredEvidence mapMemory body.evidence
    pure (.decomposeChild { body with
      parentGoalId := parentGoalId, payload := replacement, topology := topology,
      evidence := evidence })

variable (U : UuidText) (durable : P → Except String J)

def replacementPayloadValue (replacement : GoalPayloadWrite P) :
    Except StorageError (StoredPayload J) := do
  let declared ← payloadDeclaration durable replacement
  (StoredPayload.read declared.toJson).mapError fun e =>
    .internal ("encode replacement Goal payload: " ++ e.message)

def checkVersion (version : ℕ) : Except StorageError Unit :=
  if version = 1 then .ok ()
  else .error (.internal ("unsupported Goal replay declaration version " ++ toString version))

def rewriteGoalReplay (raw : Json J) (replacement : GoalPayloadWrite P) :
    Except StorageError (Json J) := do
  let declaration ← (StoredReplayDeclaration.read U raw).mapError fun e =>
    .internal ("invalid Goal replay declaration: " ++ e.message)
  checkVersion declaration.version
  let replacement ← replacementPayloadValue durable replacement
  let command ← rewriteCommand mapMemory mapGoal replacement declaration.command
  pure (StoredReplayDeclaration.toJson U { declaration with command := command })

/-- The row `goal_replay` stores for a declaration of a goal it moves to `target`. -/
def movedRow (map : Uuid → Except StorageError Uuid) (target : Uuid)
    (payload : GoalPayloadWrite P) (row : DeclarationRow J) :
    Except StorageError (DeclarationRow J) := do
  let rewritten ← rewriteGoalReplay map map U durable row.declaration payload
  pure { row with goalT := target, declaration := rewritten }

end Rewrite

/-! ### The declaration over the new ids -/

section Replace

variable (f g : Uuid → Uuid)

def ReplayTopology.replaced (t : ReplayTopology) : ReplayTopology :=
  ⟨t.motivatedBy.map f, t.dependencies.map g, t.evidence.map f⟩

def ReplayCommand.replaced (p : ReplayPayload J) : ReplayCommand J → ReplayCommand J
  | .create draft => .create { draft with
      schemaId := p.schemaId, schemaVersion := p.schemaVersion, title := p.title, text := p.text,
      payload := p.payload, sidecar := p.sidecar, topology := draft.topology.replaced f g,
      supersedesGoalId := draft.supersedesGoalId.map g }
  | .transition b => .transition { b with priorGoalId := g b.priorGoalId }
  | .achieve b => .achieve { b with
      priorGoalId := g b.priorGoalId, evidence := b.evidence.map (List.map f) }
  | .modify b => .modify { b with
      priorGoalId := g b.priorGoalId, replacement := p, evidence := b.evidence.map (List.map f) }
  | .decomposeChild b => .decomposeChild { b with
      parentGoalId := g b.parentGoalId, topology := b.topology.replaced f g, payload := p,
      evidence := b.evidence.map f }

/-- The declaration with every id replaced, and the payload. -/
def ReplayDeclaration.replaced (p : ReplayPayload J) (d : ReplayDeclaration J) :
    ReplayDeclaration J :=
  { d with command := d.command.replaced f g p }

end Replace

def ReplayTopology.memoryIds (t : ReplayTopology) : List Uuid := t.motivatedBy ++ t.evidence

def ReplayCommand.memoryIds : ReplayCommand J → List Uuid
  | .create draft => draft.topology.memoryIds
  | .transition _ => []
  | .achieve b => b.evidence.getD []
  | .modify b => b.evidence.getD []
  | .decomposeChild b => b.topology.memoryIds ++ b.evidence

def ReplayCommand.goalIds : ReplayCommand J → List Uuid
  | .create draft => draft.topology.dependencies ++ draft.supersedesGoalId.toList
  | .transition b => [b.priorGoalId]
  | .achieve b => [b.priorGoalId]
  | .modify b => [b.priorGoalId]
  | .decomposeChild b => b.parentGoalId :: b.topology.dependencies

section Rewritten

variable {mapMemory mapGoal : Uuid → Except StorageError Uuid} {f g : Uuid → Uuid}

lemma mapM_answers {m : Uuid → Except StorageError Uuid} {f : Uuid → Uuid} {ids : List Uuid}
    (h : ∀ id ∈ ids, m id = .ok (f id)) : ids.mapM m = .ok (ids.map f) := by
  induction ids with
  | nil => rfl
  | cons id ids ih =>
    rw [List.mapM_cons, h id List.mem_cons_self,
      ih fun id' hid' => h id' (List.mem_cons_of_mem _ hid')]
    rfl

lemma rewriteStoredTopology_stored {t : ReplayTopology}
    (hm : ∀ id ∈ t.memoryIds, mapMemory id = .ok (f id))
    (hg : ∀ id ∈ t.dependencies, mapGoal id = .ok (g id)) :
    rewriteStoredTopology mapMemory mapGoal t.stored = .ok (t.replaced f g).stored := by
  have hmotivated := mapM_answers fun id hid => hm id (List.mem_append_left _ hid)
  have hevidence := mapM_answers fun id hid => hm id (List.mem_append_right _ hid)
  simp [rewriteStoredTopology, ReplayTopology.stored, hmotivated, mapM_answers hg, hevidence,
    ReplayTopology.replaced, bind, Except.bind, pure, Except.pure]

lemma rewriteEvidenceMember_ok {evidence : Option (List Uuid)}
    (hm : ∀ id ∈ evidence.getD [], mapMemory id = .ok (f id)) :
    rewriteEvidenceMember mapMemory evidence = .ok (evidence.map (List.map f)) := by
  cases evidence with
  | none => rfl
  | some ids =>
    have hids : ids.mapM mapMemory = .ok (ids.map f) := mapM_answers hm
    simp [rewriteEvidenceMember, rewriteStoredEvidence, hids, Functor.map, Except.map]

lemma rewriteSupersedes_ok {supersedes : Option Uuid}
    (hg : ∀ id ∈ supersedes.toList, mapGoal id = .ok (g id)) :
    rewriteSupersedes mapGoal supersedes = .ok (supersedes.map g) := by
  cases supersedes with
  | none => rfl
  | some id => simp [rewriteSupersedes, hg id (by simp), Functor.map, Except.map]

variable {p : ReplayPayload J}

/-- Where the maps answer for every id a command names, its stored form is rewritten to that of
the command over the new ids. -/
lemma rewriteCommand_stored {c : ReplayCommand J}
    (hm : ∀ id ∈ c.memoryIds, mapMemory id = .ok (f id))
    (hg : ∀ id ∈ c.goalIds, mapGoal id = .ok (g id)) :
    rewriteCommand mapMemory mapGoal p.stored c.stored = .ok (c.replaced f g p).stored := by
  cases c with
  | create draft =>
    have htopology := rewriteStoredTopology_stored (t := draft.topology) hm
      fun id hid => hg id (List.mem_append_left _ hid)
    have hsupersedes : rewriteSupersedes mapGoal draft.supersedesGoalId =
        .ok (draft.supersedesGoalId.map g) :=
      rewriteSupersedes_ok fun id hid => hg id (List.mem_append_right _ hid)
    simp [rewriteCommand, ReplayCommand.stored, ReplayDraft.stored, htopology, hsupersedes,
      ReplayCommand.replaced, ReplayPayload.stored, bind, Except.bind, pure, Except.pure]
  | transition b =>
    have hprior := hg b.priorGoalId (List.mem_singleton.2 rfl)
    simp [rewriteCommand, ReplayCommand.stored, ReplayCommand.replaced, hprior, bind, Except.bind,
      pure, Except.pure]
  | achieve b | modify b =>
    have hprior := hg b.priorGoalId (List.mem_singleton.2 rfl)
    simp [rewriteCommand, ReplayCommand.stored, ReplayCommand.replaced, hprior,
      rewriteEvidenceMember_ok hm, bind, Except.bind, pure, Except.pure]
  | decomposeChild b =>
    have hparent := hg b.parentGoalId List.mem_cons_self
    have htopology := rewriteStoredTopology_stored (t := b.topology)
      (fun id hid => hm id (List.mem_append_left _ hid))
      fun id hid => hg id (List.mem_cons_of_mem _ hid)
    have hevidence := mapM_answers fun id hid => hm id (List.mem_append_right _ hid)
    simp [rewriteCommand, ReplayCommand.stored, ReplayCommand.replaced, hparent, htopology,
      rewriteStoredEvidence, hevidence, bind, Except.bind, pure, Except.pure]

variable {U : UuidText} {durable : P → Except String J} {r : GoalPayloadWrite P}

lemma replacementPayloadValue_ok (hp : payloadDeclaration durable r = .ok p) :
    replacementPayloadValue durable r = .ok p.stored := by
  simp [replacementPayloadValue, hp, StoredPayload.read_toJson, Except.mapError, bind, Except.bind]

/-- **A declaration is rewritten to the one over the new ids and with the new payload.** -/
theorem rewriteGoalReplay_toJson {d : ReplayDeclaration J} (hversion : d.version = 1)
    (hp : payloadDeclaration durable r = .ok p)
    (hm : ∀ id ∈ d.command.memoryIds, mapMemory id = .ok (f id))
    (hg : ∀ id ∈ d.command.goalIds, mapGoal id = .ok (g id)) :
    rewriteGoalReplay mapMemory mapGoal U durable (d.toJson U) r =
      .ok ((d.replaced f g p).toJson U) := by
  have hcheck : checkVersion d.stored.version = .ok () := by
    simp [ReplayDeclaration.stored, checkVersion, hversion]
  have hcommand : rewriteCommand mapMemory mapGoal p.stored d.stored.command =
      .ok (d.replaced f g p).stored.command := rewriteCommand_stored hm hg
  simp only [rewriteGoalReplay, StoredReplayDeclaration.read_toJson, Except.mapError, bind,
    Except.bind, hcheck, replacementPayloadValue_ok hp, hcommand, pure, Except.pure,
    ← (d.replaced f g p).stored_toJson U]
  rfl

end Rewritten

end Proxiima.Goals
