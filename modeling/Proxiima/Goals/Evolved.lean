import Proxiima.Goals.GoalReplay

/-!
# Commands after a schema evolution

The same command over the ids a schema evolution gives, with the payloads it migrates to. Where
distinct ids stay distinct, that command declares exactly what the stored declarations are
rewritten to. It then replays the goals the declarations were moved to, and a command that
declares anything else under one of its keys conflicts.
-/

namespace Proxiima.Goals

open ReadCommitted
open Serde (Json bind_eq_ok)

variable {P J : Type}

/-! ### The declarations of a command -/

variable (durable : P → Except String J)

/-- Each request key of a command with the declaration under it. -/
def GoalReplayRequest.declarations :
    GoalReplayRequest P → Except StorageError (List (String × ReplayDeclaration J))
  | .create req => do
    let declaration ← createReplayDeclaration durable req
    pure [(req.draft.requestId, declaration)]
  | .transition req => .ok [(req.requestId, transitionReplayDeclaration req)]
  | .achieve req => .ok [(req.requestId, achieveReplayDeclaration req)]
  | .modify req => do
    let declaration ← modifyReplayDeclaration durable req
    pure [(req.requestId, declaration)]
  | .decompose req => decomposeKeys durable req

/-! ### The same command over other ids -/

section Mapped

variable (f g : Uuid → Uuid)

def GoalEvidenceRef.mapped (e : GoalEvidenceRef) : GoalEvidenceRef :=
  { e with memoryId := f e.memoryId }

def GoalTopologyWrite.mapped (t : GoalTopologyWrite) : Except InvalidArgument GoalTopologyWrite :=
  GoalTopologyWrite.new (t.motivatedBy.map f) (t.dependencies.map g)
    (t.evidence.map (GoalEvidenceRef.mapped f))

def GoalDraft.mapped (payload : GoalPayloadWrite P) (d : GoalDraft P) :
    Except InvalidArgument (GoalDraft P) := do
  let topology ← d.topology.mapped f g
  pure { d with
    schemaId := payload.schemaId
    schemaVersion := payload.schemaVersion
    title := payload.title
    text := payload.text
    payload := payload.payload
    sidecarPayload := payload.sidecarPayload
    topology := topology
    supersedesGoalId := d.supersedesGoalId.map g }

def ChildGoalDraft.mapped (payload : GoalPayloadWrite P) (c : ChildGoalDraft P) :
    ChildGoalDraft P :=
  { c with payload := payload, evidence := c.evidence.map (GoalEvidenceRef.mapped f) }

/-- The command with its ids mapped, `payload i` in place of the payload of its `i`-th
declaration. -/
def GoalReplayRequest.mapped (payload : ℕ → GoalPayloadWrite P) :
    GoalReplayRequest P → Except InvalidArgument (GoalReplayRequest P)
  | .create req => do
    let draft ← req.draft.mapped f g (payload 0)
    pure (.create { draft := draft, writeActT := req.writeActT.map f })
  | .transition req => .ok (.transition { req with priorGoalId := g req.priorGoalId })
  | .achieve req => .ok (.achieve { req with
      priorGoalId := g req.priorGoalId
      evidence := req.evidence.map (GoalEvidenceRef.mapped f) })
  | .modify req => .ok (.modify { req with
      priorGoalId := g req.priorGoalId
      replacement := payload 0
      evidence := req.evidence.map (List.map (GoalEvidenceRef.mapped f))
      motivatedBy := req.motivatedBy.map (List.map f) })
  | .decompose req => do
    let topology ← req.topology.mapped f g
    pure (.decompose { req with
      parentGoalId := g req.parentGoalId
      topology := topology
      children := req.children.mapIdx fun i c => c.mapped f (payload i) })

end Mapped

/-- The topology a command declares. -/
def GoalReplayRequest.topology : GoalReplayRequest P → Option GoalTopologyWrite
  | .create req => some req.draft.topology
  | .decompose req => some req.topology
  | _ => none

variable {c : GoalReplayRequest P} {d : ReplayDeclaration J} {i : ℕ} {key : String}
  {c' : GoalReplayRequest P}

section Declared

variable {durable} {f g : Uuid → Uuid} {t : GoalTopologyWrite} {draft : GoalDraft P}
  {children : List (ChildGoalDraft P)}

variable {p : ReplayPayload J} {req : DecomposeGoalAtomicRequest P} {child : ChildGoalDraft P}
  {ds : List (String × ReplayDeclaration J)}

def ReplayCommand.verb : ReplayCommand J → String
  | .create _ => "create"
  | .transition _ => "transition"
  | .achieve _ => "achieve"
  | .modify _ => "modify"
  | .decomposeChild _ => "decompose_child"

def ReplayCommand.authorship : ReplayCommand J → Author
  | .create draft => draft.authorship
  | .transition b => b.authorship
  | .achieve b => b.authorship
  | .modify b => b.authorship
  | .decomposeChild b => b.authorship

/-- The payload a command declares; a transition and an achieve declare none. -/
def ReplayCommand.payload : ReplayCommand J → Option (ReplayPayload J)
  | .create d => some ⟨d.schemaId, d.schemaVersion, d.title, d.text, d.payload, d.sidecar⟩
  | .transition _ => none
  | .achieve _ => none
  | .modify b => some b.replacement
  | .decomposeChild b => some b.payload

section Kept

variable {f g : Uuid → Uuid} {p : ReplayPayload J}

end Kept

section Resolved

variable [DecidableEq J] {U : UuidText} {v : Tables J}

def GoalReplayOutcome.outcomes : GoalReplayOutcome → List GoalWriteOutcome
  | .goal outcome => [outcome]
  | .decompose outcome => outcome.children

variable {outcomes : List GoalWriteOutcome}

variable {e : StorageError}

end Resolved

end Declared

/-! ### After the evolution -/

section Evolution

variable [DecidableEq J] (U : UuidText)

/-- The maps answer `f` and `g` for the memories and goals a declaration names. -/
def ReplayDeclaration.MappedBy (mapMemory mapGoal : Uuid → Except StorageError Uuid)
    (f g : Uuid → Uuid) (d : ReplayDeclaration J) : Prop :=
  (∀ id ∈ d.command.memoryIds, mapMemory id = .ok (f id)) ∧
    ∀ id ∈ d.command.goalIds, mapGoal id = .ok (g id)

/-- A migration of the owner of the stored declarations `ds` of a command, to goals that are stored
too. -/
structure Migrated (input : MigrationInput) (plan : MigrationPlan P)
    (payload : ℕ → GoalPayloadWrite P)
    (targets : ℕ → Uuid) (ds : List (String × ReplayDeclaration J)) (v v' : Tables J) : Prop where
  run : goalReplay U durable input plan v = .ok v'
  /-- No goal is moved to one that is still to come. -/
  once : input.goals.Pairwise fun a b => plan.mappings a ≠ some b
  row : ∀ i key d, ds[i]? = some (key, d) → ∃ row, v.declared input.owner key = some row ∧
    row.declaration = d.toJson U ∧ row.goalT ∈ input.goals ∧
      plan.target row.goalT = .ok ⟨targets i, payload i⟩
  goal : ∀ i < ds.length, ∃ g, v.version (targets i) = some g

/-- What becomes of the declarations `ds` of a command, `ds'` being those of the command over the
new ids and payloads. -/
structure Rewritten (f g : Uuid → Uuid) (payload : ℕ → GoalPayloadWrite P)
    (p : ℕ → ReplayPayload J) (owner : Uuid) (c' : GoalReplayRequest P)
    (ds ds' : List (String × ReplayDeclaration J)) : Prop where
  declares : c'.declarations durable = .ok ds'
  keys : ds'.map Prod.fst = ds.map Prod.fst
  /-- Each is rewritten to the one in its place, by maps that answer for the ids it names. -/
  rewrites : ∀ (i : ℕ) (key : String) (d d' : ReplayDeclaration J), ds[i]? = some (key, d) →
    ds'[i]? = some (key, d') → ∀ mapMemory mapGoal, d.MappedBy mapMemory mapGoal f g →
      rewriteGoalReplay mapMemory mapGoal U durable (d.toJson U) (payload i) = .ok (d'.toJson U)
  keeps : ∀ (i : ℕ) (key : String) (d d' : ReplayDeclaration J), ds[i]? = some (key, d) →
    ds'[i]? = some (key, d') →
    d'.version = d.version ∧ d'.command.verb = d.command.verb ∧
      d'.command.authorship = d.command.authorship ∧
      d'.command.payload = d.command.payload.map fun _ => p i
  /-- With the ids as they are and its own payload, each is what it was. -/
  identity : ∀ (i : ℕ) (key : String) (d : ReplayDeclaration J), ds[i]? = some (key, d) →
    (∀ q, d.command.payload = some q → q = p i) →
    rewriteGoalReplay .ok .ok U durable (d.toJson U) (payload i) = .ok (d.toJson U)
  /-- After a migration, the mapped command replays the goals that took the places of its own. -/
  replays : ∀ input plan targets v v', input.owner = owner →
    (∀ kd ∈ ds, kd.2.MappedBy (plan.map input) (plan.map input) f g) →
    Migrated durable U input plan payload targets ds v v' → ds ≠ [] →
      ∃ outcome, resolveGoalCommandReplay U durable v' c' = .ok (some outcome) ∧
        outcome.outcomes.map GoalWriteOutcome.goalId = (List.range ds.length).map targets
  /-- And a command that declares anything else under one of the keys conflicts. -/
  conflicts : ∀ input plan targets v v', input.owner = owner →
    (∀ kd ∈ ds, kd.2.MappedBy (plan.map input) (plan.map input) f g) →
    Migrated durable U input plan payload targets ds v v' →
      ∀ (e : GoalReplayRequest P) (es : List (String × ReplayDeclaration J)), e.owner = owner →
        e.declarations durable = .ok es → ∀ (i : ℕ) key d' d'', ds'[i]? = some (key, d') →
          (key, d'') ∈ es → d'' ≠ d' → ∃ k t,
             resolveGoalCommandReplay U durable v' e = .error (.idempotencyConflict k t)

variable {U durable} {f g : Uuid → Uuid} {payload : ℕ → GoalPayloadWrite P}
variable {p : ℕ → ReplayPayload J} {ds : List (String × ReplayDeclaration J)}

variable {v : Tables J}

omit [DecidableEq J] in
/-- The rows behind the keys of a migrated command. -/
lemma Migrated.declared {input : MigrationInput} {plan : MigrationPlan P} {targets : ℕ → Uuid}
    {v v' : Tables J} (h : Migrated durable U input plan payload targets ds v v')
    (hversion : ∀ kd ∈ ds, kd.2.version = 1)
    (hp : ∀ i < ds.length, payloadDeclaration durable (payload i) = .ok (p i))
    (hmap : ∀ kd ∈ ds, kd.2.MappedBy (plan.map input) (plan.map input) f g)
    (hi : ds[i]? = some (key, d)) :
    ∃ row g', v'.declared input.owner key = some row ∧ v'.version row.goalT = some g' ∧
      row.goalT = targets i ∧ row.declaration = (d.replaced f g (p i)).toJson U := by
  obtain ⟨hmoved, hsame⟩ := goalReplay_rows h.once h.run
  obtain ⟨before, hbefore, hdecl, hmem, htarget⟩ := h.row i key d hi
  obtain ⟨target, after, htarget', hafter, hrow⟩ := hmoved key before hbefore hmem
  obtain rfl := Except.ok.inj (htarget'.symm.trans htarget)
  obtain ⟨hlt, heq⟩ := List.getElem?_eq_some_iff.1 hi
  have hkd : (key, d) ∈ ds := heq ▸ List.getElem_mem hlt
  obtain ⟨hm, hg⟩ := hmap _ hkd
  obtain ⟨j, hj, hafter⟩ := bind_eq_ok.1 hafter
  obtain rfl := Except.ok.inj hafter
  rw [hdecl, rewriteGoalReplay_toJson (hversion _ hkd) (hp i hlt) hm hg] at hj
  obtain ⟨g', hg'⟩ := h.goal i hlt
  have hgoal : v'.version (targets i) = v.version (targets i) :=
    hsame (.goal (targets i)) fun _ _ hkey => by cases hkey
  exact ⟨_, g', hrow, hgoal.trans hg', rfl, (Except.ok.inj hj).symm⟩

end Evolution

end Proxiima.Goals
