import Proxiima.Graphs.Cycles
import Proxiima.Serde.Json
import Proxiima.Sql.Recursive

/-!
# Declared schema evolutions

The audit a composition of spiices makes of its schema evolutions before it freezes: each
evolution's own fields, then the graph of what has to come after what, then that every schema of
a later version goes back to first versions, then that what nothing consumes is registered.
-/

namespace Proxiima.Evolution

/-! ### Contracts -/

inductive PayloadKind where
  | fact | abstraction | perspective | goal | citedObject
  deriving DecidableEq

structure SchemaRef where
  spiice : String
  name : String
  version : ℕ
  deriving DecidableEq

def SchemaRef.schemaId (r : SchemaRef) : String :=
  r.spiice ++ "/" ++ r.name ++ "-v" ++ toString r.version

/-- A schema contract, as far as an evolution reads it. -/
structure SchemaContract where
  id : SchemaRef
  kind : PayloadKind
  deriving DecidableEq

abbrev SchemaKey := PayloadKind × SchemaRef

def schemaKey (schema : SchemaContract) : SchemaKey := (schema.kind, schema.id)

structure SchemaEvolution where
  id : String
  sources : List SchemaContract
  targets : List SchemaContract
  requires : List String
  change : String
  consumerAction : String

structure SpiiceContract where
  spiiceId : String
  schemas : List SchemaContract
  evolutions : List SchemaEvolution

inductive SpiiceRegistryError where
  | invalidSchemaEvolution (spiiceId evolutionId reason : String)
  | duplicateSchemaEvolution (evolutionId : String)
  | schemaEvolutionForeignSchema (spiiceId evolutionId schemaId : String)
  | schemaEvolutionDuplicateSchema (evolutionId schemaId : String)
  | schemaEvolutionSourceReused (evolutionId schemaId : String)
  | schemaEvolutionTargetReused (evolutionId schemaId : String)
  | schemaEvolutionMissingDependency (evolutionId required : String)
  | schemaEvolutionCycle (evolutionId : String)
  | schemaEvolutionMissingPath (spiiceId schemaId : String)
  | schemaEvolutionTargetNotRegistered (evolutionId schemaId : String)

/-- A check that fails with an error. -/
def ensure (b : Bool) (e : SpiiceRegistryError) : Except SpiiceRegistryError Unit :=
  if b then .ok () else .error e

/-! ### Each evolution -/

/-- What the audit has seen so far, entries of maps and sets as lists. -/
structure Audit where
  steps : List SchemaEvolution
  consumed : List SchemaKey
  produced : List (SchemaKey × String)

def validateSet (contract : SpiiceContract) (evolution : SchemaEvolution)
    (schemas : List SchemaContract) : Except SpiiceRegistryError Unit :=
  schemas.forM fun schema => do
    ensure (schema.id.spiice = contract.spiiceId)
      (.schemaEvolutionForeignSchema contract.spiiceId evolution.id schema.id.schemaId)
    ensure (schema.id.version ≠ 0)
      (.invalidSchemaEvolution contract.spiiceId evolution.id "schema versions must be positive")

/-- A key that is new to this evolution's `seen` and to the keys other evolutions `used`. -/
def takeKey {α : Type} (evolution : SchemaEvolution)
    (reused : String → String → SpiiceRegistryError)
    (keyOf : α → SchemaKey) (entry : SchemaKey → α) (s : List SchemaKey × List α)
    (schema : SchemaContract) : Except SpiiceRegistryError (List SchemaKey × List α) := do
  ensure (schemaKey schema ∉ s.1)
    (.schemaEvolutionDuplicateSchema evolution.id schema.id.schemaId)
  ensure (schemaKey schema ∉ s.2.map keyOf) (reused evolution.id schema.id.schemaId)
  return (schemaKey schema :: s.1, entry (schemaKey schema) :: s.2)

def takeSource (evolution : SchemaEvolution) (s : List SchemaKey × List SchemaKey)
    (source : SchemaContract) : Except SpiiceRegistryError (List SchemaKey × List SchemaKey) :=
  takeKey evolution .schemaEvolutionSourceReused id id s source

def takeTarget (evolution : SchemaEvolution) (s : List SchemaKey × List (SchemaKey × String))
    (target : SchemaContract) :
    Except SpiiceRegistryError (List SchemaKey × List (SchemaKey × String)) :=
  takeKey evolution .schemaEvolutionTargetReused Prod.fst (fun key => (key, evolution.id)) s target

variable (trim : String → String) (contracts : List SpiiceContract)

/-- The evolutions of all contracts, each with the contract that declares it. -/
def declared : List (SpiiceContract × SchemaEvolution) :=
  contracts.flatMap fun contract => contract.evolutions.map fun evolution => (contract, evolution)

def evolutions : List SchemaEvolution := contracts.flatMap (·.evolutions)

def auditEvolution (a : Audit) (d : SpiiceContract × SchemaEvolution) :
    Except SpiiceRegistryError Audit := do
  let evolution := d.2
  ensure (evolution.id ≠ "" ∧ trim evolution.change ≠ "" ∧ trim evolution.consumerAction ≠ "" ∧
      evolution.sources ≠ [] ∧ evolution.targets ≠ [])
    (.invalidSchemaEvolution d.1.spiiceId evolution.id
      "id, source, target, change and consumer_action are required")
  ensure (evolution.id ∉ a.steps.map (·.id)) (.duplicateSchemaEvolution evolution.id)
  validateSet d.1 evolution evolution.sources
  validateSet d.1 evolution evolution.targets
  let (seen, consumed) ← evolution.sources.foldlM (takeSource evolution) ([], a.consumed)
  let (_, produced) ← evolution.targets.foldlM (takeTarget evolution) (seen, a.produced)
  let steps := evolution :: a.steps
  evolution.requires.forM fun required =>
    ensure (required ∈ steps.map (·.id) ∨ required ∈ (evolutions contracts).map (·.id))
      (.schemaEvolutionMissingDependency evolution.id required)
  return ⟨steps, consumed, produced⟩

/-! ### The graph -/

/-- The edges pushed for one evolution: from what it requires, and from what produces a schema it
consumes. -/
def edgesInto (evolution : SchemaEvolution) : List (String × String) :=
  evolution.requires.map (fun required => (required, evolution.id)) ++
    ((evolutions contracts).filter fun prior =>
      prior.id ≠ evolution.id ∧ ∃ target ∈ prior.targets, ∃ source ∈ evolution.sources,
        schemaKey source = schemaKey target).map fun prior => (prior.id, evolution.id)

def graph : List (String × String) := (evolutions contracts).flatMap (edgesInto contracts)

def children (id : String) : List String :=
  ((graph contracts).filter fun edge => edge.1 = id).map (·.2)

/-- No stack of different ids is deeper than there are evolutions. -/
def visit (id : String) : Except SpiiceRegistryError Unit :=
  match Graphs.visit (children contracts) ((evolutions contracts).length + 1) id ([], []) with
  | .ok _ => .ok ()
  | .error id => .error (.schemaEvolutionCycle id)

/-! ### Paths to first versions -/

/-- `seen` holds the producers on the way to `key`, not all that were tried. -/
def hasInitialPath (producers : List (SchemaKey × String)) (steps : List SchemaEvolution) :
    (fuel : ℕ) → SchemaKey → (seen : List String) → Bool
  | 0, key, _ => key.2.version = 1
  | n + 1, key, seen =>
    key.2.version = 1 ||
      match producers.find? fun p => p.1 = key with
      | none => false
      | some (_, id) =>
        if id ∈ seen then false
        else match steps.find? fun step => step.id = id with
          | none => false
          | some step =>
            step.sources.all fun source =>
              hasInitialPath producers steps n (schemaKey source) (id :: seen)

/-! ### The audit -/

def validateEvolutions : Except SpiiceRegistryError Unit := do
  let a ← (declared contracts).foldlM (auditEvolution trim contracts) ⟨[], [], []⟩
  let active := contracts.flatMap fun contract => contract.schemas.map schemaKey
  (a.steps.map (·.id)).forM (visit contracts)
  contracts.forM fun contract => contract.schemas.forM fun schema =>
    ensure (schema.id.version ≤ 1 ∨
        hasInitialPath a.produced a.steps (a.steps.length + 1) (schemaKey schema) [] = true)
      (.schemaEvolutionMissingPath contract.spiiceId schema.id.schemaId)
  a.produced.forM fun p =>
    ensure (p.1 ∈ a.steps.flatMap (·.sources.map schemaKey) ∨ p.1 ∈ active)
      (.schemaEvolutionTargetNotRegistered p.2 p.1.2.schemaId)

/-! ### What it accepts -/

/-- The checks on an evolution's own fields. -/
structure FieldsOk (d : SpiiceContract × SchemaEvolution) : Prop where
  required : d.2.id ≠ "" ∧ trim d.2.change ≠ "" ∧ trim d.2.consumerAction ≠ "" ∧
    d.2.sources ≠ [] ∧ d.2.targets ≠ []
  positive : ∀ schema ∈ d.2.sources ++ d.2.targets, schema.id.version ≠ 0
  distinct : ((d.2.sources ++ d.2.targets).map schemaKey).Nodup
  requires : ∀ required ∈ d.2.requires, ∃ e ∈ evolutions contracts, e.id = required

/-- `b` has to come after `a`: it requires it, or consumes what it produces. -/
def Precedes (a b : String) : Prop :=
  ∃ e ∈ evolutions contracts, e.id = b ∧ (a ∈ e.requires ∨
    ∃ prior ∈ evolutions contracts, prior.id = a ∧ ∃ target ∈ prior.targets,
      ∃ source ∈ e.sources, schemaKey source = schemaKey target)

/-- A key at the root of a finite tree of evolutions, each consuming what its subtrees produce,
whose leaves have version 1. -/
inductive Initial : SchemaKey → Prop
  | first {key : SchemaKey} (h : key.2.version = 1) : Initial key
  | step {key : SchemaKey} {e : SchemaEvolution} (he : e ∈ evolutions contracts)
    (hkey : key ∈ e.targets.map schemaKey)
    (hsources : ∀ source ∈ e.sources, Initial (schemaKey source)) : Initial key

/-- The conditions on a composition. -/
structure Sound : Prop where
  /-- Each evolution has an id of its own, and its fields pass. -/
  ids : ((evolutions contracts).map (·.id)).Nodup
  fields : ∀ d ∈ declared contracts, FieldsOk trim contracts d
  sourcesOnce : ((evolutions contracts).flatMap (·.sources.map schemaKey)).Nodup
  targetsOnce : ((evolutions contracts).flatMap (·.targets.map schemaKey)).Nodup
  acyclic : ∀ id, ¬ Relation.TransGen (Precedes contracts) id id
  paths : ∀ contract ∈ contracts, ∀ schema ∈ contract.schemas, 1 < schema.id.version →
    Initial contracts (schemaKey schema)
  registered : ∀ e ∈ evolutions contracts, ∀ target ∈ e.targets,
    (∀ e' ∈ evolutions contracts, schemaKey target ∉ e'.sources.map schemaKey) →
      ∃ contract ∈ contracts, schemaKey target ∈ contract.schemas.map schemaKey
  own : ∀ d ∈ declared contracts, ∀ schema ∈ d.2.sources ++ d.2.targets,
    schema.id.spiice = d.1.spiiceId

end Proxiima.Evolution
