import Proxiima.Memory.Lifecycle
import Proxiima.ReadCommitted.Runs

/-!
# The memory commands, one at a time

What each answer of a memory transaction means when the transactions run one after the
other: the rows as functions of their keys, and for each command the change it makes to
them in one step. An admission answers for the head it found; a replay, a conflict or a
refusal of a keyed request answers for ledger rows that stood in states the transaction
saw. `Effect` collects the steps, and the runs of the serial machine are the runs of
`Effect`.
-/

namespace Proxiima.Memory

open ReadCommitted

abbrev Answer := Entry Row StorageError Command Response

/-- The rows of each table, as functions of their keys. -/
structure Store where
  head : Uuid → Option Head
  memory : Uuid → Option MemoryRow
  key : Uuid → SourceId → String → Option Uuid
  counter : Uuid → Option Counter

def store (v : Tables) : Store := ⟨headOf v, memoryOf v, keyOf v, counterOf v⟩

/-! ### Changes of versions -/

/-- The head of a series after its versions changed: on the newest one, or gone. -/
inductive SyncedHead (memory : Uuid → Option MemoryRow) (handle : Uuid) :
    Option Head → Option Head → Prop where
  | missing : SyncedHead memory handle none none
  | gone {head : Head} (hno : ∀ t m, memory t = some m → m.handle ≠ handle) :
      SyncedHead memory handle (some head) none
  | moved {head : Head} {t : Uuid} (hnew : IsNewest memory handle t) :
      SyncedHead memory handle (some head) (some { head with t := t })

/-- A version of a series is replaced by `o`, and the head follows. -/
structure Replaces (s : Store) (t : Uuid) (m : MemoryRow) (o : Option MemoryRow) (s' : Store) :
    Prop where
  found : s.memory t = some m
  memory : s'.memory = Function.update s.memory t o
  head : SyncedHead s'.memory m.handle (s.head m.handle) (s'.head m.handle)
  otherHeads : ∀ h, h ≠ m.handle → s'.head h = s.head h
  counter : s'.counter = s.counter

/-- Receipts are only dropped. -/
def DropsKeys (s s' : Store) : Prop :=
  ∀ o source k, s'.key o source k = s.key o source k ∨ s'.key o source k = none

/-- `forgotten_at` of an owner's version is set or cleared. -/
def Marks (s : Store) (owner t : Uuid) (forgotten : Bool) (s' : Store) : Prop :=
  ∃ m, m.ownerId = owner ∧ m.forgotten = !forgotten ∧
    Replaces s t m (some { m with forgotten := forgotten }) s' ∧ s'.key = s.key

def Erases (owner t : Uuid) (s s' : Store) : Prop :=
  ∃ m, m.ownerId = owner ∧ Replaces s t m none s' ∧ DropsKeys s s'

def MemoryRow.rehome (m : MemoryRow) (handle fromOwner toOwner : Uuid) : MemoryRow :=
  if m.handle = handle ∧ m.ownerId = fromOwner then { m with ownerId := toOwner } else m

/-- A series moves from one owner to another. -/
structure Transfers (s : Store) (fromOwner toOwner t handle : Uuid) (s' : Store) : Prop where
  apart : fromOwner ≠ toOwner
  requested : ∃ m, s.memory t = some m ∧ m.handle = handle ∧ m.ownerId = fromOwner
  memory : ∀ t, s'.memory t = (s.memory t).map (·.rehome handle fromOwner toOwner)
  head : ∃ head, s.head handle = some head ∧ head.ownerId = fromOwner ∧
    s'.head = Function.update s.head handle (some { head with ownerId := toOwner })
  counter : ∀ h, (s'.counter h).map (·.sequence) = (s.counter h).map (·.sequence)
  key : DropsKeys s s'

/-! ### Admissions -/

/-- The `ingest_keys` an admission claims. -/
def Prepared.claims (H : Hashes) (p : Prepared) : List (SourceId × String) :=
  match p.draft.request, p.draft.sourceId, p.draft.ingestKey with
  | some r, _, _ => [(.ledger r.scope, r.requestRowKey H.blake3),
      (.ledger r.scope, r.fingerprintRowKey H.blake3)]
  | none, some source, some key => [(.named source, key)]
  | none, _, _ => []

/-- The publication counter of a series that publishes once more. -/
def nextCounter (owner : Uuid) (c : Option Counter) : Counter :=
  (c.map fun c => { c with sequence := c.sequence + 1 }).getD ⟨owner, 1⟩

/-- One version is admitted: on the head it was prepared against, under a new id above it,
claiming keys that were free. -/
structure Admits (H : Hashes) (s : Store) (p : Prepared) (position : Option ℕ) (s' : Store) :
    Prop where
  expected : (s.head p.handle).map (·.t) = p.expectedHeadT
  agrees : ∀ head, s.head p.handle = some head → head.agrees p.head
  unused : s.memory p.t = none
  minted : IsMinted p.t
  above : ∀ t, p.expectedHeadT = some t → IsMinted t → t < p.t
  head : s'.head = Function.update s.head p.handle (some p.head)
  memory : s'.memory = Function.update s.memory p.t (some p.row)
  key : ∀ o source k, s'.key o source k = s.key o source k ∨
    (s.key o source k = none ∧ s'.key o source k = some p.t ∧ o = p.owner ∧
      (source, k) ∈ p.claims H)
  counter : match position with
    | none => s'.counter = s.counter
    | some n => n = (nextCounter p.owner (s.counter p.handle)).sequence ∧
        s'.counter = Function.update s.counter p.handle
          (some (nextCounter p.owner (s.counter p.handle)))

/-! ### What a command asks for -/

namespace Command

def owner : Command → Uuid
  | ingest a _ => a.owner
  | derive d => d.owner
  | fork q => q.targetOwner
  | lifecycleFact _ owner _ => owner
  | forget owner _ _ => owner
  | restore owner _ _ => owner
  | erase owner _ => owner
  | eraseSeries owner _ => owner
  | transfer fromOwner _ _ => fromOwner

def request : Command → Option RequestKey
  | ingest a _ => a.draft.request
  | derive d => d.request
  | fork q => some q.request
  | _ => none

/-- The admission names its series itself, or reserves a new one. -/
def namesHandle : Command → Bool
  | ingest a _ => a.draft.handle.isSome
  | derive _ => true
  | fork _ => true
  | lifecycleFact .. => true
  | _ => false

/-- What a request is refused for whatever is stored. -/
def malformed : Command → Option StorageError
  | ingest a _ =>
    match a.pins with
    | .error e => some e
    | .ok _ => none
  | derive d =>
    match derivedKind d with
    | .error e => some e
    | .ok _ => none
  | _ => none

/-- The version a request builds on is there for it: live, under the owner the request says,
and for a fork no Fact. -/
def baseReady (v : Tables) : Command → Bool
  | derive d => d.supersedes.all fun prior =>
      (ownedMemory v d.owner prior).any fun m => m.forgotten = false
  | fork q => (memoryOf v q.source).any fun m => m.forgotten = false ∧ m.ownerId = q.sourceOwner ∧
      m.kind ≠ .fact
  | _ => true

/-- The pins a fork copies from its source. -/
def copiedPins (v : Tables) : Command → List Uuid
  | fork q => ((memoryOf v q.source).map fun m => m.origins ++ m.refs).getD []
  | _ => []

end Command

/-- No admission so far named its series itself. -/
def Plain (hist : List Answer) : Prop := ∀ e ∈ hist, e.cmd.namesHandle = false

/-- A version of an owner and schema with a natural key. -/
def MemoryRow.carries (m : MemoryRow) (owner : Uuid) (schemaId : String) (key : SidecarKey) :
    Prop :=
  m.ownerId = owner ∧ m.schemaId = schemaId ∧ m.sidecar = some key

/-- How an admission came by its handle, when it did not name it. -/
structure Placed (hist : List Answer) (s : Store) (a : MemoryAdmissionDraft) (p : Prepared) :
    Prop where
  schemaId : p.draft.schemaId = a.draft.schemaId
  sidecar : p.sidecar = a.naturalKey.map NaturalKey.value
  keyless : a.naturalKey = none → s.head p.handle = none
  keyed : ∀ key, a.naturalKey = some key → Plain hist →
    (s.head p.handle = none ∧ ∀ t m, s.memory t = some m →
      ¬ m.carries a.owner a.draft.schemaId key.value) ∨
    ∃ t m, s.memory t = some m ∧ m.handle = p.handle ∧
      m.carries a.owner a.draft.schemaId key.value

/-! ### What a transaction saw -/

/-- The state before answer `n + 1`, while a transaction ran. -/
structure Saw (hist : List Answer) (db : Tables) (since n : ℕ) (P : Tables → Prop) : Prop where
  after : since ≤ n
  ended : n ≤ hist.length
  holds : P (stateAt hist db n)

section Hashed

variable (H : Hashes)

/-- What the request row of a keyed request held in `v`. -/
def requestRow (v : Tables) (owner : Uuid) (r : RequestKey) : Option Uuid :=
  keyOf v owner (.ledger r.scope) (r.requestRowKey H.blake3)

def fingerprintRow (v : Tables) (owner : Uuid) (r : RequestKey) : Option Uuid :=
  keyOf v owner (.ledger r.scope) (r.fingerprintRowKey H.blake3)

/-- The ledger was read: the request row names `t`, then the version of `t` was found, then
the fingerprint row was compared. -/
def Judged (hist : List Answer) (db : Tables) (since : ℕ) (owner : Uuid) (r : RequestKey)
    (o : FactIngestOutcome) (equal : Bool) : Prop :=
  ∃ i j k, i ≤ j ∧ j ≤ k ∧
    Saw hist db since i (fun v => requestRow H v owner r = some o.memoryId) ∧
    Saw hist db since j (fun v => ∃ m, ownedMemory v owner o.memoryId = some m ∧
      m.handle = o.handle ∧ m.forgotten = o.forgotten) ∧
    Saw hist db since k (fun v =>
      equal = decide (fingerprintRow H v owner r = some o.memoryId))

/-- The errors of an admission's own checks, once its key was judged to be free. -/
def StorageError.ofAdmission : StorageError → Bool
  | .constraintViolation _ | .retryable _ | .scopeMissing .. | .memoryIdCollision
  | .panicked _ => true
  | _ => false

/-- Why a keyed request was refused. -/
inductive Refusal (hist : List Answer) (db : Tables) (since : ℕ) (c : Command)
    (r : RequestKey) : StorageError → Prop where
  | malformed {e : StorageError} (h : c.malformed = some e) : Refusal hist db since c r e
  | base {e : StorageError} {n : ℕ} (h : Saw hist db since n fun v => c.baseReady v = false) :
      Refusal hist db since c r e
  | copied {e : StorageError} {i j : ℕ} {t : Uuid} (hij : i ≤ j)
      (hpin : Saw hist db since i fun v => t ∈ c.copiedPins v)
      (hno : Saw hist db since j fun v => memoryOf v t = none) : Refusal hist db since c r e
  | unclaimed {e : StorageError} {n : ℕ}
      (h : Saw hist db since n fun v => requestRow H v c.owner r = none)
      (he : e.ofAdmission = true) : Refusal hist db since c r e
  | dangling {e : StorageError} {i j : ℕ} {t : Uuid} (hij : i ≤ j)
      (hrow : Saw hist db since i fun v => requestRow H v c.owner r = some t)
      (hno : Saw hist db since j fun v => ownedMemory v c.owner t = none) :
      Refusal hist db since c r e
  | panicked {message : String} : Refusal hist db since c r (.panicked message)
  | conflict {o : FactIngestOutcome} (h : Judged H hist db since c.owner r o false) :
      Refusal hist db since c r (.idempotencyConflict r.key o.memoryId)

/-- How a keyed admission left the ledger: the request row was free and is claimed, with the
fingerprint row unless that was there before; or the claim found the request row taken, and
gone again when it was judged. -/
inductive Claim (hist : List Answer) (db : Tables) (since : ℕ) (owner : Uuid) (r : RequestKey)
    (t : Uuid) (db' : Tables) : Prop where
  | claimed (hfree : requestRow H db owner r = none) (hrow : requestRow H db' owner r = some t)
      (hfingerprint : fingerprintRow H db' owner r = some t ∨
        ∃ n, Saw hist db since n fun v => fingerprintRow H v owner r ≠ none)
  | lost {i j : ℕ} (hij : i ≤ j)
    (hseen : Saw hist db since i fun v => requestRow H v owner r ≠ none)
      (hgone : Saw hist db since j fun v => requestRow H v owner r = none)

/-- The meaning of an answer: what it says of the state it found and the states its
transaction saw, and the rows it leaves. -/
inductive Effect (hist : List Answer) : Answer → Tables → Prop where
  | refused {c : Command} {since : ℕ} {db : Tables} {err : StorageError}
      (h : ∀ r, c.request = some r → Refusal H hist db since c r err) :
      Effect hist ⟨c, since, db, .error err⟩ db
  | replayed {c : Command} {since : ℕ} {db : Tables} {o : FactIngestOutcome}
      (h : ∀ r, c.request = some r → o.idempotentReplay = true ∧
        Judged H hist db since c.owner r o true) :
      Effect hist ⟨c, since, db, .ok (.replayed o)⟩ db
  | admitted {c : Command} {since : ℕ} {db db' : Tables} {p : Prepared} {position : Option ℕ}
      (howner : p.owner = c.owner) (hrequest : p.draft.request = c.request)
      (h : Admits H (store db) p position (store db'))
      (hclaim : ∀ r, c.request = some r → Claim H hist db since c.owner r p.t db')
      (hplaced : c.namesHandle = true ∨ ∃ a publish, c = .ingest a publish ∧
        a.draft.handle = none ∧ Placed hist (store db) a p) :
      Effect hist ⟨c, since, db,
        .ok (.admitted ⟨p.t, p.handle, false, false⟩ p.expectedHeadT position)⟩ db'
  | forgotten {owner t : Uuid} {kinds : Option (List MemoryKind)} {since : ℕ} {db db' : Tables}
      (h : Marks (store db) owner t true (store db')) :
      Effect hist ⟨.forget owner t kinds, since, db, .ok .done⟩ db'
  | restored {owner t : Uuid} {kinds : List MemoryKind} {since : ℕ} {db db' : Tables}
      (h : Marks (store db) owner t false (store db')) :
      Effect hist ⟨.restore owner t kinds, since, db, .ok .done⟩ db'
  | live {owner t : Uuid} {kinds : List MemoryKind} {since : ℕ} {db : Tables} :
      Effect hist ⟨.restore owner t kinds, since, db, .ok .done⟩ db
  | erased {owner t : Uuid} {since : ℕ} {db db' : Tables}
      (h : Erases owner t (store db) (store db')) :
      Effect hist ⟨.erase owner t, since, db, .ok (.erased 1)⟩ db'
  | erasedSeries {owner : Uuid} {ts : List Uuid} {n since : ℕ} {db db' : Tables}
      (h : Relation.ReflTransGen (fun s s' => ∃ t, Erases owner t s s') (store db) (store db')) :
      Effect hist ⟨.eraseSeries owner ts, since, db, .ok (.erased n)⟩ db'
  | transferred {fromOwner toOwner t handle : Uuid} {since : ℕ} {db db' : Tables}
      (h : Transfers (store db) fromOwner toOwner t handle (store db')) :
      Effect hist ⟨.transfer fromOwner toOwner t, since, db, .ok .done⟩ db'

end Hashed

end Proxiima.Memory
