import Mathlib.Data.List.MinMax
import Proxiima.MemoryUuid
import Proxiima.ReadCommitted.Store

/-!
# The memory tables and the queries over them

A memory series is a handle with its versions: rows of `memory` under ids `t`, and one row
of `memory_head` that says which version is the head, of which kind, schema and owner the
series is. Receipts of sourced writes and of keyed requests are rows of `ingest_keys`, and
`publication_counter` counts the publications of a series. The sidecar row of a version is
kept with the version, as far as its natural key goes.
-/

namespace Proxiima.Memory

open ReadCommitted

inductive MemoryKind where
  | fact | abstraction | perspective
  deriving DecidableEq

/-! ### Natural keys -/

inductive SidecarAtom where
  | uuid (id : Uuid)
  | text (s : String)
  | bool (b : Bool)
  | i32 (n : ℤ)
  | i64 (n : ℤ)
  deriving DecidableEq

/-- What a sidecar column holds: an integer compares by value, whatever its width. -/
inductive ColumnValue where
  | uuid (id : Uuid)
  | text (s : String)
  | bool (b : Bool)
  | integer (n : ℤ)
  deriving DecidableEq

def SidecarAtom.value : SidecarAtom → ColumnValue
  | uuid id => .uuid id
  | text s => .text s
  | bool b => .bool b
  | i32 n => .integer n
  | i64 n => .integer n

/-- The key columns of a sidecar row, in the order its payload type declares them. -/
structure SidecarKey where
  table : String
  memoryKeyColumn : String
  columns : List (String × ColumnValue)
  deriving DecidableEq

structure NaturalKey where
  sidecarTable : String
  memoryKeyColumn : String
  columns : List (String × SidecarAtom)
  reobserveDisplaced : Bool
  deriving DecidableEq

def NaturalKey.value (k : NaturalKey) : SidecarKey :=
  ⟨k.sidecarTable, k.memoryKeyColumn, k.columns.map fun c => (c.1, c.2.value)⟩

/-! ### Request keys -/

inductive KeyScope where
  | note | utterance | abstraction | perspective
  | goalAbstraction (goal user : Uuid)
  | goalPerspective (goal user : Uuid)
  deriving DecidableEq

/-- `ingest_keys.source_id`: a source of its own, or `core/key/<scope>` of the request ledger. -/
inductive SourceId where
  | named (source : String)
  | ledger (scope : KeyScope)
  deriving DecidableEq

abbrev Fingerprint := { bytes : List UInt8 // bytes.length = 32 }

structure RequestKey where
  scope : KeyScope
  key : List UInt8
  fingerprint : Fingerprint
  deriving DecidableEq

/-- A length as eight bytes, most significant first. -/
def lengthBytes (n : ℕ) : List UInt8 := (List.range 8).map fun i => UInt8.ofNat (n / 256 ^ (7 - i))

section Digest

variable (blake3 : List UInt8 → String)

/-- `ingest_keys.ingest_key` of the request row. -/
def RequestKey.requestRowKey (r : RequestKey) : String := "r:" ++ blake3 r.key

/-- `ingest_keys.ingest_key` of the fingerprint row. -/
def RequestKey.fingerprintRowKey (r : RequestKey) : String :=
  "f:" ++ blake3 (lengthBytes r.key.length ++ r.key ++ r.fingerprint.1)

end Digest

/-! ### Rows -/

/-- Primary keys: `memory_head`, `memory`, `ingest_keys`, `publication_counter`. -/
inductive Key where
  | head (handle : Uuid)
  | memory (t : Uuid)
  | ingestKey (owner : Uuid) (source : SourceId) (key : String)
  | counter (handle : Uuid)
  deriving DecidableEq

structure Head where
  kind : MemoryKind
  schemaId : String
  ownerId : Uuid
  t : Uuid
  deriving DecidableEq

structure MemoryRow where
  handle : Uuid
  kind : MemoryKind
  ownerId : Uuid
  schemaId : String
  sourceId : Option String
  ingestKey : Option String
  origins : List Uuid
  refs : List Uuid
  goalRefs : List Uuid
  guidedBy : List Uuid
  occurredAt : Option ℕ
  forkedFrom : Option Uuid
  /-- The natural key in the sidecar row of this version. -/
  sidecar : Option SidecarKey
  forgotten : Bool
  deriving DecidableEq

structure Counter where
  ownerId : Uuid
  sequence : ℕ
  deriving DecidableEq

@[reducible] def Row : Key → Type
  | .head _ => Head
  | .memory _ => MemoryRow
  | .ingestKey .. => Uuid
  | .counter _ => Counter

abbrev Tables := Log Row

def headOf (v : Tables) (handle : Uuid) : Option Head := get v (.head handle)

def memoryOf (v : Tables) (t : Uuid) : Option MemoryRow := get v (.memory t)

def keyOf (v : Tables) (owner : Uuid) (source : SourceId) (key : String) : Option Uuid :=
  get v (.ingestKey owner source key)

def counterOf (v : Tables) (handle : Uuid) : Option Counter := get v (.counter handle)

section Cons

variable (v : Tables) (h t o : Uuid) (s : SourceId) (k : String)

@[simp] lemma headOf_cons_head (r : Option Head) :
    headOf (⟨.head h, r⟩ :: v) = Function.update (headOf v) h r := by
  funext h'
  by_cases hh : h' = h
  · subst hh
    simp [headOf]
  · rw [Function.update_of_ne hh]
    exact get_cons_ne _ _ (by simpa using hh)

@[simp] lemma memoryOf_cons_memory (r : Option MemoryRow) :
    memoryOf (⟨.memory t, r⟩ :: v) = Function.update (memoryOf v) t r := by
  funext t'
  by_cases ht : t' = t
  · subst ht
    simp [memoryOf]
  · rw [Function.update_of_ne ht]
    exact get_cons_ne _ _ (by simpa using ht)

@[simp] lemma counterOf_cons_counter (r : Option Counter) :
    counterOf (⟨.counter h, r⟩ :: v) = Function.update (counterOf v) h r := by
  funext h'
  by_cases hh : h' = h
  · subst hh
    simp [counterOf]
  · rw [Function.update_of_ne hh]
    exact get_cons_ne _ _ (by simpa using hh)

@[simp] lemma headOf_cons_memory (r : Option MemoryRow) : headOf (⟨.memory t, r⟩ :: v) = headOf v :=
  funext fun _ => get_cons_ne _ _ (by simp)

@[simp] lemma headOf_cons_key (r : Option Uuid) : headOf (⟨.ingestKey o s k, r⟩ :: v) = headOf v :=
  funext fun _ => get_cons_ne _ _ (by simp)

@[simp] lemma headOf_cons_counter (r : Option Counter) : headOf (⟨.counter h, r⟩ :: v) = headOf v :=
  funext fun _ => get_cons_ne _ _ (by simp)

@[simp] lemma memoryOf_cons_head (r : Option Head) : memoryOf (⟨.head h, r⟩ :: v) = memoryOf v :=
  funext fun _ => get_cons_ne _ _ (by simp)

@[simp] lemma memoryOf_cons_key (r : Option Uuid) :
    memoryOf (⟨.ingestKey o s k, r⟩ :: v) = memoryOf v :=
  funext fun _ => get_cons_ne _ _ (by simp)

@[simp] lemma memoryOf_cons_counter (r : Option Counter) :
    memoryOf (⟨.counter h, r⟩ :: v) = memoryOf v :=
  funext fun _ => get_cons_ne _ _ (by simp)

@[simp] lemma counterOf_cons_head (r : Option Head) : counterOf (⟨.head h, r⟩ :: v) = counterOf v :=
  funext fun _ => get_cons_ne _ _ (by simp)

@[simp] lemma counterOf_cons_memory (r : Option MemoryRow) :
    counterOf (⟨.memory t, r⟩ :: v) = counterOf v :=
  funext fun _ => get_cons_ne _ _ (by simp)

@[simp] lemma counterOf_cons_key (r : Option Uuid) :
    counterOf (⟨.ingestKey o s k, r⟩ :: v) = counterOf v :=
  funext fun _ => get_cons_ne _ _ (by simp)

@[simp] lemma keyOf_cons_head (r : Option Head) : keyOf (⟨.head h, r⟩ :: v) = keyOf v :=
  funext fun _ => funext fun _ => funext fun _ => get_cons_ne _ _ (by simp)

@[simp] lemma keyOf_cons_memory (r : Option MemoryRow) : keyOf (⟨.memory t, r⟩ :: v) = keyOf v :=
  funext fun _ => funext fun _ => funext fun _ => get_cons_ne _ _ (by simp)

@[simp] lemma keyOf_cons_counter (r : Option Counter) : keyOf (⟨.counter h, r⟩ :: v) = keyOf v :=
  funext fun _ => funext fun _ => funext fun _ => get_cons_ne _ _ (by simp)

end Cons

/-! ### Scans -/

def memories (v : Tables) : List (Uuid × MemoryRow) :=
  (live v).filterMap fun
    | .memory t => (memoryOf v t).map (t, ·)
    | _ => none

def versions (v : Tables) (handle : Uuid) : List (Uuid × MemoryRow) :=
  (memories v).filter fun p => p.2.handle = handle

/-- `ORDER BY (forgotten_at IS NULL) DESC, t DESC LIMIT 1` over the versions of a series. -/
def remaining (v : Tables) (handle : Uuid) : Option Uuid :=
  (((versions v handle).filter fun p => !p.2.forgotten).map Prod.fst).max?.or
    ((versions v handle).map Prod.fst).max?

/-- The heads of an owner's series of a schema whose version has this natural key. -/
def ownedHeads (v : Tables) (owner : Uuid) (schemaId : String) (key : SidecarKey) : List Uuid :=
  (live v).filterMap fun
    | .head handle =>
      match headOf v handle with
      | none => none
      | some head =>
        match memoryOf v head.t with
        | none => none
        | some m =>
          if m.handle = handle ∧ m.ownerId = owner ∧ m.schemaId = schemaId ∧ m.sidecar = some key
          then some handle else none
    | _ => none

/-- The receipts whose owner and version are as asked. -/
def receipts (v : Tables) (asked : Uuid → Uuid → Bool) : List (Uuid × SourceId × String) :=
  (live v).filterMap fun
    | .ingestKey owner source key =>
      if (keyOf v owner source key).any (asked owner) then some (owner, source, key) else none
    | _ => none

/-- The versions, other than Facts, that pin `t` as origin or reference. -/
def dependers (v : Tables) (t : Uuid) : List (Uuid × Uuid) :=
  ((memories v).filter fun p =>
    p.2.kind ≠ .fact ∧ p.1 ≠ t ∧ (t ∈ p.2.origins ∨ t ∈ p.2.refs)).map fun p => (p.1, p.2.handle)

variable {v : Tables} {t h : Uuid}

lemma mem_memories {r : MemoryRow} : (t, r) ∈ memories v ↔ memoryOf v t = some r := by
  simp only [memories, List.mem_filterMap, mem_live]
  constructor
  · rintro ⟨k, -, hk⟩
    cases k with
    | memory t' =>
      obtain ⟨r', hr', heq⟩ := Option.map_eq_some_iff.1 hk
      obtain ⟨rfl, rfl⟩ := Prod.mk.inj heq
      exact hr'
    | _ => cases hk
  · intro h
    exact ⟨.memory t, Option.isSome_iff_exists.2 ⟨r, h⟩, by simp [h]⟩

lemma mem_versions {r : MemoryRow} :
    (t, r) ∈ versions v h ↔ memoryOf v t = some r ∧ r.handle = h := by
  simp [versions, mem_memories]

lemma mem_ownedHeads {owner : Uuid} {schemaId : String} {key : SidecarKey} :
    h ∈ ownedHeads v owner schemaId key ↔ ∃ head m, headOf v h = some head ∧
      memoryOf v head.t = some m ∧ m.handle = h ∧ m.ownerId = owner ∧ m.schemaId = schemaId ∧
      m.sidecar = some key := by
  simp only [ownedHeads, List.mem_filterMap, mem_live]
  constructor
  · rintro ⟨k, -, hk⟩
    cases k with
    | head h' =>
      simp only at hk
      split at hk
      · cases hk
      rename_i head hhead
      split at hk
      · cases hk
      rename_i m hm
      split at hk
      · rename_i hcond
        obtain rfl := Option.some.inj hk
        exact ⟨head, m, hhead, hm, hcond⟩
      · cases hk
    | _ => cases hk
  · rintro ⟨head, m, hhead, hm, hcond⟩
    refine ⟨.head h, Option.isSome_iff_exists.2 ⟨head, hhead⟩, ?_⟩
    simp only [hhead, hm]
    exact if_pos hcond

/-! ### The newest version -/

/-- `t` is the newest live version of the series, or its newest when none is live. -/
def IsNewest (m : Uuid → Option MemoryRow) (handle t : Uuid) : Prop :=
  ∃ r, m t = some r ∧ r.handle = handle ∧ ∀ t' r', m t' = some r' → r'.handle = handle →
    (r'.forgotten = false → r.forgotten = false ∧ t' ≤ t) ∧ (r.forgotten = true → t' ≤ t)

lemma remaining_eq_some (ht : remaining v h = some t) : IsNewest (memoryOf v) h t := by
  rw [remaining, Option.or_eq_some_iff] at ht
  rcases ht with hlive | ⟨hnone, hall⟩
  · obtain ⟨hmem, hmax⟩ := List.max?_eq_some_iff.1 hlive
    obtain ⟨⟨t', r⟩, hp, rfl⟩ := List.mem_map.1 hmem
    obtain ⟨hv, hf⟩ := List.mem_filter.1 hp
    obtain ⟨hr, hh⟩ := mem_versions.1 hv
    have hf : r.forgotten = false := by simpa using hf
    refine ⟨r, hr, hh, fun u s hu hsh => ⟨fun hs => ⟨hf, ?_⟩, fun hr' => ?_⟩⟩
    · refine hmax u (List.mem_map.2 ⟨(u, s), List.mem_filter.2 ⟨mem_versions.2 ⟨hu, hsh⟩, ?_⟩, rfl⟩)
      simpa using hs
    · simp [hf] at hr'
  · obtain ⟨hmem, hmax⟩ := List.max?_eq_some_iff.1 hall
    obtain ⟨⟨t', r⟩, hp, rfl⟩ := List.mem_map.1 hmem
    obtain ⟨hr, hh⟩ := mem_versions.1 hp
    -- no version is live
    have hforgotten : ∀ u s, memoryOf v u = some s → s.handle = h → s.forgotten = true := by
      intro u s hu hsh
      by_contra hs
      have : (u, s) ∈ (versions v h).filter fun p => !p.2.forgotten :=
        List.mem_filter.2 ⟨mem_versions.2 ⟨hu, hsh⟩, by simpa using hs⟩
      rw [List.max?_eq_none_iff, List.map_eq_nil_iff] at hnone
      simp [hnone] at this
    refine ⟨r, hr, hh, fun u s hu hsh => ⟨fun hs => ?_, fun _ => ?_⟩⟩
    · simp [hforgotten u s hu hsh] at hs
    · exact hmax u (List.mem_map.2 ⟨(u, s), mem_versions.2 ⟨hu, hsh⟩, rfl⟩)

lemma remaining_eq_none : remaining v h = none ↔ ∀ t r, memoryOf v t = some r → r.handle ≠ h := by
  rw [remaining, Option.or_eq_none_iff, List.max?_eq_none_iff, List.max?_eq_none_iff,
    List.map_eq_nil_iff, List.map_eq_nil_iff]
  constructor
  · rintro ⟨-, hnil⟩ t r hr hh
    have := mem_versions.2 ⟨hr, hh⟩
    simp [hnil] at this
  · intro hno
    have hnil : versions v h = [] := by
      rw [List.eq_nil_iff_forall_not_mem]
      rintro ⟨t, r⟩ hmem
      obtain ⟨hr, hh⟩ := mem_versions.1 hmem
      exact hno t r hr hh
    simp [hnil]

end Proxiima.Memory
