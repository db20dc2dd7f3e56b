import Mathlib.Data.Finset.Prod
import Proxiima.MemoryUuid
import Proxiima.Sql.Union

/-!
# Terminal mappings of a schema evolution

An evolution records, in the transaction that runs it, which record became which. The recursive
query follows these mappings from the ones it is asked for to the records that no further mapping
replaces. It stops on every set of mappings, with cycles and all, and returns exactly the ends of
paths.
-/

namespace Proxiima.Evolution

inductive RecordKind where
  | memory | goal | blob
  deriving DecidableEq

/-- A row of `schema_evolution_authority`. -/
structure Authority where
  xact : ℕ
  recordKind : RecordKind
  sourceId : Uuid
  targetId : Uuid
  sourceSchema : String
  targetSchema : String
  sourceHandle : Option Uuid
  targetHandle : Option Uuid
  recordOwner : Uuid
  primaryTarget : Bool
  deriving DecidableEq

structure Mapping where
  recordKind : RecordKind
  sourceId : Uuid
  sourceSchema : String
  sourceHandle : Option Uuid
  targetId : Uuid
  targetSchema : String
  targetHandle : Option Uuid
  recordOwner : Uuid
  primaryTarget : Bool
  deriving DecidableEq

/-- What the query sees: the table, the transaction it runs in, and who runs it. -/
structure Session where
  authority : List Authority
  currentXact : ℕ
  scope : Option String
  bypassesRls : Bool
  usesTableOwner : Bool

variable (s : Session)

/-- `schema_evolution_permits`. -/
def permits (requestedKind : RecordKind) (sourceId targetId : Uuid) : Bool :=
  s.scope = some "platform" && !s.bypassesRls && s.usesTableOwner &&
    s.authority.any fun a =>
      a.xact = s.currentXact && a.recordKind = requestedKind && a.sourceId = sourceId &&
        a.targetId = targetId

/-! ### The query -/

def Mapping.ofAuthority (a : Authority) : Mapping where
  recordKind := a.recordKind
  sourceId := a.sourceId
  sourceSchema := a.sourceSchema
  sourceHandle := a.sourceHandle
  targetId := a.targetId
  targetSchema := a.targetSchema
  targetHandle := a.targetHandle
  recordOwner := a.recordOwner
  primaryTarget := a.primaryTarget

def Mapping.extend (p : Mapping) (n : Authority) : Mapping :=
  { p with
    targetId := n.targetId
    targetSchema := n.targetSchema
    targetHandle := n.targetHandle
    primaryTarget := p.primaryTarget && n.primaryTarget }

/-- The rows the recursion starts from; an owner that is `NULL` equals none. -/
def requested (requestedOwner : Option Uuid) (referencedIds : List Uuid) (a : Authority) : Bool :=
  a.xact = s.currentXact &&
    (some a.recordOwner = requestedOwner || a.sourceId ∈ referencedIds) &&
    permits s a.recordKind a.sourceId a.targetId

/-- The mapping `n` goes on where `p` arrived. -/
def continues (p : Mapping) (n : Authority) : Bool :=
  n.xact = s.currentXact && n.recordKind = p.recordKind && n.recordOwner = p.recordOwner &&
    n.sourceId = p.targetId && n.sourceSchema = p.targetSchema

def step (p : Mapping) : List Mapping := (s.authority.filter (continues s p)).map p.extend

def baseMappings (requestedOwner : Option Uuid) (referencedIds : List Uuid) : List Mapping :=
  (s.authority.filter (requested s requestedOwner referencedIds)).map .ofAuthority

/-- `none` only when the recursion has not stopped after `fuel` rounds. -/
def schemaEvolutionTerminalMappings (fuel : ℕ) (requestedOwner : Option Uuid)
    (referencedIds : List Uuid) : Option (List Mapping) :=
  (Sql.recursiveUnion (step s) fuel (baseMappings s requestedOwner referencedIds)).map
    fun mappings => (mappings.filter fun p => !s.authority.any (continues s p)).dedup

/-! ### Paths -/

/-- A path of mapping steps of this transaction, of one record kind and owner, from the source
node of `row` to its target node; `row` is primary when every step is. -/
structure Path (first : Authority) (rest : List Authority) (row : Mapping) : Prop where
  recorded : ∀ a ∈ first :: rest, a ∈ s.authority ∧ a.xact = s.currentXact ∧
    a.recordKind = row.recordKind ∧ a.recordOwner = row.recordOwner
  chain : (first :: rest).IsChain fun a b =>
    b.sourceId = a.targetId ∧ b.sourceSchema = a.targetSchema
  source : first.sourceId = row.sourceId ∧ first.sourceSchema = row.sourceSchema ∧
    first.sourceHandle = row.sourceHandle
  target : ∀ last ∈ (first :: rest).getLast?, last.targetId = row.targetId ∧
    last.targetSchema = row.targetSchema ∧ last.targetHandle = row.targetHandle
  primary : row.primaryTarget = true ↔ ∀ a ∈ first :: rest, a.primaryTarget = true

variable {s} {p : Mapping} {n : Authority}

lemma continues_iff :
    continues s p n = true ↔ n.xact = s.currentXact ∧ n.recordKind = p.recordKind ∧
      n.recordOwner = p.recordOwner ∧ n.sourceId = p.targetId ∧
        n.sourceSchema = p.targetSchema := by
  simp [continues, and_assoc]

lemma path_single {a : Authority} (ha : a ∈ s.authority) (hx : a.xact = s.currentXact) :
    Path s a [] (.ofAuthority a) where
  recorded b hb := by
    obtain rfl := List.mem_singleton.1 hb
    exact ⟨ha, hx, rfl, rfl⟩
  chain := .singleton _
  source := ⟨rfl, rfl, rfl⟩
  target last hlast := by
    cases hlast
    exact ⟨rfl, rfl, rfl⟩
  primary := by simp [Mapping.ofAuthority]

variable {first : Authority} {rest : List Authority} {row : Mapping}

lemma Path.extend (h : Path s first rest row) (hn : n ∈ s.authority)
    (hnext : continues s row n = true) : Path s first (rest ++ [n]) (row.extend n) := by
  obtain ⟨hx, hkind, howner, hid, hschema⟩ := continues_iff.1 hnext
  refine ⟨fun a ha => ?_, ?_, h.source, fun last hlast => ?_, ?_⟩
  · rw [← List.cons_append, List.mem_append, List.mem_singleton] at ha
    rcases ha with ha | rfl
    · exact h.recorded a ha
    · exact ⟨hn, hx, hkind, howner⟩
  · rw [← List.cons_append, List.isChain_append]
    refine ⟨h.chain, .singleton n, fun a ha b hb => ?_⟩
    obtain rfl : n = b := by simpa using hb
    obtain ⟨haid, haschema, -⟩ := h.target a ha
    exact ⟨hid.trans haid.symm, hschema.trans haschema.symm⟩
  · rw [← List.cons_append, List.getLast?_concat] at hlast
    cases hlast
    exact ⟨rfl, rfl, rfl⟩
  · rw [Mapping.extend, Bool.and_eq_true, h.primary, ← List.cons_append, List.forall_mem_append,
      List.forall_mem_singleton]

/-- A path that ends in a step `n` is a path before it, continued. -/
lemma Path.of_extend (h : Path s first (rest ++ [n]) row) :
    ∃ before, Path s first rest before ∧ n ∈ s.authority ∧ continues s before n = true ∧
      row = before.extend n := by
  have hmem (a : Authority) (ha : a ∈ first :: rest) : a ∈ first :: (rest ++ [n]) := by
    rw [← List.cons_append]
    exact List.mem_append_left _ ha
  have hlast : n ∈ first :: (rest ++ [n]) := by simp
  obtain ⟨hchain, -, hjoin⟩ := List.isChain_append.1 (List.cons_append ▸ h.chain)
  obtain ⟨hn, hx, hkind, howner⟩ := h.recorded n hlast
  obtain ⟨last, hl⟩ : ∃ last, (first :: rest).getLast? = some last :=
    Option.isSome_iff_exists.1 (by simp)
  obtain ⟨hid, hschema⟩ := hjoin last hl n (by simp)
  let before : Mapping :=
    { row with
      targetId := last.targetId
      targetSchema := last.targetSchema
      targetHandle := last.targetHandle
      primaryTarget := (first :: rest).all (·.primaryTarget) }
  refine ⟨before, ⟨fun a ha => h.recorded a (hmem a ha), hchain, h.source, ?_, ?_⟩, hn,
    continues_iff.2 ⟨hx, hkind, howner, hid, hschema⟩, ?_⟩
  · intro a ha
    obtain rfl : last = a := Option.mem_unique hl ha
    exact ⟨rfl, rfl, rfl⟩
  · exact List.all_eq_true
  · obtain ⟨htid, htschema, hthandle⟩ := h.target n
      (by rw [← List.cons_append, List.getLast?_concat]; rfl)
    have hprimary : row.primaryTarget =
        ((first :: rest).all (·.primaryTarget) && n.primaryTarget) := by
      rw [Bool.eq_iff_iff, h.primary, Bool.and_eq_true, List.all_eq_true, ← List.cons_append,
        List.forall_mem_append, List.forall_mem_singleton]
    cases row
    simp_all [Mapping.extend, before]

section Reached

variable {requestedOwner : Option Uuid} {referencedIds : List Uuid}

lemma mem_baseMappings :
    row ∈ baseMappings s requestedOwner referencedIds ↔ ∃ first ∈ s.authority,
      requested s requestedOwner referencedIds first = true ∧ Mapping.ofAuthority first = row := by
  simp [baseMappings, and_assoc]

lemma mem_step : row ∈ step s p ↔ ∃ n ∈ s.authority, continues s p n = true ∧ p.extend n = row := by
  simp [step, and_assoc]

lemma path_of_reached {r : Mapping} (hr : r ∈ baseMappings s requestedOwner referencedIds)
    (h : Relation.ReflTransGen (fun a b => b ∈ step s a) r row) :
    ∃ first rest, requested s requestedOwner referencedIds first = true ∧
      Path s first rest row := by
  induction h with
  | refl =>
    obtain ⟨first, hfirst, hreq, rfl⟩ := mem_baseMappings.1 hr
    have hx : first.xact = s.currentXact := by
      simp only [requested, Bool.and_eq_true, decide_eq_true_eq] at hreq
      exact hreq.1.1
    exact ⟨first, [], hreq, path_single hfirst hx⟩
  | tail _ hstep ih =>
    obtain ⟨first, rest, hreq, hpath⟩ := ih
    obtain ⟨n, hn, hnext, rfl⟩ := mem_step.1 hstep
    exact ⟨first, rest ++ [n], hreq, hpath.extend hn hnext⟩

lemma reached_of_path (hreq : requested s requestedOwner referencedIds first = true)
    (h : Path s first rest row) :
    ∃ r ∈ baseMappings s requestedOwner referencedIds,
      Relation.ReflTransGen (fun a b => b ∈ step s a) r row := by
  induction rest using List.reverseRecOn generalizing row with
  | nil =>
    have hrow : Mapping.ofAuthority first = row := by
      obtain ⟨-, -, hkind, howner⟩ := h.recorded first (by simp)
      obtain ⟨hid, hschema, hhandle⟩ := h.source
      obtain ⟨htid, htschema, hthandle⟩ := h.target first (by simp)
      have hprimary : row.primaryTarget = first.primaryTarget := by
        rw [Bool.eq_iff_iff, h.primary, List.forall_mem_singleton]
      cases row
      simp_all [Mapping.ofAuthority]
    exact ⟨row, mem_baseMappings.2 ⟨first, (h.recorded first (by simp)).1, hreq, hrow⟩, .refl⟩
  | append_singleton rest n ih =>
    obtain ⟨before, hbefore, hn, hnext, rfl⟩ := h.of_extend
    obtain ⟨r, hr, hrb⟩ := ih hbefore
    exact ⟨r, hr, hrb.tail (mem_step.2 ⟨n, hn, hnext, rfl⟩)⟩

def spanning (first last : Authority) (primary : Bool) : Mapping :=
  { (Mapping.ofAuthority first).extend last with primaryTarget := primary }

/-- All rows that can be found: a first and a last mapping, primary or not. -/
def allMappings (s : Session) : Finset Mapping :=
  (s.authority.flatMap fun a => s.authority.flatMap fun n =>
    [true, false].map (spanning a n)).toFinset

lemma mem_allMappings :
    row ∈ allMappings s ↔
      ∃ a ∈ s.authority, ∃ n ∈ s.authority, ∃ b, spanning a n b = row := by
  have hbool (b : Bool) : b ∈ [true, false] := by cases b <;> simp
  simp only [allMappings, List.mem_toFinset, List.mem_flatMap, List.mem_map, hbool, true_and]

lemma step_mem_allMappings (hp : p ∈ allMappings s) (h : row ∈ step s p) : row ∈ allMappings s := by
  obtain ⟨a, ha, m, -, b, rfl⟩ := mem_allMappings.1 hp
  obtain ⟨n, hn, -, rfl⟩ := mem_step.1 h
  exact mem_allMappings.2 ⟨a, ha, n, hn, _, rfl⟩

lemma base_mem_allMappings (h : row ∈ baseMappings s requestedOwner referencedIds) :
    row ∈ allMappings s := by
  obtain ⟨a, ha, -, rfl⟩ := mem_baseMappings.1 h
  exact mem_allMappings.2 ⟨a, ha, a, ha, a.primaryTarget, rfl⟩

end Reached

/-- **The query stops and returns the ends of paths**: for every table of mappings and every
request there are enough rounds, and then a row is returned exactly when a path of one or more
steps from a requested and permitted mapping leads to it and no further mapping starts there. -/
theorem terminalMappings_exact (s : Session) (requestedOwner : Option Uuid)
    (referencedIds : List Uuid) :
    (∃ n, ∀ fuel ≥ n,
      (schemaEvolutionTerminalMappings s fuel requestedOwner referencedIds).isSome) ∧
    ∀ fuel rows, schemaEvolutionTerminalMappings s fuel requestedOwner referencedIds = some rows →
      rows.Nodup ∧ ∀ row, row ∈ rows ↔
        (∃ first rest, requested s requestedOwner referencedIds first = true ∧
          Path s first rest row) ∧
        ∀ n ∈ s.authority, ¬ (n.xact = s.currentXact ∧ n.recordKind = row.recordKind ∧
          n.recordOwner = row.recordOwner ∧ n.sourceId = row.targetId ∧
          n.sourceSchema = row.targetSchema) := by
  constructor
  · refine ⟨(allMappings s).card + 1, fun fuel hfuel => ?_⟩
    have hbase : ∀ r ∈ baseMappings s requestedOwner referencedIds, r ∈ allMappings s :=
      fun r => base_mem_allMappings
    obtain ⟨mappings, hrun⟩ :=
      Sql.exists_recursiveUnion hbase (fun p hp row => step_mem_allMappings hp) hfuel
    rw [schemaEvolutionTerminalMappings, hrun]
    rfl
  · intro fuel rows h
    obtain ⟨mappings, hrun, rfl⟩ := Option.map_eq_some_iff.1 h
    refine ⟨List.nodup_dedup _, fun row => ?_⟩
    rw [List.mem_dedup, List.mem_filter, Sql.mem_recursiveUnion hrun]
    refine and_congr ⟨?_, ?_⟩ ?_
    · rintro ⟨r, hr, hrow⟩
      exact path_of_reached hr hrow
    · rintro ⟨first, rest, hreq, hpath⟩
      exact reached_of_path hreq hpath
    · simp only [Bool.not_eq_true', ← Bool.not_eq_true, List.any_eq_true, continues_iff,
        not_exists, not_and]

end Proxiima.Evolution
