import Mathlib.Data.List.MinMax
import Proxiima.Access
import Proxiima.MemoryUuid
import Proxiima.ReadCommitted.Store
import Proxiima.Sql.Recursive

/-!
# The group tables and the queries over them

Owners, the edges of the group forest, the direct memberships of people and the projection
of roles that the triggers maintain. An edge hangs a child group under its one parent with
a relation; the queries below are the recursive ones of `functions.sql`, each over the
tables as one statement sees them.
-/

namespace Proxiima

inductive OwnerKind where
  | personal | group
  deriving DecidableEq

namespace Groups

open ReadCommitted

/-- Primary keys: `owners`, `group_edges`, `group_memberships`, `group_role_projection`. -/
inductive Key where
  | owner (ownerId : Uuid)
  | edge (child : Uuid)
  | membership (group member : Uuid) (relation : Relation)
  | projection (member group : Uuid)
  deriving DecidableEq

structure Edge where
  parent : Uuid
  relation : Relation
  deriving DecidableEq

@[reducible] def Row : Key → Type
  | .owner _ => OwnerKind
  | .edge _ => Edge
  | .membership .. => Unit
  | .projection .. => Role

abbrev Tables := Log Row

def edgeOf (v : Tables) (child : Uuid) : Option Edge := get v (.edge child)

def parent (v : Tables) (child : Uuid) : Option Uuid := (edgeOf v child).map Edge.parent

def IsMember (v : Tables) (group user : Uuid) (relation : Relation) : Prop :=
  (get v (.membership group user relation)).isSome

instance (v : Tables) (group user : Uuid) (relation : Relation) :
    Decidable (IsMember v group user relation) :=
  inferInstanceAs (Decidable (_ = true))

/-! ### Table scans -/

def edges (v : Tables) : List (Uuid × Edge) :=
  (live v).filterMap fun
    | .edge child => (edgeOf v child).map (child, ·)
    | _ => none

def memberships (v : Tables) : List (Uuid × Uuid × Relation) :=
  (live v).filterMap fun
    | .membership group member relation => some (group, member, relation)
    | _ => none

/-- The groups a projection row of the user names. -/
def projected (v : Tables) (user : Uuid) : List Uuid :=
  (live v).filterMap fun
    | .projection member group => if member = user then some group else none
    | _ => none

variable {v : Tables}

lemma mem_edges {child : Uuid} {e : Edge} : (child, e) ∈ edges v ↔ edgeOf v child = some e := by
  simp only [edges, List.mem_filterMap, mem_live]
  constructor
  · rintro ⟨k, -, hk⟩
    cases k with
    | edge c =>
      obtain ⟨e', he', heq⟩ := Option.map_eq_some_iff.1 hk
      obtain ⟨rfl, rfl⟩ := Prod.mk.inj heq
      exact he'
    | _ => cases hk
  · intro h
    exact ⟨.edge child, Option.isSome_iff_exists.2 ⟨e, h⟩, by simp [h]⟩

lemma mem_memberships {group user : Uuid} {relation : Relation} :
    (group, user, relation) ∈ memberships v ↔ IsMember v group user relation := by
  simp only [memberships, List.mem_filterMap, mem_live, IsMember]
  constructor
  · rintro ⟨k, hk, heq⟩
    cases k with
    | membership g u r =>
      obtain ⟨rfl, rfl, rfl⟩ := by simpa using heq
      exact hk
    | _ => cases heq
  · intro h
    exact ⟨.membership group user relation, h, rfl⟩

lemma mem_projected {user group : Uuid} :
    group ∈ projected v user ↔ (get v (.projection user group)).isSome := by
  simp only [projected, List.mem_filterMap, mem_live]
  constructor
  · rintro ⟨k, hk, heq⟩
    cases k with
    | projection u g =>
      obtain ⟨rfl, rfl⟩ := by simpa using heq
      exact hk
    | _ => cases heq
  · intro h
    exact ⟨.projection user group, h, by simp⟩

/-! ### Recursive queries -/

/-- Enough rounds for any query that follows edges. -/
def rounds (v : Tables) : ℕ := (edges v).length + 1

/-- `group_tree_root`: the last of the parents, by depth. -/
def groupTreeRoot (v : Tables) (group : Uuid) : Uuid :=
  let parents := Sql.recursive (fun (p : Uuid × ℕ) => ((parent v p.1).map (·, p.2 + 1)).toList)
    (rounds v) [(group, 0)]
  ((parents.argmax Prod.snd).map Prod.fst).getD group

/-- The walk of `group_edge_before_write`: the parent of the new edge and all above it. -/
def ancestors (v : Tables) (group : Uuid) : List Uuid :=
  Sql.recursive (fun d => (parent v d).toList) (rounds v) [group]

/-- The walk of `group_projection_after_write`: the child of the edge and all below it. -/
def descendants (v : Tables) (group : Uuid) : List Uuid :=
  Sql.recursive (fun d => (edges v).filterMap fun (child, e) =>
    if e.parent = d then some child else none) (rounds v) [group]

/-- The members of the descendants, each once. -/
def affectedUsers (v : Tables) (child : Uuid) : List Uuid :=
  ((descendants v child).flatMap fun d => (memberships v).filterMap fun (group, user, _) =>
    if group = d then some user else none).dedup

/-- The ranks of `relation_roles`: read, write, manages. -/
def relationRoles : Relation → ℕ × ℕ × Bool
  | .admin => (4, 4, true)
  | .editor => (4, 3, false)
  | .viewer => (4, 0, false)
  | .ingest => (1, 1, false)

/-- A row of `paths`: one way the user reaches the group. -/
structure PathRow where
  group : Uuid
  readRank : ℕ
  writeRank : ℕ
  manages : Bool
  deriving DecidableEq

def PathRow.start (group : Uuid) (relation : Relation) : PathRow :=
  let r := relationRoles relation
  ⟨group, r.1, r.2.1, r.2.2⟩

def PathRow.step (p : PathRow) (e : Edge) : PathRow :=
  let r := relationRoles e.relation
  ⟨e.parent, min p.readRank r.1, min p.writeRank r.2.1, p.manages && r.2.2⟩

def paths (v : Tables) (user : Uuid) : List PathRow :=
  Sql.recursive (fun p => ((edgeOf v p.group).map p.step).toList) (rounds v)
    ((memberships v).filterMap fun (group, member, relation) =>
      if member = user then some (.start group relation) else none)

/-- `max`, `max` and `bool_or` over the paths into one group. -/
def foldRows (group : Uuid) (rows : List PathRow) : PathRow :=
  ⟨group, (rows.map PathRow.readRank).foldl max 0, (rows.map PathRow.writeRank).foldl max 0,
    rows.any PathRow.manages⟩

/-- `folded`: the paths grouped by the group they lead to. -/
def folded (v : Tables) (user : Uuid) : List PathRow :=
  ((paths v user).map PathRow.group).dedup.map fun group =>
    foldRows group ((paths v user).filter fun p => p.group = group)

end Groups

end Proxiima
