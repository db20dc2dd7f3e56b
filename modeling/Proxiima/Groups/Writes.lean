import Mathlib.Data.List.Sort
import Proxiima.Groups.Tables
import Proxiima.ReadCommitted.Rows

/-!
# Writes to the group tables

A transaction is a list of statements. Each statement picks its row changes from the rows it
sees; a change runs its BEFORE ROW trigger, then the write, and the AFTER ROW triggers of
all changed rows fire when the statement is done. The triggers are those of
`functions.sql`: they lock the trees they touch, refuse a cycle, and rebuild the projection
of the users a change may affect.
-/

namespace Proxiima.Groups

open ReadCommitted Prog

/-- The texts that advisory locks are taken on, before hashing. -/
inductive LockName where
  | groupTree (root : Uuid)
  | ownerKind (owner : Uuid)
  | groupProjection (user : Uuid)
  deriving DecidableEq

inductive Lock where
  | row (k : Key)
  | advisory (key : ℕ)
  deriving DecidableEq

inductive Error where
  | edgeIdentityImmutable
  | containsItself
  | wouldCreateCycle
  | membershipIdentityImmutable
  | ownerIsGroup (owner : Uuid)
  | ownerHasMemberships (owner : Uuid)
  | uniqueViolation (k : Key)
  | roleCheckViolation (user group : Uuid)
  /-- The statement was cancelled while it waited for a tree to hold still. -/
  | canceled
  deriving DecidableEq

/-- A program over the group tables. Its inputs bound how long a tree lock is retried. -/
abbrev Program := Prog Row Lock Error ℕ Unit

/-! ### Rows -/

/-- The row an UPDATE or DELETE goes on with, once its lock is held. -/
def lockedRow (k : Key) : Program (Option (Row k)) := lockRow (.row k) k

/-- INSERT, with or without ON CONFLICT DO NOTHING; whether the row was inserted. -/
def insertInto (k : Key) (r : Row k) (onConflictDoNothing : Bool) : Program Bool := do
  let inserted ← insertRow (.row k) k r
  if inserted || onConflictDoNothing then pure inserted else fail (.uniqueViolation k)

section Triggers

variable (hash : LockName → ℕ)

def lockName (n : LockName) : Program Unit := lock (.advisory (hash n))

/-! ### Tree locks -/

def lockGroupTreeLoop (group : Uuid) : (rounds : ℕ) → Program Unit
  | 0 => fail .canceled
  | n + 1 => do
    let beforeRoot := groupTreeRoot (← view) group
    lockName hash (.groupTree beforeRoot)
    let afterRoot := groupTreeRoot (← view) group
    if beforeRoot = afterRoot then pure () else lockGroupTreeLoop group n

def lockGroupTree (group : Uuid) : Program Unit := do
  let n ← call fun n _ => (n, ())
  lockGroupTreeLoop hash group n

/-- Both roots, in the order of the ids, and one lock where they are the same. -/
def lockRoots (leftRoot rightRoot : Uuid) : Program Unit :=
  if leftRoot ≤ rightRoot then do
    lockName hash (.groupTree leftRoot)
    if leftRoot ≠ rightRoot then lockName hash (.groupTree rightRoot) else pure ()
  else do
    lockName hash (.groupTree rightRoot)
    lockName hash (.groupTree leftRoot)

def lockGroupTreesLoop (left right : Uuid) : (rounds : ℕ) → Program Unit
  | 0 => fail .canceled
  | n + 1 => do
    let leftRoot := groupTreeRoot (← view) left
    let rightRoot := groupTreeRoot (← view) right
    lockRoots hash leftRoot rightRoot
    let checkedLeft := groupTreeRoot (← view) left
    let checkedRight := groupTreeRoot (← view) right
    if checkedLeft = leftRoot ∧ checkedRight = rightRoot then pure ()
    else lockGroupTreesLoop left right n

def lockGroupTrees (left right : Uuid) : Program Unit := do
  let n ← call fun n _ => (n, ())
  lockGroupTreesLoop hash left right n

/-- Both owner-kind locks, in the order of the ids. -/
def lockOwnerKinds (left right : Uuid) : Program Unit := do
  lockName hash (.ownerKind (min left right))
  lockName hash (.ownerKind (max left right))

/-! ### BEFORE ROW triggers -/

/-- `group_edge_before_write` on DELETE. -/
def groupEdgeBeforeDelete (child : Uuid) : Program Unit := do
  lockGroupTree hash child
  lockName hash (.ownerKind child)

/-- `group_edge_before_write` on INSERT (`old = none`) and UPDATE. -/
def groupEdgeBeforeWrite (old : Option (Uuid × Uuid)) (child parent : Uuid) : Program Unit := do
  failIf (old.any (· ≠ (child, parent))) .edgeIdentityImmutable
  lockGroupTrees hash child parent
  lockOwnerKinds hash child parent
  failIf (child = parent) .containsItself
  let v ← view
  failIf (child ∈ ancestors v parent) .wouldCreateCycle

/-- `group_membership_before_write` on DELETE. -/
def groupMembershipBeforeDelete (group member : Uuid) : Program Unit := do
  lockGroupTree hash group
  lockName hash (.ownerKind member)

/-- `group_membership_before_write` on INSERT (`old = none`) and UPDATE. -/
def groupMembershipBeforeWrite (old : Option (Uuid × Uuid)) (group member : Uuid) :
    Program Unit := do
  lockGroupTree hash group
  failIf (old.any (· ≠ (group, member))) .membershipIdentityImmutable
  lockName hash (.ownerKind member)
  let v ← view
  failIf (get v (.owner member) = some .group) (.ownerIsGroup member)

/-- `owner_group_kind_guard` on INSERT. A personal registration takes no lock. -/
def ownerGroupKindGuard (owner : Uuid) : OwnerKind → Program Unit
  | .personal => pure ()
  | .group => do
    lockGroupTree hash owner
    lockName hash (.ownerKind owner)
    let v ← view
    if (get v (.owner owner)).isNone then do
      let v ← view
      failIf ((memberships v).any fun (_, member, _) => member = owner) (.ownerHasMemberships owner)
    else pure ()

/-! ### AFTER ROW triggers -/

/-- DELETE of all projection rows of the user. -/
def deleteProjected (user : Uuid) : Program Unit := do
  let v ← view
  (projected v user).forM fun group => do
    match ← lockedRow (.projection user group) with
    | none => pure ()
    | some _ => write [⟨.projection user group, none⟩]

/-- One row of the INSERT: the ranks become ceilings, and the table checks the role. -/
def insertFolded (user : Uuid) (row : PathRow) : Program Unit :=
  match AccessCeiling.ofIndex (row.readRank + 1), AccessCeiling.ofIndex (row.writeRank + 1) with
  | some read, some write =>
    match Role.new read write row.manages with
    | .ok role => do
      let _ ← insertInto (.projection user row.group) role false
    | .error _ => fail (.roleCheckViolation user row.group)
  | _, _ => fail (.roleCheckViolation user row.group)

/-- One user of `rebuild_group_role_projection`. -/
def rebuildUser (user : Uuid) : Program Unit := do
  lockName hash (.groupProjection user)
  deleteProjected user
  let v ← view
  (folded v user).forM (insertFolded user)

def rebuildGroupRoleProjection (users : List Uuid) : Program Unit :=
  (users.dedup.insertionSort (· ≤ ·)).forM (rebuildUser hash)

/-- A changed row, as its AFTER trigger sees it. -/
inductive Event where
  | edge (child : Uuid)
  | membership (member : Uuid)
  deriving DecidableEq

/-- `group_projection_after_write`. -/
def groupProjectionAfterWrite : Event → Program Unit
  | .membership member => rebuildGroupRoleProjection hash [member]
  | .edge child => do
    let users := affectedUsers (← view) child
    if users ≠ [] then rebuildGroupRoleProjection hash users else pure ()

/-! ### Statements -/

/-- One row of a statement. An UPDATE or DELETE rechecks its condition on the row it has
locked; `set` gives the new key and row, or `none` when the condition no longer holds. -/
inductive RowChange where
  | insertEdge (child : Uuid) (edge : Edge) (onConflictDoNothing : Bool)
  | updateEdge (child : Uuid) (set : Edge → Option (Uuid × Edge))
  | deleteEdge (child : Uuid) (condition : Edge → Bool)
  | insertMembership (group member : Uuid) (relation : Relation) (onConflictDoNothing : Bool)
  | updateMembership (group member : Uuid) (relation : Relation)
      (newGroup newMember : Uuid) (newRelation : Relation)
  | deleteMembership (group member : Uuid) (relation : Relation)
  | insertOwner (owner : Uuid) (kind : OwnerKind)

/-- Run one row change; the event of the row when it was changed. -/
def changeRow : RowChange → Program (Option Event)
  | .insertEdge child e doNothing => do
    groupEdgeBeforeWrite hash none child e.parent
    let inserted ← insertInto (.edge child) e doNothing
    pure (if inserted then some (.edge child) else none)
  | .updateEdge child set => do
    match ← lockedRow (.edge child) with
    | none => pure none
    | some old =>
      match set old with
      | none => pure none
      | some (newChild, new) => do
        groupEdgeBeforeWrite hash (some (child, old.parent)) newChild new.parent
        write [⟨.edge child, some new⟩]
        pure (some (.edge child))
  | .deleteEdge child condition => do
    match ← lockedRow (.edge child) with
    | none => pure none
    | some old =>
      if condition old then do
        groupEdgeBeforeDelete hash child
        write [⟨.edge child, none⟩]
        pure (some (.edge child))
      else pure none
  | .insertMembership group member relation doNothing => do
    groupMembershipBeforeWrite hash none group member
    let inserted ← insertInto (.membership group member relation) () doNothing
    pure (if inserted then some (.membership member) else none)
  | .updateMembership group member relation newGroup newMember newRelation => do
    match ← lockedRow (.membership group member relation) with
    | none => pure none
    | some _ => do
      groupMembershipBeforeWrite hash (some (group, member)) newGroup newMember
      write [⟨.membership group member relation, none⟩]
      let _ ← insertInto (.membership group member newRelation) () false
      pure (some (.membership member))
  | .deleteMembership group member relation => do
    match ← lockedRow (.membership group member relation) with
    | none => pure none
    | some _ => do
      groupMembershipBeforeDelete hash group member
      write [⟨.membership group member relation, none⟩]
      pure (some (.membership member))
  | .insertOwner owner kind => do
    ownerGroupKindGuard hash owner kind
    let _ ← insertInto (.owner owner) kind true
    pure none

/-- The rows of a statement in turn; the events of those that changed. -/
def changeRows : List RowChange → Program (List Event)
  | [] => pure []
  | c :: cs => do
    let e ← changeRow hash c
    let es ← changeRows cs
    pure (e.toList ++ es)

inductive Statement where
  | change (rows : Tables → List RowChange)
  /-- `group_lock_request`: the writer's own call of the tree locks. -/
  | lockRequest (left : Uuid) (right : Option Uuid)
  /-- `lock_authority_targets`. -/
  | lockAuthority (owners subjects : List Uuid)

def runStatement : Statement → Program Unit
  | .change rows => do
    let changes := rows (← view)
    let events ← changeRows hash changes
    events.forM (groupProjectionAfterWrite hash)
  | .lockRequest left none => lockGroupTree hash left
  | .lockRequest left (some right) => do
    lockGroupTrees hash left right
    lockOwnerKinds hash left right
  | .lockAuthority owners subjects => do
    (owners.dedup.insertionSort (· ≤ ·)).forM fun owner => lockName hash (.ownerKind owner)
    (subjects.dedup.insertionSort (· ≤ ·)).forM fun user => lockName hash (.groupProjection user)

def runStatements (statements : List Statement) : Program Unit :=
  statements.forM (runStatement hash)

/-- The group tables with any number of writers. -/
def system : System Row Lock Error ℕ Unit (List Statement) Unit where
  conflict l l' := l = l'
  symm l l' := by simp [eq_comm]
  rowLock := .row
  row_conflict k := by simp
  body := runStatements hash

end Triggers

end Proxiima.Groups
