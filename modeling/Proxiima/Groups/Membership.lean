import Proxiima.Authz.Builders
import Proxiima.Groups.Writes
import Proxiima.ReadCommitted.Embed

/-!
# Membership commands

A caller adds, removes or replaces memberships of a group. The engine decides on the
caller's context before the transaction starts; storage then works under the owner scope of
that context, so a statement sees and changes only the rows that the row policies show it,
and takes the tree lock first. Removals and replacements go through
`manager_preserving_change`, which looks for a manager before and after the change.
-/

namespace Proxiima.Groups

open ReadCommitted Prog Authz

inductive MembershipError where
  | database (e : Error)
  | rowSecurity (table : String)
  | forbidden (text : String)
  | conflict (text : String)
  | constraintViolation (text : String)
  | invalidArgument (field text : String)
  /-- A hook or the owner resolver of the host refused. -/
  | refusedByHost
  deriving DecidableEq

abbrev MemberProgram := Prog Row Lock MembershipError ℕ Unit

/-! ### The caller -/

inductive MembershipChange where
  | add | remove
  deriving DecidableEq

inductive AuthzOperation where
  | ownerAdmin
  | membership (change : MembershipChange) (group member : Uuid) (relation : Relation)
  deriving DecidableEq

/-- What the host registered: its owner resolver, its vetoes, and whether the context
carries this engine's system authority. -/
structure Hooks where
  carriesSystemAuthority : Bool
  resolveOwner : Uuid → Option Uuid
  permits : AuthzOperation → Bool

/-- A call of the engine: a context that was built earlier, and the time it is used. -/
structure Call where
  authz : AuthzContext
  built : Built authz
  now : ℕ
  hooks : Hooks

inductive MembershipMemberAuthority where
  | callerManagesMember | callerDoesNotManageMember
  deriving DecidableEq

inductive MembershipEndpointAuthority where
  | parent | member
  deriving DecidableEq

structure MembershipWritePermit where
  owner : Uuid
  parent : Uuid
  memberAuthority : MembershipMemberAuthority
  endpointAuthority : MembershipEndpointAuthority
  caller : Option Uuid
  deriving DecidableEq

namespace Call

variable (c : Call)

/-- `gate` with `AuthzOperation::OwnerAdmin`: the owner the permit is for. -/
def authorizeOwnerAdmin (owner : Uuid) : MemberProgram Uuid := do
  failIf (c.authz.authPath = .delegated)
    (.forbidden "raw delegated authorization contexts are not Engine authority")
  failIf (c.authz.authPath = .system ∧ c.hooks.carriesSystemAuthority = false)
    (.forbidden "System write authority requires a context from AuthzContext::for_system")
  failIf (c.authz.authPath = .denied) (.forbidden "denied context authorizes nothing")
  match c.hooks.resolveOwner owner with
  | none => fail .refusedByHost
  | some resolved => do
    failIf ((c.authz.roleForOwner resolved).any Role.administers = false)
      (.forbidden "requires admin on this owner")
    failIf (c.hooks.permits .ownerAdmin = false) .refusedByHost
    pure resolved

def requireGroupManage (group : Uuid) : MemberProgram Unit :=
  failIf (c.authz.mayManage group = false) (.forbidden "requires manage on this owner")

def authorizeMembershipDetach (parent member : Uuid) :
    MemberProgram (Uuid × MembershipEndpointAuthority) :=
  if c.authz.mayManage parent = true then do
    let owner ← c.authorizeOwnerAdmin parent
    pure (owner, .parent)
  else if c.authz.mayManage member = true then do
    let owner ← c.authorizeOwnerAdmin member
    pure (owner, .member)
  else fail (.forbidden "requires manage on the parent or attached group")

def vetoAndObserve (operation : AuthzOperation) : MemberProgram Unit :=
  failIf (c.hooks.permits operation = false) .refusedByHost

def memberManageAuthority (member : Uuid) : MembershipMemberAuthority :=
  if c.authz.mayManage member = true then .callerManagesMember else .callerDoesNotManageMember

/-- A removal or demotion on parent authority names its caller. -/
def withParentCaller (permit : MembershipWritePermit) : MembershipWritePermit :=
  match permit.endpointAuthority, c.authz.identity.subject with
  | .parent, some caller => { permit with caller := some caller }
  | _, _ => permit

end Call

/-! ### The owner scope of a transaction -/

/-- The settings `app.owner` and `app.manage_owner`. -/
structure OwnerSettings where
  owner : List Uuid
  manageOwner : List Uuid

namespace OwnerSettings

variable (s : OwnerSettings)

/-- The policies of `group_memberships` and `group_role_projection` show a group's rows. -/
def readsGroup (group : Uuid) : Bool := group ∈ s.owner ∨ group ∈ s.manageOwner

def writesGroup (group : Uuid) : Bool := group ∈ s.manageOwner

def readsEdge (child parent : Uuid) : Bool :=
  child ∈ s.owner ∨ parent ∈ s.owner ∨ parent ∈ s.manageOwner ∨ child ∈ s.manageOwner

/-- USING of the write policy of `group_edges`. -/
def writesEdge (child parent : Uuid) : Bool := parent ∈ s.manageOwner ∨ child ∈ s.manageOwner

/-- WITH CHECK of the write policy of `group_edges`. -/
def checksEdge (child parent : Uuid) : Bool := parent ∈ s.manageOwner ∧ child ∈ s.manageOwner

end OwnerSettings

def OwnerSettings.bind (scope : OwnerScope) (now : ℕ) : OwnerSettings :=
  ⟨scope.readableOwners now .fact, scope.managedOwners now⟩

def Call.beginOwnerTransaction (c : Call) : MemberProgram OwnerSettings :=
  match c.authz.scope with
  | none => fail
    (.constraintViolation "authenticated OwnerScope is required for owner-scoped storage")
  | some scope => do
    failIf (scope.isExpired c.now = true)
      (.constraintViolation "authenticated owner scope has expired")
    pure (.bind scope c.now)

/-! ### Storage -/

/-- The users with a managing role on the group. -/
def managers (v : Tables) (group : Uuid) : List Uuid :=
  (live v).filterMap fun
    | .projection user g =>
      if g = group ∧ (get v (.projection user g)).any Role.manage = true then some user else none
    | _ => none

section Storage

variable (hash : LockName → ℕ) (s : OwnerSettings)

/-- The row changes of one statement with their triggers; how many rows were changed. -/
def changeCounted (rows : List RowChange) : Program ℕ := do
  let events ← changeRows hash rows
  events.forM (groupProjectionAfterWrite hash)
  pure events.length

def execute (rows : Tables → List RowChange) : MemberProgram ℕ := do
  let v ← view
  (changeCounted hash (rows v)).mapError .database

def lockGroupMembershipWriteTx (group member : Uuid) : MemberProgram Bool := do
  (runStatement hash (.lockRequest group (some member))).mapError .database
  let v ← view
  failIf (¬ (group ∈ s.manageOwner ∨ member ∈ s.manageOwner)) (.rowSecurity "group_lock_request")
  pure (get v (.owner member) = some .group)

def groupHasManager (group : Uuid) : MemberProgram Bool := do
  let v ← view
  pure (s.readsGroup group && managers v group ≠ [])

def recheckCallerManages (group : Uuid) : Option Uuid → MemberProgram Unit
  | none => pure ()
  | some caller => do
    let v ← view
    failIf (¬ (s.readsGroup group = true ∧ caller ∈ managers v group))
      (.forbidden "the caller no longer manages this group")

def managerPreservingChange (group member : Uuid) (caller : Option Uuid)
    (change : MemberProgram Unit) : MemberProgram Unit := do
  let _ ← lockGroupMembershipWriteTx hash s group member
  let hadManager ← groupHasManager s group
  if hadManager then recheckCallerManages s group caller else pure ()
  change
  if hadManager then do
    let hasManager ← groupHasManager s group
    failIf (hasManager = false) (.conflict "the change would leave the group without a manager")
  else pure ()

/-! ### Statements on one member -/

/-- The edge of the member into the group, where the policies show it and let it go. -/
def edgeMatches (group member : Uuid) (relation : Option Relation) (e : Edge) : Bool :=
  e.parent = group ∧ relation.all (· = e.relation) ∧ s.readsEdge member e.parent ∧
    s.writesEdge member e.parent

def matchingEdge (group member : Uuid) (relation : Option Relation) (v : Tables) : Option Edge :=
  (edgeOf v member).filter (edgeMatches s group member relation)

def deleteEdges (group member : Uuid) (relation : Option Relation) : Tables → List RowChange :=
  fun v => ((matchingEdge s group member relation v).map fun _ =>
    .deleteEdge member (edgeMatches s group member relation)).toList

def updateEdges (group member : Uuid) (old new : Relation) : Tables → List RowChange :=
  fun v => ((matchingEdge s group member (some old) v).map fun _ =>
    .updateEdge member fun e =>
      if edgeMatches s group member (some old) e then some (member, { e with relation := new })
      else none).toList

def deleteMemberships (group member : Uuid) (relation : Option Relation) :
    Tables → List RowChange :=
  fun v => if s.readsGroup group ∧ s.writesGroup group then
    (memberships v).filterMap fun (g, m, r) =>
      if g = group ∧ m = member ∧ relation.all (· = r) then some (.deleteMembership group member r)
      else none
    else []

/-- The body that removing a member and removing one relation share. -/
def detachAuthorized (group member : Uuid) (relation : Option Relation)
    (memberAuthority : MembershipMemberAuthority)
    (endpointAuthority : MembershipEndpointAuthority) : MemberProgram Unit := do
  let memberIsGroup ← lockGroupMembershipWriteTx hash s group member
  failIf (memberIsGroup = true ∧ endpointAuthority = .member ∧
      memberAuthority ≠ .callerManagesMember)
    (.forbidden "detaching a group requires manage authority on the attached group")
  failIf (memberIsGroup = false ∧ endpointAuthority = .member)
    (.forbidden "detaching a person requires parent authority")
  let _ ← execute hash (if memberIsGroup then deleteEdges s group member relation
    else deleteMemberships s group member relation)

def removeGroupMemberAuthorized (group member : Uuid)
    (memberAuthority : MembershipMemberAuthority)
    (endpointAuthority : MembershipEndpointAuthority) : MemberProgram Unit :=
  detachAuthorized hash s group member none memberAuthority endpointAuthority

def removeGroupMemberRelationAuthorized (group member : Uuid) (relation : Relation)
    (memberAuthority : MembershipMemberAuthority)
    (endpointAuthority : MembershipEndpointAuthority) : MemberProgram Unit :=
  detachAuthorized hash s group member (some relation) memberAuthority endpointAuthority

def notHeld : MembershipError := .conflict "member does not hold the relation being replaced"

def insertMembership (group member : Uuid) (relation : Relation) : MemberProgram ℕ := do
  failIf (s.writesGroup group = false) (.rowSecurity "group_memberships")
  execute hash fun _ => [.insertMembership group member relation true]

def replaceGroupMemberRelation (group member : Uuid) (old new : Relation) :
    MemberProgram Unit := do
  let memberIsGroup ← lockGroupMembershipWriteTx hash s group member
  if memberIsGroup then do
    let updated ← execute hash (updateEdges s group member old new)
    failIf (updated ≠ 0 ∧ s.checksEdge member group = false) (.rowSecurity "group_edges")
    failIf (updated = 0) notHeld
  else do
    let deleted ← execute hash (deleteMemberships s group member (some old))
    failIf (deleted = 0) notHeld
    let _ ← insertMembership hash s group member new

def alreadyAttached : MembershipError := .conflict "group is already attached to a parent"

def addGroupMemberAuthorized (group member : Uuid) (relation : Relation)
    (memberAuthority : MembershipMemberAuthority) : MemberProgram Unit := do
  let memberIsGroup ← lockGroupMembershipWriteTx hash s group member
  let _ ← execute hash fun _ => [.insertOwner group .group]
  if memberIsGroup then do
    failIf (memberAuthority ≠ .callerManagesMember)
      (.forbidden "attaching a group requires manage authority on the attached group")
    let v ← view
    match (edgeOf v member).filter fun e => s.readsEdge member e.parent with
    | some e => if e = ⟨group, relation⟩ then pure () else fail alreadyAttached
    | none => do
      failIf (s.checksEdge member group = false) (.rowSecurity "group_edges")
      let inserted ← execute hash fun _ => [.insertEdge member ⟨group, relation⟩ true]
      failIf (inserted = 0) alreadyAttached
  else do
    let _ ← insertMembership hash s group member relation

end Storage

/-! ### The storage port -/

def requestOwner : MembershipError :=
  .constraintViolation "request owner does not match owner write permit"

def permitParent : MembershipError :=
  .constraintViolation "membership permit parent does not match the requested group"

def validateMembershipPermit (p : MembershipWritePermit) (group member : Uuid) :
    MemberProgram Unit := do
  match p.endpointAuthority with
  | .parent => failIf (p.owner ≠ group) requestOwner
  | .member =>
    failIf (p.memberAuthority ≠ .callerManagesMember ∨ p.owner ≠ member)
      (.forbidden "membership permit does not authorize the attached owner")
  failIf (p.parent ≠ group) permitParent

def validateParentMembershipPermit (p : MembershipWritePermit) (group : Uuid) :
    MemberProgram Unit := do
  failIf (p.endpointAuthority ≠ .parent)
    (.constraintViolation "this membership operation requires parent authority")
  failIf (p.owner ≠ group) requestOwner
  failIf (p.parent ≠ group) permitParent

/-! ### Engine verbs -/

section Engine

variable (hash : LockName → ℕ) (c : Call)

def addMember (group member : Uuid) (relation : Relation) : MemberProgram Unit := do
  let owner ← c.authorizeOwnerAdmin group
  c.requireGroupManage group
  c.vetoAndObserve (.membership .add group member relation)
  let permit : MembershipWritePermit :=
    ⟨owner, group, c.memberManageAuthority member, .parent, none⟩
  validateParentMembershipPermit permit group
  let s ← c.beginOwnerTransaction
  addGroupMemberAuthorized hash s group member relation permit.memberAuthority

/-- The relations of the member that `list_group_members` shows. -/
def listedRelations (s : OwnerSettings) (v : Tables) (group member : Uuid) : List Relation :=
  ((memberships v).filterMap fun (g, m, r) =>
    if g = group ∧ m = member ∧ s.readsGroup group then some r else none) ++
  (((edgeOf v member).filter fun e => e.parent = group ∧ s.readsEdge member e.parent).map
    Edge.relation).toList

def removeMember (group member : Uuid) : MemberProgram Unit := do
  let (owner, endpoint) ← c.authorizeMembershipDetach group member
  let s ← c.beginOwnerTransaction
  let v ← view
  (listedRelations s v group member).forM fun relation =>
    c.vetoAndObserve (.membership .remove group member relation)
  let permit := c.withParentCaller
    ⟨owner, group, c.memberManageAuthority member, endpoint, none⟩
  validateMembershipPermit permit group member
  let s ← c.beginOwnerTransaction
  managerPreservingChange hash s group member permit.caller
    (removeGroupMemberAuthorized hash s group member permit.memberAuthority
      permit.endpointAuthority)

def removeMemberRelation (group member : Uuid) (relation : Relation) : MemberProgram Unit := do
  let (owner, endpoint) ← c.authorizeMembershipDetach group member
  c.vetoAndObserve (.membership .remove group member relation)
  let permit := c.withParentCaller
    ⟨owner, group, c.memberManageAuthority member, endpoint, none⟩
  validateMembershipPermit permit group member
  let s ← c.beginOwnerTransaction
  managerPreservingChange hash s group member permit.caller
    (removeGroupMemberRelationAuthorized hash s group member relation permit.memberAuthority
      permit.endpointAuthority)

def replaceMemberRelation (group member : Uuid) (old new : Relation) : MemberProgram Unit := do
  let owner ← c.authorizeOwnerAdmin group
  c.requireGroupManage group
  failIf (old = new) (.invalidArgument "to" "must differ from the relation being replaced")
  c.vetoAndObserve (.membership .remove group member old)
  c.vetoAndObserve (.membership .add group member new)
  let permit := c.withParentCaller
    ⟨owner, group, c.memberManageAuthority member, .parent, none⟩
  validateParentMembershipPermit permit group
  let s ← c.beginOwnerTransaction
  managerPreservingChange hash s group member permit.caller
    (replaceGroupMemberRelation hash s group member old new)

end Engine

/-! ### The system -/

/-- A caller's command; `host` is a transaction of the platform itself. -/
inductive Command where
  | host (statements : List Statement)
  | addMember (c : Call) (group member : Uuid) (relation : Relation)
  | removeMember (c : Call) (group member : Uuid)
  | removeMemberRelation (c : Call) (group member : Uuid) (relation : Relation)
  | replaceMemberRelation (c : Call) (group member : Uuid) (old new : Relation)

def Command.run (hash : LockName → ℕ) : Command → MemberProgram Unit
  | host statements => (runStatements hash statements).mapError .database
  | addMember c group member relation => Groups.addMember hash c group member relation
  | removeMember c group member => Groups.removeMember hash c group member
  | removeMemberRelation c group member relation =>
    Groups.removeMemberRelation hash c group member relation
  | replaceMemberRelation c group member old new =>
    Groups.replaceMemberRelation hash c group member old new

/-- The group tables with any number of callers beside the platform's own writers. -/
def membershipSystem (hash : LockName → ℕ) :
    System Row Lock MembershipError ℕ Unit Command Unit where
  conflict := (system hash).conflict
  symm := (system hash).symm
  rowLock := (system hash).rowLock
  row_conflict := (system hash).row_conflict
  body := Command.run hash

end Proxiima.Groups
