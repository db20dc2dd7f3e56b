import Mathlib.Data.List.Sort
import Proxiima.Authz.ScopeKeys

/-!
# Authorization contexts

The roles a subject holds, the sealed scope made of them, and the context that carries both
next to the identity and the capabilities of a request. Contexts are made by two
constructors and changed by builders that may refuse. What a builder asks of the host (a
policy, a registry, the time) is an argument.
-/

namespace Proxiima.Authz

/-! ### Roles per owner -/

/-- The roles of a subject, one for each owner. -/
structure OwnerRoles where
  subject : Uuid
  roles : List (Uuid × Role)
  nodup : (roles.map Prod.fst).Nodup
  deriving DecidableEq

namespace OwnerRoles

def withoutAccess (subject : Uuid) : OwnerRoles := ⟨subject, [], List.nodup_nil⟩

def scopedTo (subject owner : Uuid) (role : Role) : OwnerRoles :=
  ⟨subject, [(owner, role)], by simp⟩

/-- The group's role replaced by `role`; the subject's own id is left alone. -/
def withGroupRole (r : OwnerRoles) (group : Uuid) (role : Role) : OwnerRoles :=
  if group = r.subject then r
  else
    { r with
      roles := (group, role) :: r.roles.filter fun p => p.1 ≠ group
      nodup := by
        simp only [List.map_cons, List.nodup_cons, List.mem_map, List.mem_filter]
        refine ⟨by simp, r.nodup.sublist ((List.filter_sublist).map _)⟩ }

def roleFor (r : OwnerRoles) (owner : Uuid) : Option Role := r.roles.lookup owner

def isOwn (r : OwnerRoles) (owner : Uuid) : Bool := owner = r.subject

def mayRead (r : OwnerRoles) (owner : Uuid) (kind : AccessKind) : Bool :=
  (r.roleFor owner).any fun role => role.mayRead kind

def mayWrite (r : OwnerRoles) (owner : Uuid) (kind : AccessKind) : Bool :=
  (r.roleFor owner).any fun role => role.mayWrite kind

def mayManage (r : OwnerRoles) (owner : Uuid) : Bool :=
  !r.isOwn owner && (r.roleFor owner).any Role.manage

/-- The subject's own id first, then by id. -/
def before (r : OwnerRoles) (a b : Uuid) : Prop :=
  r.isOwn b ≤ r.isOwn a ∧ (r.isOwn a = r.isOwn b → a ≤ b)

instance (r : OwnerRoles) : DecidableRel r.before := fun _ _ =>
  inferInstanceAs (Decidable (_ ∧ (_ → _)))

def ordered (r : OwnerRoles) (keep : Role → Bool) : List Uuid :=
  ((r.roles.filter fun p => keep p.2).map Prod.fst).insertionSort r.before

def readableOwners (r : OwnerRoles) (kind : AccessKind) : List Uuid :=
  r.ordered fun role => role.mayRead kind

variable {owner : Uuid}

lemma roleFor_iff {r : OwnerRoles} {role : Role} :
    r.roleFor owner = some role ↔ (owner, role) ∈ r.roles := by
  obtain ⟨subject, roles, hnodup⟩ := r
  simp only [roleFor]
  induction roles with
  | nil => simp
  | cons p rest ih =>
    obtain ⟨o, x⟩ := p
    simp only [List.map_cons, List.nodup_cons] at hnodup
    by_cases h : owner = o
    · subst h
      simp only [List.lookup_cons_self, Option.some.injEq, List.mem_cons, Prod.mk.injEq, true_and]
      refine ⟨fun hx => .inl hx.symm, fun hx => hx.elim Eq.symm fun hmem => ?_⟩
      exact absurd (List.mem_map_of_mem hmem) hnodup.1
    · rw [List.lookup_cons, beq_false_of_ne h]
      simp only [List.mem_cons, Prod.mk.injEq, h, false_and, false_or]
      exact ih hnodup.2

lemma mem_readableOwners {r : OwnerRoles} {kind : AccessKind} :
    owner ∈ r.readableOwners kind ↔
      ∃ role, r.roleFor owner = some role ∧ role.mayRead kind = true := by
  simp only [readableOwners, ordered, List.mem_insertionSort, List.mem_map, List.mem_filter,
    roleFor_iff]
  constructor
  · rintro ⟨⟨o, role⟩, ⟨hmem, hread⟩, rfl⟩
    exact ⟨role, hmem, hread⟩
  · rintro ⟨role, hmem, hread⟩
    exact ⟨(owner, role), ⟨hmem, hread⟩, rfl⟩

@[simp] lemma subject_withGroupRole (r : OwnerRoles) (group : Uuid) (role : Role) :
    (r.withGroupRole group role).subject = r.subject := by
  unfold withGroupRole
  split <;> rfl

lemma roleFor_scopedTo {subject o : Uuid} {role x : Role} :
    (scopedTo subject owner role).roleFor o = some x ↔ o = owner ∧ x = role := by
  simp [roleFor_iff, scopedTo]

end OwnerRoles

/-! ### Sealed scopes -/

structure WriterAttribution where
  by_ : Uuid
  via : Option Uuid
  deriving DecidableEq

structure GoalPrincipalScope where
  subject : Uuid
  deriving DecidableEq

/-- `OwnerScope`: sealed from verified roles, possibly narrowed to one owner. -/
structure OwnerScope where
  roles : OwnerRoles
  writer : WriterAttribution
  expiresAt : Option ℕ
  selected : Option Uuid
  goalPrincipal : Option GoalPrincipalScope
  deriving DecidableEq

namespace OwnerScope

def fromVerifiedRoles (roles : OwnerRoles) (expiresAt : Option ℕ) (writer : WriterAttribution) :
    OwnerScope :=
  ⟨roles, writer, expiresAt, none, none⟩

def isExpired (s : OwnerScope) (now : ℕ) : Bool := s.expiresAt.any (· ≤ now)

def addGroupRole (s : OwnerScope) (now : ℕ) (group : Uuid) (role : Role) : Option OwnerScope :=
  if s.selected.isSome || s.isExpired now then none
  else some { s with roles := s.roles.withGroupRole group role, selected := none }

def narrow (s : OwnerScope) (owner : Uuid) : Option OwnerScope :=
  (s.roles.roleFor owner).map fun role =>
    { s with
      roles := .scopedTo s.roles.subject owner role
      selected := some owner
      goalPrincipal := none }

def withGoalPrincipal (s : OwnerScope) (principal : GoalPrincipalScope) : OwnerScope :=
  if s.selected.isNone then { s with goalPrincipal := some principal } else s

def readableOwners (s : OwnerScope) (now : ℕ) (kind : AccessKind) : List Uuid :=
  if s.isExpired now then [] else s.roles.readableOwners kind

def managedOwners (s : OwnerScope) (now : ℕ) : List Uuid :=
  (s.readableOwners now .fact).filter fun owner => (s.roles.roleFor owner).any Role.manage

end OwnerScope

inductive OwnerScopeState where
  | unsealed (confinedTo : Option Uuid)
  | sealed (scope : OwnerScope)
  deriving DecidableEq

def OwnerScopeState.confinedTo : OwnerScopeState → Option Uuid
  | unsealed confinedTo => confinedTo
  | sealed scope => scope.selected

def OwnerScopeState.narrow : OwnerScopeState → Uuid → Option OwnerScopeState
  | unsealed _, owner => some (unsealed (some owner))
  | sealed scope, owner => (scope.narrow owner).map sealed

/-! ### Contexts -/

inductive AuthPath where
  | hostBearer | delegated | system | denied
  deriving DecidableEq

structure Identity where
  subject : Option Uuid
  writer : Option WriterAttribution
  principal : Uuid
  accessiblePrincipals : List Uuid
  expiresAt : Option ℕ
  authEpoch : ℕ
  trustedModelId : Option (List Char)
  deriving DecidableEq

structure AuthzContext where
  identity : Identity
  capabilities : CapabilitySet
  authPath : AuthPath
  ownerRoles : Option OwnerRoles
  ownerScope : OwnerScopeState
  forwardedOwner : Option Uuid
  defaultOwner : Option Uuid
  deriving DecidableEq

inductive AuthError where
  | invalidCredentials
  deriving DecidableEq

/-- The ceilings a forwarding policy may give. -/
inductive ForwarderRole where
  | viewer | ingest | editor
  deriving DecidableEq

def ForwarderRole.role : ForwarderRole → Role
  | viewer => .viewer
  | ingest => .ingest
  | editor => .editor

/-- What the host answers; `none` for a failed lookup. -/
structure OwnerAccessPort where
  isForwarder : Uuid → Option Bool
  resolveForwardedOwnerRole : Uuid → Uuid → Option (Option ForwarderRole)
  resolveGroupRole : Uuid → Uuid → Option (Option Role)

namespace AuthzContext

/-- `owner_scope()`. -/
def scope (c : AuthzContext) : Option OwnerScope :=
  match c.ownerScope with
  | .sealed scope => some scope
  | .unsealed _ => none

def roleForOwner (c : AuthzContext) (owner : Uuid) : Option Role :=
  c.ownerRoles.bind fun roles => roles.roleFor owner

def mayRead (c : AuthzContext) (owner : Uuid) (kind : AccessKind) : Bool :=
  c.ownerRoles.any fun roles => roles.mayRead owner kind

def mayWrite (c : AuthzContext) (owner : Uuid) (kind : AccessKind) : Bool :=
  c.ownerRoles.any fun roles => roles.mayWrite owner kind

def mayManage (c : AuthzContext) (owner : Uuid) : Bool :=
  c.ownerRoles.any fun roles => roles.mayManage owner

/-- Roles, and the accessible principals they make. -/
def withRoles (c : AuthzContext) (roles : OwnerRoles) : AuthzContext :=
  { c with
    ownerRoles := some roles
    identity := { c.identity with accessiblePrincipals := roles.readableOwners .fact } }

def serverResolvedWithWriter (roles : OwnerRoles) (authPath : AuthPath)
    (writer : WriterAttribution) : AuthzContext where
  identity :=
    { subject := some roles.subject
      writer := if authPath = .denied then none else some writer
      principal := roles.subject
      accessiblePrincipals := roles.readableOwners .fact
      expiresAt := none
      authEpoch := 0
      trustedModelId := none }
  capabilities := .all
  authPath := authPath
  ownerRoles := some roles
  ownerScope := .unsealed none
  forwardedOwner := none
  defaultOwner := none

def fromVerifiedForwardedOwner (subject owner : Uuid) (writer : WriterAttribution) :
    AuthzContext :=
  { serverResolvedWithWriter (.withoutAccess subject) .hostBearer writer with
    forwardedOwner := some owner }

def sealVerifiedScope (c : AuthzContext) : Except AuthError AuthzContext :=
  match c.ownerRoles, c.identity.writer with
  | some roles, some writer =>
    let scope := OwnerScope.fromVerifiedRoles roles c.identity.expiresAt writer
    let scope :=
      if c.authPath = .hostBearer ∧ c.forwardedOwner = none ∧ c.ownerScope.confinedTo = none then
        scope.withGoalPrincipal ⟨scope.roles.subject⟩
      else scope
    match c.ownerScope.confinedTo with
    | none => .ok { c with ownerScope := .sealed scope }
    | some owner =>
      match scope.narrow owner with
      | some scope => .ok { c with ownerScope := .sealed scope }
      | none => .error .invalidCredentials
  | _, _ => .error .invalidCredentials

def narrowedToOwner (c : AuthzContext) (owner : Uuid) : Option AuthzContext := do
  let roles ← c.ownerRoles
  let role ← roles.roleFor owner
  let ownerScope ← c.ownerScope.narrow owner
  some { c.withRoles (.scopedTo roles.subject owner role) with
    ownerScope := ownerScope, defaultOwner := none }

def earliest : Option ℕ → Option ℕ → Option ℕ
  | some a, some b => some (min a b)
  | some a, none => some a
  | none, b => b

def withAuthenticatedForwardedOwner (c : AuthzContext) (port : OwnerAccessPort) (now : ℕ)
    (owner : Uuid) : Option AuthzContext := do
  let scope ← c.scope
  let expiresAt := earliest c.identity.expiresAt scope.expiresAt
  if c.forwardedOwner ≠ some owner || expiresAt.any (· ≤ now) then none
  else
    let subject ← c.identity.subject
    if !(← port.isForwarder subject) then none
    else
      let role ← (← port.resolveForwardedOwnerRole subject owner)
      let roles := OwnerRoles.scopedTo subject owner role.role
      let next := c.withRoles roles
      { next with
        identity := { next.identity with expiresAt := expiresAt }
        ownerScope := .sealed (.fromVerifiedRoles roles expiresAt scope.writer) }.narrowedToOwner
          owner

def withServedSurface (c : AuthzContext) (surface : ServedSurface) : AuthzContext :=
  { c with
    capabilities := { c.capabilities with
      servedSurface :=
        match c.capabilities.servedSurface with
        | .all => surface
        | .palette keys => (ServedSurface.palette keys).intersect surface } }

def withDefaultOwner (c : AuthzContext) (owner : Uuid) : Option AuthzContext :=
  (c.roleForOwner owner).map fun _ => { c with defaultOwner := some owner }

def withHostResolvedRole (c : AuthzContext) (group : Uuid) (role : Role) : Option AuthzContext :=
  if c.ownerScope ≠ .unsealed none ∨ c.forwardedOwner ≠ none then none
  else c.ownerRoles.map fun roles => c.withRoles (roles.withGroupRole group role)

def withAuthenticatedGroupRole (c : AuthzContext) (port : OwnerAccessPort) (now : ℕ)
    (group : Uuid) : Option AuthzContext :=
  if c.forwardedOwner.isSome then none
  else do
    let scope ← c.scope
    if scope.isExpired now then none
    else
      let subject ← c.identity.subject
      let role ← (← port.resolveGroupRole subject group)
      let scope ← scope.addGroupRole now group role
      let roles ← c.ownerRoles
      some { c.withRoles (roles.withGroupRole group role) with ownerScope := .sealed scope }

def withExpiresAt (c : AuthzContext) (expiresAt : Option ℕ) : AuthzContext :=
  { c with identity := { c.identity with expiresAt := expiresAt } }

def withAuthEpoch (c : AuthzContext) (authEpoch : ℕ) : AuthzContext :=
  { c with identity := { c.identity with authEpoch := authEpoch } }

def withToolScope (c : AuthzContext) (toolScope : ToolScope) : AuthzContext :=
  { c with capabilities := { c.capabilities with toolScope := toolScope } }

end AuthzContext

end Proxiima.Authz
