import Proxiima.Authz.Builders
import Proxiima.Authz.Commands
import Proxiima.Serde.Json

/-!
# Delegated authority

A host bearer issues a grant for one command on one owner under a role ceiling; a worker
redeems it later for a phase. Each call reads the clock, the epochs, the roles and the grant
rows at its own moments, so each reading is a world of its own. Times are nanoseconds since
the database's epoch; a row keeps them in microseconds.
-/

namespace Proxiima.Authz

open Serde (bind_eq_ok)

/-! ### Refusals -/

/-- Refuse with `e` unless `b`. -/
def ensure {ε : Type} (b : Bool) (e : ε) : Except ε Unit := if b then .ok () else .error e

/-- A value that must be there. -/
def orElse {ε α : Type} (o : Option α) (e : ε) : Except ε α :=
  match o with
  | some a => .ok a
  | none => .error e

lemma ensure_ok {ε : Type} {b : Bool} {e : ε} {u : Unit} : ensure b e = .ok u ↔ b = true := by
  cases b <;> simp [ensure]

lemma orElse_ok {ε α : Type} {o : Option α} {e : ε} {a : α} : orElse o e = .ok a ↔ o = some a := by
  cases o <;> simp [orElse]

lemma mapError_ok {ε ε' α : Type} {x : Except ε α} {f : ε → ε'} {a : α} :
    x.mapError f = .ok a ↔ x = .ok a := by
  cases x <;> simp [Except.mapError]

inductive StorageError where
  | constraintViolation (message : String)
  | internal (message : String)
  deriving DecidableEq

inductive DelegatedAuthorityError where
  | hostBearerRequired
  | missingSubject
  | missingBearerExpiry
  | expired
  | managementNotDelegable
  | roleCeilingExceeded
  | toolScopeDenied (command : String)
  | commandUnavailable (reason : String)
  | notFound
  | revoked
  | commandMismatch
  | membershipRevoked
  | roleCeilingNoLongerHeld
  | authEpochRevoked
  | revocationDenied
  | access (error : AccessError)
  | storage (error : StorageError)
  deriving DecidableEq

/-! ### Grants and their rows -/

structure DelegationGrant where
  delegationId : Uuid
  subject : Uuid
  writer : WriterAttribution
  owner : Uuid
  command : DelegatedCommand
  roleCeiling : Role
  expiresAt : ℕ
  authEpoch : ℕ
  issuedAt : ℕ
  revokedAt : Option ℕ
  revokedBy : Option Uuid
  deriving DecidableEq

/-- A row of `delegated_authority_grants`. -/
structure GrantRow where
  delegationId : Uuid
  subjectUserId : Uuid
  ownerId : Uuid
  toolName : List Char
  actionName : Option (List Char)
  readCeiling : AccessCeiling
  writeCeiling : AccessCeiling
  expiresAt : ℕ
  authEpoch : ℤ
  issuedAt : ℕ
  revokedAt : Option ℕ
  revokedByUserId : Option Uuid
  by_ : Uuid
  via : Option Uuid
  deriving DecidableEq

/-- A time as a `timestamptz` column keeps it. -/
def toMicros (time : ℕ) : ℕ := time / 1000

def fromMicros (micros : ℕ) : ℕ := micros * 1000

lemma fromMicros_toMicros_le (time : ℕ) : fromMicros (toMicros time) ≤ time :=
  Nat.div_mul_le_self time 1000

def DelegationGrant.encode (g : DelegationGrant) : Except StorageError GrantRow :=
  if g.authEpoch < 2 ^ 63 then
    .ok
      { delegationId := g.delegationId
        subjectUserId := g.subject
        ownerId := g.owner
        toolName := g.command.tool.text
        actionName := g.command.action.map Name.text
        readCeiling := g.roleCeiling.read
        writeCeiling := g.roleCeiling.write
        expiresAt := toMicros g.expiresAt
        authEpoch := g.authEpoch
        issuedAt := toMicros g.issuedAt
        revokedAt := none
        revokedByUserId := none
        by_ := g.writer.by_
        via := g.writer.via }
  else .error (.constraintViolation "delegation auth epoch exceeds i64")

namespace GrantRow

/-- `DelegationGrant::from_storage`, with the role the row holds. -/
def fromStorage (row : GrantRow) (roleCeiling : Role) (authEpoch : ℕ) :
    Except StorageError DelegationGrant := do
  ensure (!roleCeiling.manage)
    (.constraintViolation "stored delegation role ceiling includes management")
  ensure (fromMicros row.issuedAt < fromMicros row.expiresAt)
    (.constraintViolation "stored delegation expiry is not after issue time")
  ensure (row.revokedAt.isSome = row.revokedByUserId.isSome)
    (.constraintViolation "stored delegation revocation shape is invalid")
  let command ← (DelegatedCommand.fromStorageParts row.toolName row.actionName).mapError
    .constraintViolation
  .ok
    { delegationId := row.delegationId
      subject := row.subjectUserId
      writer := ⟨row.by_, row.via⟩
      owner := row.ownerId
      command := command
      roleCeiling := roleCeiling
      expiresAt := fromMicros row.expiresAt
      authEpoch := authEpoch
      issuedAt := fromMicros row.issuedAt
      revokedAt := row.revokedAt.map fromMicros
      revokedBy := row.revokedByUserId }

def decode (row : GrantRow) : Except StorageError DelegationGrant := do
  let roleCeiling ← (Role.new row.readCeiling row.writeCeiling false).mapError
    fun _ => .internal "write ceiling exceeds read ceiling"
  let authEpoch ← orElse (row.authEpoch.toNat?) (.internal "negative delegation auth epoch")
  row.fromStorage roleCeiling authEpoch

/-- The row of a grant, whatever its revocation columns are now. -/
def Records (row : GrantRow) (g : DelegationGrant) : Prop :=
  ∃ row₀, g.encode = .ok row₀ ∧
    row = { row₀ with revokedAt := row.revokedAt, revokedByUserId := row.revokedByUserId }

/-- What is read back from the row of a grant without management. -/
lemma Records.decode {row : GrantRow} {g g' : DelegationGrant} (h : row.Records g)
    (hm : g.roleCeiling.manage = false) (hd : row.decode = .ok g') :
    g'.delegationId = g.delegationId ∧ g'.owner = g.owner ∧ g'.subject = g.subject ∧
      g'.command = g.command ∧ g'.roleCeiling = g.roleCeiling ∧
      g'.expiresAt ≤ g.expiresAt := by
  obtain ⟨row₀, he, hrow⟩ := h
  unfold DelegationGrant.encode at he
  split at he
  swap
  · cases he
  obtain rfl := Except.ok.inj he
  simp only [GrantRow.decode, fromStorage, bind_eq_ok, mapError_ok, ensure_ok, orElse_ok] at hd
  obtain ⟨role, hrole, epoch, -, -, -, -, -, -, -, command, hcommand, hg⟩ := hd
  obtain rfl := Except.ok.inj hg
  rw [hrow] at hrole hcommand
  have hr : role = g.roleCeiling := by
    unfold Role.new at hrole
    split at hrole
    · rw [← Except.ok.inj hrole]
      exact Role.ext rfl rfl hm.symm
    · cases hrole
  rw [hrow]
  exact ⟨rfl, rfl, rfl, DelegatedCommand.fromStorageParts_eq hcommand, hr, fromMicros_toMicros_le _⟩

lemma decode_revokedAt {row : GrantRow} {g : DelegationGrant} (h : row.decode = .ok g) :
    g.revokedAt = row.revokedAt.map fromMicros := by
  simp only [GrantRow.decode, fromStorage, bind_eq_ok, mapError_ok, ensure_ok, orElse_ok] at h
  obtain ⟨role, -, epoch, -, -, -, -, -, -, -, command, -, hg⟩ := h
  rw [← Except.ok.inj hg]

end GrantRow

/-! ### The service -/

/-- What a call can see at one moment. -/
structure World where
  now : ℕ
  currentAuthEpoch : Uuid → ℕ
  resolveRolesForSubject : Uuid → Except AccessError OwnerRoles
  grants : List GrantRow

/-- `store.load`. -/
def World.load (w : World) (delegationId owner : Uuid) :
    Except StorageError (Option DelegationGrant) :=
  match w.grants.find? fun row => row.delegationId = delegationId ∧ row.ownerId = owner with
  | some row => row.decode.map some
  | none => .ok none

lemma World.load_eq {w : World} {id owner : Uuid} {grant : DelegationGrant}
    (h : w.load id owner = .ok (some grant)) :
    ∃ row ∈ w.grants, row.delegationId = id ∧ row.ownerId = owner ∧ row.decode = .ok grant := by
  unfold World.load at h
  split at h
  · rename_i row hrow
    have hmatch := List.find?_some hrow
    simp only [decide_eq_true_eq] at hmatch
    refine ⟨row, List.mem_of_find?_eq_some hrow, hmatch.1, hmatch.2, ?_⟩
    cases hd : row.decode with
    | error e => simp [hd, Except.map] at h
    | ok g => simpa [hd, Except.map] using h
  · cases h

/-- `store.insert`; the delegation id is the primary key. -/
def World.insert (w : World) (grant : DelegationGrant) : Except StorageError World := do
  let row ← grant.encode
  ensure (w.grants.all fun r => r.delegationId ≠ row.delegationId)
    (.constraintViolation "delegated_authority_grants_pkey")
  .ok { w with grants := row :: w.grants }

/-- The row the update of a grant finds: its own, not yet revoked. -/
def GrantRow.unrevoked (row : GrantRow) (delegationId owner : Uuid) : Bool :=
  row.delegationId = delegationId ∧ row.ownerId = owner ∧ row.revokedAt = none

/-- `store.revoke`: whether a row was revoked, and the rows after. -/
def World.revoke (w : World) (delegationId owner : Uuid) (revokedAt : ℕ) (revokedBy : Uuid) :
    Bool × World :=
  (w.grants.any (·.unrevoked delegationId owner),
    { w with
      grants := w.grants.map fun row =>
        if row.unrevoked delegationId owner then
          { row with revokedAt := some (toMicros revokedAt), revokedByUserId := some revokedBy }
        else row })

structure DelegatedPhase where
  authz : AuthzContext
  expiresAt : ℕ
  runtimeBinding : ℕ
  deriving DecidableEq

inductive DelegationRevocation where
  | revoked | alreadyRevoked
  deriving DecidableEq

/-- One running deployment. -/
structure DelegatedAuthorityService where
  registry : Registry
  servedSurface : ServedSurface
  runtimeBinding : ℕ

/-- The subject and the expiry of a host bearer. -/
def validateHostBearer (w : World) (source : AuthzContext) :
    Except DelegatedAuthorityError (Uuid × ℕ) := do
  ensure (source.authPath = .hostBearer ∧ source.forwardedOwner = none) .hostBearerRequired
  let subject ← orElse source.identity.subject .missingSubject
  let scope ← orElse source.scope .hostBearerRequired
  let expiresAt ← orElse source.identity.expiresAt .missingBearerExpiry
  let scopeExpiresAt ← orElse scope.expiresAt .missingBearerExpiry
  ensure (w.now < min expiresAt scopeExpiresAt) .expired
  .ok (subject, min expiresAt scopeExpiresAt)

def revalidateEpoch (w : World) (subject : Uuid) (authEpoch : ℕ) :
    Except DelegatedAuthorityError Unit :=
  ensure (w.currentAuthEpoch subject ≤ authEpoch) .authEpochRevoked

def currentRoles (w : World) (subject : Uuid) : Except DelegatedAuthorityError OwnerRoles := do
  let roles ← (w.resolveRolesForSubject subject).mapError .access
  ensure (roles.subject = subject) (.access
    (.resolution "owner access resolver returned roles for a different subject"))
  .ok roles

/-- The role a subject is resolved to on an owner. -/
def World.roleOf (w : World) (subject owner : Uuid) : Option Role :=
  match w.resolveRolesForSubject subject with
  | .ok roles => if roles.subject = subject then roles.roleFor owner else none
  | .error _ => none

lemma currentRoles_roleFor {w : World} {subject : Uuid} {roles : OwnerRoles}
    (h : currentRoles w subject = .ok roles) (owner : Uuid) :
    w.roleOf subject owner = roles.roleFor owner := by
  simp only [currentRoles, bind_eq_ok, mapError_ok, ensure_ok, decide_eq_true_eq] at h
  obtain ⟨roles', hroles, -, hsubject, h⟩ := h
  obtain rfl := Except.ok.inj h
  simp [World.roleOf, hroles, hsubject]

namespace DelegatedAuthorityService

variable (service : DelegatedAuthorityService)

def validateCurrentCommand (command : DelegatedCommand) : Except DelegatedAuthorityError Unit := do
  let current ← (DelegatedCommand.parse command.text service.registry).mapError .commandUnavailable
  ensure (current = command) (.commandUnavailable (.ofList command.text))

def validateScopes (capabilities : CapabilitySet) (command : DelegatedCommand) :
    Except DelegatedAuthorityError Unit := do
  let unavailable := DelegatedAuthorityError.commandUnavailable (.ofList command.text)
  let descriptor ← orElse (service.registry.mcpTool command.tool.text) unavailable
  let declared := descriptor.declaration (command.action.map Name.text)
  let key ← command.scopeKey.mapError fun _ => unavailable
  ensure (capabilities.admits key declared && service.servedSurface.admits key declared)
    (.toolScopeDenied (.ofList command.text))

/-- `issue` up to the insert: the clock is read in `w₁` and `w₂`, the epoch in `w₃` and the
roles in `w₄`. -/
def issue (w₁ w₂ w₃ w₄ : World) (delegationId : Uuid) (source : AuthzContext) (owner : Uuid)
    (command : DelegatedCommand) (roleCeiling : Role) :
    Except DelegatedAuthorityError DelegationGrant := do
  let (subject, expiresAt) ← validateHostBearer w₁ source
  let scope ← orElse source.scope .hostBearerRequired
  ensure ((scope.roles.roleFor owner).any (·.dominates roleCeiling)) .roleCeilingExceeded
  ensure (w₂.now < expiresAt) .expired
  ensure (!roleCeiling.manage) .managementNotDelegable
  revalidateEpoch w₃ subject source.identity.authEpoch
  let roles ← currentRoles w₄ subject
  let currentRole ← orElse (roles.roleFor owner) .roleCeilingExceeded
  ensure (currentRole.dominates roleCeiling) .roleCeilingExceeded
  service.validateCurrentCommand command
  service.validateScopes source.capabilities command
  .ok
    { delegationId := delegationId
      subject := scope.roles.subject
      writer := scope.writer
      owner := owner
      command := command
      roleCeiling := roleCeiling
      expiresAt := expiresAt
      authEpoch := source.identity.authEpoch
      issuedAt := w₂.now
      revokedAt := none
      revokedBy := none }

/-- `redeem_phase`: the row is read in `w₁`, the clock in `w₂`, the epoch in `w₃` and the
roles in `w₄`. -/
def redeemPhase (w₁ w₂ w₃ w₄ : World) (delegationId expectedOwner : Uuid)
    (expectedCommand : DelegatedCommand) : Except DelegatedAuthorityError DelegatedPhase := do
  let found ← (w₁.load delegationId expectedOwner).mapError .storage
  let grant ← orElse found .notFound
  ensure (grant.delegationId = delegationId ∧ grant.owner = expectedOwner) .notFound
  ensure (grant.command = expectedCommand) .commandMismatch
  ensure grant.revokedAt.isNone .revoked
  ensure (w₂.now < grant.expiresAt) .expired
  service.validateCurrentCommand grant.command
  service.validateScopes .all grant.command
  revalidateEpoch w₃ grant.subject grant.authEpoch
  let roles ← currentRoles w₄ grant.subject
  let currentRole ← orElse (roles.roleFor expectedOwner) .membershipRevoked
  ensure (currentRole.dominates grant.roleCeiling) .roleCeilingNoLongerHeld
  let effectiveRole := currentRole.meet grant.roleCeiling
  let toolScope ← grant.command.toolScope.mapError
    fun _ => .commandUnavailable (.ofList grant.command.text)
  let context := AuthzContext.serverResolvedWithWriter
    (.scopedTo grant.subject expectedOwner effectiveRole) .delegated grant.writer
  let context := context.withExpiresAt (some grant.expiresAt)
  let context := (context.withAuthEpoch grant.authEpoch).withToolScope toolScope
  let authz ← (context.withServedSurface service.servedSurface).sealVerifiedScope.mapError
    fun _ => .membershipRevoked
  .ok ⟨authz, grant.expiresAt, service.runtimeBinding⟩

end DelegatedAuthorityService

/-- `revoke`: the clock is read in `w₁`, the epoch in `w₂`, the row in `w₃`, the roles in `w₄`
and the clock again in `w₅`; the update is made in `w`. -/
def revokeGrant (w₁ w₂ w₃ w₄ w₅ w : World) (caller : AuthzContext)
    (delegationId expectedOwner : Uuid) :
    Except DelegatedAuthorityError (DelegationRevocation × World) := do
  let (callerSubject, _) ← validateHostBearer w₁ caller
  revalidateEpoch w₂ callerSubject caller.identity.authEpoch
  let found ← (w₃.load delegationId expectedOwner).mapError .storage
  let grant ← orElse found .notFound
  ensure (grant.delegationId = delegationId ∧ grant.owner = expectedOwner) .notFound
  let roles ← currentRoles w₄ callerSubject
  let currentRole ← orElse (roles.roleFor expectedOwner) .revocationDenied
  ensure (callerSubject = grant.subject || currentRole.manage) .revocationDenied
  if grant.revokedAt.isSome then .ok (.alreadyRevoked, w)
  else
    match w.revoke delegationId expectedOwner w₅.now callerSubject with
    | (true, w') => .ok (.revoked, w')
    | (false, w') => .ok (.alreadyRevoked, w')

end Proxiima.Authz
