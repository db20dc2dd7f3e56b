import Proxiima.Collaboration.Fork
import Proxiima.Collaboration.Routes

/-!
# The collaboration system

Each command with what it does to the rows, the lock that protects each row against change,
and what a change can make of a row. A series keeps its handle and kind, and a new owner is a
new generation of its head. Goals keep their owner, so their generation stays.
-/

namespace Proxiima.Collaboration

open ReadCommitted Authz Prog

inductive Command where
  | grantAccess (input : GoalAudienceGrantInput) (permit : GoalCommandPermit)
  | revokeAccess (goal subject : Uuid) (permit : GoalCommandPermit)
  | publish (input : GoalPublicationInput) (permit : GoalCommandPermit) (source : OwnerWritePermit)
  | unpublish (goal memory : Uuid) (permit : GoalCommandPermit)
  | bindWork (input : GoalWorkBindingInput) (permit : GoalCommandPermit)
      (source : OwnerWritePermit)
  | unbindWork (input : GoalWorkBindingInput) (permit : GoalCommandPermit)
  | authorWorkMemory (req : AuthorRequest) (permit : GoalWorkPermit) (t : Uuid)
  | forkMemory (source : Uuid) (permit : ForkCommandPermit) (t : Uuid)
  | admitMemory (owner handle t : Uuid) (kind : Memory.MemoryKind) (fresh : Bool)
  | setForgotten (owner t : Uuid) (forgotten : Bool)
  | transferToOwner (fromOwner toOwner t : Uuid)
  | createGoal (owner handle t : Uuid)
  | transitionGoal (owner handle t : Uuid) (state : GoalState)
  | setRole (subject owner : Uuid) (role : Option Role)

def body (H : Hash) : Command → Txn Response
  | .grantAccess input permit => grantAccess H input permit
  | .revokeAccess goal subject permit => revokeAccess H goal subject permit
  | .publish input permit source => publish H input permit source
  | .unpublish goal memory permit => unpublish H goal memory permit
  | .bindWork input permit source => bindWork H input permit source
  | .unbindWork input permit => unbindWork H input permit
  | .authorWorkMemory req permit t => authorWorkMemory H req permit t
  | .forkMemory source permit t => forkOnce H source permit t
  | .admitMemory owner handle t kind fresh => admitMemory H owner handle t kind fresh
  | .setForgotten owner t forgotten => setForgotten H owner t forgotten
  | .transferToOwner fromOwner toOwner t => transferToOwner H fromOwner toOwner t
  | .createGoal owner handle t => createGoal H owner handle t
  | .transitionGoal owner handle t state => transitionGoal H owner handle t state
  | .setRole subject owner role => setRole H subject owner role

/-! ### Rows and their rules -/

def MemoryHead.Legal (h : MemoryHead) : Option MemoryHead → Prop
  | none => False
  | some h' => h'.kind = h.kind ∧ h'.ownerId ≠ h.ownerId ∧
      h'.authorityGeneration = h.authorityGeneration + 1

def MemoryRow.Legal (m : MemoryRow) : Option MemoryRow → Prop
  | none => False
  | some m' => m'.handle = m.handle ∧ m'.kind = m.kind

def GoalHead.Legal (h : GoalHead) : Option GoalHead → Prop
  | none => False
  | some h' => h'.ownerId = h.ownerId ∧ h'.authorityGeneration = h.authorityGeneration

/-- What a change can make of a row. -/
def legal : ∀ k, Option (Row k) → Option (Row k) → Prop
  | .memoryHead _, some h, o => h.Legal o
  | .memory _, some m, o => m.Legal o
  | .goalHead _, some h, o => h.Legal o
  | .goal _, some _, _ => False
  | _, _, _ => True

/-- The locks under which a row changes. -/
def guards (H : Hash) : ∀ k, Option (Row k) → Option (Row k) → List Lock
  | .memoryHead handle, some h, some h' =>
    [exclusive H (.ownerFence h.ownerId), exclusive H (.ownerFence h'.ownerId),
      exclusive H (.memoryHandle handle)]
  | .memoryHead handle, _, _ => [exclusive H (.memoryHandle handle)]
  | .memory _, some m, _ => [exclusive H (.memoryHandle m.handle)]
  | .memory _, none, some m => [exclusive H (.memoryHandle m.handle)]
  | .memory _, none, none => []
  | .goalHead _, _, _ => []
  | .goal _, _, _ => []
  | .role _ owner, _, _ => [exclusive H (.authority owner)]
  | .goalAccessGrant goal _, _, _ => [.row (.goalHead goal)]
  | .goalMemoryPublication goal _, _, _ => [.row (.goalHead goal)]
  | .goalWorkBinding goal _, _, _ => [.row (.goalHead goal)]

/-! ### What each command does -/

/-- Nothing but these rows changes. -/
def Only (ks : List Key) (before after : Tables) : Prop :=
  ∀ k, k ∉ ks → get after k = get before k

/-- A live memory, or a Goal, that the caller may read: by their role on its owner or, through
a Goal, by their role on the Goal. Expiry is judged by the given clocks. -/
def Readable (db : Tables) (scope : OwnerScope) (checks : List (ℕ × ℕ)) (e : EdgeEndpoint) : Prop :=
  let roles := effectiveRole db scope.roles.subject
  let byOwner (owner : Uuid) := ∃ clock ∈ checks,
    (currentRole clock.1 scope roles owner).any (·.mayRead e.kind) = true
  let byGoal (goal controller : Uuid) := ∃ clock ∈ checks, ∃ gh, get db (.goalHead goal) = some gh ∧
    gh.ownerId = controller ∧
    (goalRole db clock scope roles goal controller gh.authorityGeneration).any
      (·.mayRead e.kind) = true
  (∃ m, get db (.memory e.id) = some m ∧ m.forgotten = false ∧ access m.kind = e.kind ∧
    (byOwner m.ownerId ∨ ∃ clock ∈ checks, ∃ r ∈ goalMemoryReadRoutes db (scopeSession scope clock),
      r.memoryT = e.id ∧ byGoal r.goalHandle r.controllerOwner)) ∨
  (e.kind = .goal ∧ ∃ g, get db (.goal e.id) = some g ∧
    (byOwner g.ownerId ∨ byGoal g.handle g.ownerId))

/-- The Goal is active under this owner, and the caller's role on it may write the kind. -/
def Writable (db : Tables) (scope : OwnerScope) (checks : List (ℕ × ℕ)) (goal owner : Uuid)
    (kind : Memory.MemoryKind) : Prop :=
  ∃ gh, get db (.goalHead goal) = some gh ∧ gh.ownerId = owner ∧
    goalState db goal gh = some .active ∧
    ∃ clock ∈ checks, (goalRole db clock scope (effectiveRole db scope.roles.subject) goal owner
      gh.authorityGeneration).any (·.mayWrite (access kind)) = true

/-- The series is this owner's and bound to the Goal under the current generations. -/
def Bound (db : Tables) (goal handle owner : Uuid) : Prop :=
  ∃ mh gh, get db (.memoryHead handle) = some mh ∧ get db (.goalHead goal) = some gh ∧
    mh.ownerId = owner ∧
    bound db goal handle owner mh.authorityGeneration gh.authorityGeneration = true

/-- A version is added to a series, which it may begin. -/
structure Admitted (owner handle t : Uuid) (kind : Memory.MemoryKind) (before after : Tables) :
    Prop where
  absent : get before (.memory t) = none
  version : get after (.memory t) = some ⟨handle, owner, kind, false⟩
  head : get before (.memoryHead handle) = none ∧
      get after (.memoryHead handle) = some ⟨kind, owner, 0⟩ ∨
    get after (.memoryHead handle) = get before (.memoryHead handle) ∧
      ∃ mh, get before (.memoryHead handle) = some mh ∧ mh.kind = kind ∧ mh.ownerId = owner

/-- The binding of a series to a Goal is new, under the generations there are. -/
def NewBinding (goal handle subject : Uuid) (before after : Tables) : Prop :=
  get before (.goalWorkBinding goal handle) = none ∧ ∃ mh gh,
    get after (.memoryHead handle) = some mh ∧ get after (.goalHead goal) = some gh ∧
    mh.ownerId = gh.ownerId ∧ get after (.goalWorkBinding goal handle) =
      some ⟨mh.ownerId, mh.authorityGeneration, gh.authorityGeneration, subject⟩

/-- `author_work_memory` has admitted the version `t` to this series. A series that is not
bound was not there when the call looked for it. -/
structure Worked (req : AuthorRequest) (permit : GoalWorkPermit) (t handle : Uuid)
    (checks : List (ℕ × ℕ)) (during : Tables → Prop) (before after : Tables) : Prop where
  admitted : Admitted permit.owner handle t req.kind before after
  kind : req.kind = permit.kind
  binding : NewBinding permit.command.goal handle permit.command.subject before after ∧
      permit.target = .series handle ∨
    get after (.goalWorkBinding permit.command.goal handle) =
        get before (.goalWorkBinding permit.command.goal handle) ∧
      (permit.target = .series handle →
        get before (.goalWorkBinding permit.command.goal handle) ≠ none)
  only : Only [.memory t, .memoryHead handle, .goalWorkBinding permit.command.goal handle] before
    after
  writable : Writable after permit.command.scope checks permit.command.goal permit.owner permit.kind
  target : Bound before permit.command.goal handle permit.owner ∨
    permit.target = .series handle ∧ ∃ d, during d ∧ get d (.memoryHead handle) = none
  sources : ∀ e ∈ endpoints req, Readable after permit.command.scope checks e

/-- The copy may leave the source's owner: an administrator of it makes the copy, or a current
publication of the version with fork use allows it. -/
def Consented (db : Tables) (permit : ForkCommandPermit) (kind : AccessKind)
    (checks : List (ℕ × ℕ)) : Prop :=
  (∃ clock ∈ checks, sourceAdmin clock.1 permit.scope
    (effectiveRole db permit.scope.roles.subject) permit.sourceOwner = true) ∨
  ∃ goal controller gh p, get db (.goalHead goal) = some gh ∧ gh.ownerId = controller ∧
    forkPublication db goal permit.source = some p ∧ p.sourceOwner = permit.sourceOwner ∧
    ∃ clock ∈ checks, (goalRole db clock permit.scope
      (effectiveRole db permit.scope.roles.subject) goal controller gh.authorityGeneration).any
        (·.mayRead kind) = true

def DestinationWritable (db : Tables) (permit : ForkCommandPermit) (kind : Memory.MemoryKind)
    (checks : List (ℕ × ℕ)) : Prop :=
  match permit.destination with
  | .owner owner => ∃ clock ∈ checks, (currentRole clock.1 permit.scope
      (effectiveRole db permit.scope.roles.subject) owner).any (·.mayWrite (access kind)) = true
  | .workingGoal command => Writable db permit.scope checks command.goal command.controller kind

/-- The row that binds a copy to its working Goal. -/
def bindingKey (destination : ForkDestinationPermit) (handle : Uuid) : List Key :=
  (goalDestination destination).map fun goal => .goalWorkBinding goal.1 handle

/-- `fork_memory` has admitted the copy `t`. The owner its source had was seen while the call
ran. -/
structure Forked (permit : ForkCommandPermit) (t : Uuid) (checks : List (ℕ × ℕ))
    (during : Tables → Prop) (before after : Tables) (kind : Memory.MemoryKind) : Prop where
  admitted : Admitted permit.destination.targetOwner t t kind before after
  fresh : get before (.memoryHead t) = none
  binding : ∀ goal ∈ goalDestination permit.destination,
    NewBinding goal.1 t permit.scope.roles.subject before after
  only : Only ([.memory t, .memoryHead t] ++ bindingKey permit.destination t) before after
  writable : DestinationWritable after permit kind checks
  source : Readable after permit.scope checks ⟨access kind, permit.source⟩
  owner : ∃ d m, during d ∧ get d (.memory permit.source) = some m ∧
    m.ownerId = permit.sourceOwner
  consented : permit.sameOwnerDestination = true ∨
    Consented after permit (access kind) checks

/-- The versions of the series that its old owner held, and its head, have the new owner. -/
structure Transferred (fromOwner toOwner t : Uuid) (before after : Tables) : Prop where
  apart : fromOwner ≠ toOwner
  moved : ∃ m h, get before (.memory t) = some m ∧ m.ownerId = fromOwner ∧
    get before (.memoryHead m.handle) = some h ∧ h.ownerId = fromOwner ∧
    get after (.memoryHead m.handle) = some (h.transferred toOwner) ∧
    (∀ t', get after (.memory t') = (get before (.memory t')).map fun m' =>
      if m'.handle = m.handle ∧ m'.ownerId = fromOwner
        then { m' with ownerId := toOwner } else m') ∧
    ∀ k, k ≠ .memoryHead m.handle → (∀ t', k ≠ .memory t') → get after k = get before k

/-- What a committed command did, from the tables it found to those it left; `during` are the
tables while it ran. -/
def post : Command → Response → (Tables → Prop) → Tables → Tables → Prop
  | .grantAccess input permit, r, _, before, after => r = .done ∧
      ∃ head, get before (.goalHead permit.goal) = some head ∧
      get after (.goalAccessGrant permit.goal input.subject) = some
        ⟨input.role, head.authorityGeneration, dbExpiry input.expiresAt, permit.subject⟩ ∧
      Only [.goalAccessGrant permit.goal input.subject] before after
  | .revokeAccess _ subject permit, r, _, before, after => r = .done ∧
      get after (.goalAccessGrant permit.goal subject) = none ∧
      Only [.goalAccessGrant permit.goal subject] before after
  | .publish input permit source, r, _, before, after => r = .done ∧ input.goal = permit.goal ∧
      ∃ new, newPublication before permit.goal input.memory source.owner permit.controller
        input.permittedUse permit.subject = some new ∧
      get after (.goalMemoryPublication permit.goal input.memory) = some
        (new.replacing (get before (.goalMemoryPublication permit.goal input.memory))) ∧
      Only [.goalMemoryPublication permit.goal input.memory] before after
  | .unpublish goal memory permit, r, _, before, after => r = .done ∧ goal = permit.goal ∧
      get after (.goalMemoryPublication permit.goal memory) = none ∧
      Only [.goalMemoryPublication permit.goal memory] before after
  | .bindWork input permit source, r, _, before, after => r = .done ∧ input.goal = permit.goal ∧
      ∃ new, newBinding before permit.goal input.series source.owner permit.subject = some new ∧
      get after (.goalWorkBinding permit.goal input.series) = some
        (new.replacing (get before (.goalWorkBinding permit.goal input.series))) ∧
      Only [.goalWorkBinding permit.goal input.series] before after
  | .unbindWork input permit, r, _, before, after => r = .done ∧ input.goal = permit.goal ∧
      get after (.goalWorkBinding permit.goal input.series) = none ∧
      Only [.goalWorkBinding permit.goal input.series] before after
  | .authorWorkMemory req permit t, r, during, before, after =>
      r = .replayed ∧ Only [] before after ∨
      ∃ handle checks, r = .admitted t handle checks ∧
        Worked req permit t handle checks during before after
  | .forkMemory source permit t, r, during, before, after => source = permit.source ∧
      (r = .replayed ∧ Only [] before after ∨
      ∃ checks kind, r = .admitted t t checks ∧ Forked permit t checks during before after kind)
  | .admitMemory owner handle t kind _, r, _, before, after => r = .admitted t handle [] ∧
      Admitted owner handle t kind before after ∧ Only [.memory t, .memoryHead handle] before after
  | .setForgotten owner t forgotten, r, _, before, after => r = .done ∧
      ∃ m, get before (.memory t) = some m ∧ m.ownerId = owner ∧
        get after (.memory t) = some { m with forgotten := forgotten } ∧
        Only [.memory t] before after
  | .transferToOwner fromOwner toOwner t, r, _, before, after => r = .done ∧
      Transferred fromOwner toOwner t before after
  | .createGoal owner handle t, r, _, before, after => r = .done ∧
      get before (.goalHead handle) = none ∧ get before (.goal t) = none ∧
      get after (.goalHead handle) = some ⟨owner, t, 0⟩ ∧
      get after (.goal t) = some ⟨handle, owner, .active⟩ ∧
      Only [.goalHead handle, .goal t] before after
  | .transitionGoal owner handle t state, r, _, before, after => r = .done ∧
      ∃ head, get before (.goalHead handle) = some head ∧ head.ownerId = owner ∧
      get before (.goal t) = none ∧ get after (.goalHead handle) = some { head with t := t } ∧
      get after (.goal t) = some ⟨handle, owner, state⟩ ∧
      Only [.goalHead handle, .goal t] before after
  | .setRole subject owner role, r, _, before, after => r = .done ∧
      get after (.role subject owner) = role ∧ Only [.role subject owner] before after

def system (H : Hash) : Guarded Row Lock StorageError Input Unit Command Response where
  conflict := TableLock.conflict
  symm := TableLock.conflict_symm
  rowLock := .row
  row_conflict := TableLock.conflict_row_self
  body := body H
  legal := legal
  guards := guards H
  post := post

end Proxiima.Collaboration
