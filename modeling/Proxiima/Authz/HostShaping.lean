import Proxiima.Authz.Commands
import Proxiima.Authz.Context
import Proxiima.Serde.Json

/-!
# Host role shapes

An OIDC binding resolves a context for a verified token and hands it to the host's shaper, which
returns the context to use. The binding accepts that context if it widens nothing, by listing what
it can read and write. The surface it serves and its tools are cut down to those of the resolved
context, and its expiry to that of the token.
-/

namespace Proxiima.Authz

open Serde (bind_eq_ok)

/-! ### What a context allows -/

variable {owner : Uuid} {c : AuthzContext}

namespace OwnerRoles

def writableOwners (r : OwnerRoles) (kind : AccessKind) : List Uuid :=
  r.ordered fun role => role.mayWrite kind

/-- `OwnerRoles::for_subject`: the subject's own id holds the personal role, a group the join of the
roles that are named for it. -/
def forSubject (subject : Uuid) (groupRoles : List (Uuid × Role)) : Except AccessError OwnerRoles :=
  groupRoles.foldlM
    (fun roles p =>
      if p.1 = subject then .error .derivedOwnerOverride
      else .ok (roles.withGroupRole p.1 (((roles.roleFor p.1).map (·.join p.2)).getD p.2)))
    (scopedTo subject subject .personal)

lemma mem_ordered {r : OwnerRoles} {keep : Role → Bool} :
    owner ∈ r.ordered keep ↔ (r.roleFor owner).any keep = true := by
  simp only [ordered, List.mem_insertionSort, List.mem_map, List.mem_filter, Option.any_eq_true,
    roleFor_iff]
  constructor
  · rintro ⟨⟨o, role⟩, ⟨hmem, hkeep⟩, rfl⟩
    exact ⟨role, hmem, hkeep⟩
  · rintro ⟨role, hmem, hkeep⟩
    exact ⟨(owner, role), ⟨hmem, hkeep⟩, rfl⟩

end OwnerRoles

def AccessKind.all : List AccessKind := [.fact, .abstraction, .perspective, .goal]

inductive TrustedModelIdError where
  | blank
  | tooLong (chars max : ℕ)
  deriving DecidableEq

def maxOperatorLabelChars : ℕ := 120

def validateTrustedModelId (value : List Char) : Except TrustedModelIdError (List Char) :=
  let trimmed := trim value
  if trimmed = [] then .error .blank
  else if maxOperatorLabelChars < trimmed.length then
    .error (.tooLong trimmed.length maxOperatorLabelChars)
  else .ok trimmed

def ToolScope.intersect : ToolScope → ToolScope → ToolScope
  | all, s => s
  | s, all => s
  | palette left, palette right => palette (left.filter (· ∈ right))

@[simp] lemma ToolScope.allows_intersect (s s' : ToolScope) (key : ScopeKey) :
    (s.intersect s').allows key = (s.allows key && s'.allows key) := by
  cases s <;> cases s' <;> simp [intersect, allows]

namespace AuthzContext

def readableOwners (c : AuthzContext) (kind : AccessKind) : List Uuid :=
  (c.ownerRoles.map fun roles => roles.readableOwners kind).getD []

def writableOwners (c : AuthzContext) (kind : AccessKind) : List Uuid :=
  (c.ownerRoles.map fun roles => roles.writableOwners kind).getD []

lemma mem_readableOwners {kind : AccessKind} :
    owner ∈ c.readableOwners kind ↔ c.mayRead owner kind = true := by
  unfold readableOwners mayRead
  cases c.ownerRoles with
  | none => simp
  | some roles =>
    rw [Option.map_some, Option.getD_some, Option.any_some]
    exact OwnerRoles.mem_ordered

lemma mem_writableOwners {kind : AccessKind} :
    owner ∈ c.writableOwners kind ↔ c.mayWrite owner kind = true := by
  unfold writableOwners mayWrite
  cases c.ownerRoles with
  | none => simp
  | some roles =>
    rw [Option.map_some, Option.getD_some, Option.any_some]
    exact OwnerRoles.mem_ordered

def serverResolved (roles : OwnerRoles) (authPath : AuthPath) : AuthzContext :=
  serverResolvedWithWriter roles authPath ⟨roles.subject, none⟩

def withTrustedModelId (c : AuthzContext) (trustedModelId : List Char) :
    Except TrustedModelIdError AuthzContext := do
  let id ← validateTrustedModelId trustedModelId
  .ok { c with identity := { c.identity with trustedModelId := some id } }

end AuthzContext

/-! ### The resolved context -/

/-- A claim of a token, as far as an identifier is read from it. -/
inductive ClaimValue where
  | null
  | uuid (id : Uuid)
  | other
  deriving DecidableEq

/-- What a verified token says. -/
structure ValidatedToken where
  expiresAt : ℕ
  owner : Option ClaimValue
  by_ : Option ClaimValue
  via : Option ClaimValue

def signedUuidClaim : ClaimValue → Except AuthError Uuid
  | .uuid id => .ok id
  | _ => .error .invalidCredentials

/-- A claim that must be there. -/
def claimOf (value : Option ClaimValue) : Except AuthError ClaimValue :=
  match value with
  | some value => .ok value
  | none => .error .invalidCredentials

/-- What the host answered, or that it failed to. -/
def answerOf {α : Type} : Option α → Except AuthError α
  | some a => .ok a
  | none => .error .invalidCredentials

/-- The forwarder that the writer names; it must be stated, if only as null. -/
def viaClaim : ClaimValue → Except AuthError (Option Uuid)
  | .null => .ok none
  | value => some <$> signedUuidClaim value

/-- The context of a forwarder: the owner and the writer are those of the token. -/
def forwardedContext (subject : Uuid) (token : ValidatedToken) : Except AuthError AuthzContext := do
  let owner ← signedUuidClaim (← claimOf token.owner)
  let by_ ← signedUuidClaim (← claimOf token.by_)
  let via ← viaClaim (← claimOf token.via)
  .ok (.fromVerifiedForwardedOwner subject owner ⟨by_, via⟩)

/-- The context of any other subject: its roles are those the host resolves. -/
def ordinaryContext (resolveRoles : Uuid → Option OwnerRoles) (subject : Uuid) :
    Except AuthError AuthzContext := do
  .ok (.serverResolved (← answerOf (resolveRoles subject)) .hostBearer)

/-- `context_for_verified_token`; `resolveRoles` is the port's answer for a subject. -/
def contextForVerifiedToken (port : OwnerAccessPort) (resolveRoles : Uuid → Option OwnerRoles)
    (subject : Uuid) (token : ValidatedToken) : Except AuthError AuthzContext := do
  let isForwarder ← answerOf (port.isForwarder subject)
  let context ← cond isForwarder (forwardedContext subject token)
    (ordinaryContext resolveRoles subject)
  .ok (context.withExpiresAt (some token.expiresAt))

def bindTrustedModelId (c : AuthzContext) (trustedModelId : Option (List Char)) :
    Except AuthError AuthzContext :=
  match trustedModelId with
  | none => .ok c
  | some id =>
    match c.withTrustedModelId id with
    | .ok c => .ok c
    | .error _ => .error .invalidCredentials

/-- The context a binding resolves for a token, before the host shapes it. -/
def resolvedContext (port : OwnerAccessPort) (resolveRoles : Uuid → Option OwnerRoles)
    (subject : Uuid) (trustedModelId : Option (List Char)) (token : ValidatedToken) :
    Except AuthError AuthzContext := do
  bindTrustedModelId (← contextForVerifiedToken port resolveRoles subject token) trustedModelId

/-- The contexts that a binding resolves, with tools and a surface that are restricted further. -/
inductive ServerResolved : AuthzContext → Prop where
  | resolve {port : OwnerAccessPort} {resolveRoles : Uuid → Option OwnerRoles} {subject : Uuid}
      {trustedModelId : Option (List Char)} {token : ValidatedToken} {r : AuthzContext}
      (h : resolvedContext port resolveRoles subject trustedModelId token = .ok r) :
      ServerResolved r
  | withToolScope {r : AuthzContext} (scope : ToolScope) (h : ServerResolved r) :
      ServerResolved (r.withToolScope scope)
  | withServedSurface {r : AuthzContext} (surface : ServedSurface) (h : ServerResolved r) :
      ServerResolved (r.withServedSurface surface)

/-! ### Narrowing by the host -/

def rightsWidened (resolved shaped : AuthzContext) : Bool :=
  AccessKind.all.any fun kind =>
    ((shaped.readableOwners kind).any fun owner =>
      !resolved.mayRead owner kind || (shaped.mayManage owner && !resolved.mayManage owner)) ||
    (shaped.writableOwners kind).any fun owner => !resolved.mayWrite owner kind

def narrowedByHost (resolved shaped : AuthzContext) (tokenExpiresAt : ℕ) :
    Except AuthError AuthzContext :=
  if shaped.authPath ≠ .hostBearer ∨ shaped.identity.subject ≠ resolved.identity.subject ∨
      shaped.identity.writer ≠ resolved.identity.writer ∨
      shaped.identity.trustedModelId ≠ resolved.identity.trustedModelId ∨
      shaped.forwardedOwner ≠ resolved.forwardedOwner ∨ rightsWidened resolved shaped then
    .error .invalidCredentials
  else
    let expiresAt := (shaped.identity.expiresAt.map (min · tokenExpiresAt)).getD tokenExpiresAt
    let toolScope := shaped.capabilities.toolScope.intersect resolved.capabilities.toolScope
    .ok (((shaped.withExpiresAt (some expiresAt)).withToolScope toolScope).withServedSurface
      resolved.capabilities.servedSurface)

/-! ### What a shaped context may do -/

variable {trustedModelId : Option (List Char)}

lemma bindTrustedModelId_authPath {c' : AuthzContext}
    (h : bindTrustedModelId c trustedModelId = .ok c') : c'.authPath = c.authPath := by
  unfold bindTrustedModelId at h
  split at h
  · rw [Except.ok.inj h]
  · split at h
    · rename_i id c₁ hid
      obtain ⟨text, -, htext⟩ := bind_eq_ok.1 hid
      rw [← Except.ok.inj h, ← Except.ok.inj htext]
    · cases h

/-- A binding resolves contexts on the path of a bearer. -/
lemma resolvedContext_authPath {port : OwnerAccessPort} {resolveRoles : Uuid → Option OwnerRoles}
    {subject : Uuid} {token : ValidatedToken}
    (h : resolvedContext port resolveRoles subject trustedModelId token = .ok c) :
    c.authPath = .hostBearer := by
  obtain ⟨c₁, hc₁, hbind⟩ := bind_eq_ok.1 h
  rw [bindTrustedModelId_authPath hbind]
  obtain ⟨isForwarder, -, hc₁⟩ := bind_eq_ok.1 hc₁
  obtain ⟨c₀, hc₀, hc₁⟩ := bind_eq_ok.1 hc₁
  rw [← Except.ok.inj hc₁]
  change c₀.authPath = .hostBearer
  cases isForwarder with
  | true =>
    obtain ⟨owner, -, hc₀⟩ := bind_eq_ok.1 hc₀
    obtain ⟨owner', -, hc₀⟩ := bind_eq_ok.1 hc₀
    obtain ⟨by_, -, hc₀⟩ := bind_eq_ok.1 hc₀
    obtain ⟨by', -, hc₀⟩ := bind_eq_ok.1 hc₀
    obtain ⟨via, -, hc₀⟩ := bind_eq_ok.1 hc₀
    obtain ⟨via', -, hc₀⟩ := bind_eq_ok.1 hc₀
    rw [← Except.ok.inj hc₀]
    rfl
  | false =>
    obtain ⟨roles, -, hc₀⟩ := bind_eq_ok.1 hc₀
    rw [← Except.ok.inj hc₀]
    rfl

lemma ServerResolved.authPath {r : AuthzContext} (h : ServerResolved r) :
    r.authPath = .hostBearer := by
  induction h with
  | resolve h => exact resolvedContext_authPath h
  | withToolScope scope h ih | withServedSurface surface h ih => exact ih

/-- `c` is `s` cut down to what `r` allows. Of the owners that `c` manages, those it may read are
owners that `r` manages. -/
structure NarrowedBy (r s c : AuthzContext) (tokenExpiresAt : ℕ) : Prop where
  read : ∀ owner kind, c.mayRead owner kind = true → r.mayRead owner kind = true
  write : ∀ owner kind, c.mayWrite owner kind = true → r.mayWrite owner kind = true
  manage : ∀ owner kind, c.mayRead owner kind = true → c.mayManage owner = true →
    r.mayManage owner = true
  subject : c.identity.subject = r.identity.subject
  writer : c.identity.writer = r.identity.writer
  authPath : c.authPath = r.authPath
  trustedModelId : c.identity.trustedModelId = r.identity.trustedModelId
  forwardedOwner : c.forwardedOwner = r.forwardedOwner
  tools : ∀ key, c.capabilities.toolScope.allows key =
    (r.capabilities.toolScope.allows key && s.capabilities.toolScope.allows key)
  surface : c.capabilities.servedSurface =
    s.capabilities.servedSurface.intersect r.capabilities.servedSurface
  expiry : ∃ t ≤ tokenExpiresAt, c.identity.expiresAt = some t

lemma mem_all_accessKind (kind : AccessKind) : kind ∈ AccessKind.all := by
  cases kind <;> decide

/-- The listing finds every right to read and to write, and the managed owners among those that can
be read. -/
lemma rightsWidened_eq_false {r s : AuthzContext} (h : rightsWidened r s = false) (owner : Uuid)
    (kind : AccessKind) :
    (s.mayRead owner kind = true → r.mayRead owner kind = true ∧
        (s.mayManage owner = true → r.mayManage owner = true)) ∧
      (s.mayWrite owner kind = true → r.mayWrite owner kind = true) := by
  have hkind := List.any_eq_false.1 h kind (mem_all_accessKind kind)
  rw [Bool.or_eq_true, not_or, Bool.not_eq_true, Bool.not_eq_true] at hkind
  obtain ⟨hread, hwrite⟩ := hkind
  refine ⟨fun hr => ?_, fun hw => ?_⟩
  · have := List.any_eq_false.1 hread owner (AuthzContext.mem_readableOwners.2 hr)
    simp only [Bool.or_eq_true, Bool.not_eq_true', Bool.and_eq_true, not_or, not_and,
      Bool.not_eq_false] at this
    exact this
  · have := List.any_eq_false.1 hwrite owner (AuthzContext.mem_writableOwners.2 hw)
    simpa using this

lemma servedSurface_withServedSurface (c : AuthzContext) (surface : ServedSurface) :
    (c.withServedSurface surface).capabilities.servedSurface =
      c.capabilities.servedSurface.intersect surface := by
  unfold AuthzContext.withServedSurface
  cases c.capabilities.servedSurface <;> rfl

/-- **A host shape only narrows**: whatever context the host returns for a resolved one, the context
that the binding accepts reads and writes no more than the resolved one does. -/
theorem narrowedByHost_narrows {r s c : AuthzContext} {e : ℕ} (hr : ServerResolved r)
    (h : narrowedByHost r s e = .ok c) : NarrowedBy r s c e := by
  unfold narrowedByHost at h
  split at h
  · cases h
  rename_i haccepted
  simp only [not_or, not_not, Bool.not_eq_true] at haccepted
  obtain ⟨hpath, hsubject, hwriter, hmodel, hforwarded, hrights⟩ := haccepted
  obtain rfl := Except.ok.inj h
  refine ⟨fun owner kind hread => ?_, fun owner kind hwrite => ?_,
    fun owner kind hread hmanage => ?_,
    hsubject, hwriter, hpath.trans hr.authPath.symm, hmodel, hforwarded,
    fun key => ?_, ?_, ?_⟩
  · exact ((rightsWidened_eq_false hrights owner kind).1 hread).1
  · exact (rightsWidened_eq_false hrights owner kind).2 hwrite
  · exact ((rightsWidened_eq_false hrights owner kind).1 hread).2 hmanage
  · change (s.capabilities.toolScope.intersect r.capabilities.toolScope).allows key = _
    rw [ToolScope.allows_intersect, Bool.and_comm]
  · rw [servedSurface_withServedSurface]
    rfl
  · refine ⟨_, ?_, rfl⟩
    cases s.identity.expiresAt with
    | none => exact Nat.le_refl e
    | some t => exact Nat.min_le_right t e

/-- A host that resolves the personal role of every subject, and nothing else. -/
def personalPort : OwnerAccessPort where
  isForwarder _ := some false
  resolveForwardedOwnerRole _ _ := some none
  resolveGroupRole _ _ := some none

def personalRoles (subject : Uuid) : Option OwnerRoles := some (.scopedTo subject subject .personal)

/-- The context of the subject 1 with its personal role, for a token that expires at 100. -/
def personalResolved : AuthzContext :=
  (AuthzContext.serverResolved (.scopedTo 1 1 .personal) .hostBearer).withExpiresAt (some 100)

lemma serverResolved_personal : ServerResolved personalResolved :=
  @ServerResolved.resolve personalPort personalRoles 1 none ⟨100, none, none, none⟩ _ rfl

theorem narrowedByHost_narrows_personal :
    narrowedByHost personalResolved (personalResolved.withExpiresAt (some 7)) 100 =
        .ok (personalResolved.withExpiresAt (some 7)) ∧
      NarrowedBy personalResolved (personalResolved.withExpiresAt (some 7))
        (personalResolved.withExpiresAt (some 7)) 100 := by
  have h : narrowedByHost personalResolved (personalResolved.withExpiresAt (some 7)) 100 =
      .ok (personalResolved.withExpiresAt (some 7)) := by decide +kernel
  exact ⟨h, narrowedByHost_narrows serverResolved_personal h⟩

/-- The host returns a role that manages the group 2 without reading anything of it, and a surface
that serves no command. No listing names the group, so the context is accepted: it manages a group
that the resolved one does not, and its surface is smaller. -/
theorem narrowedByHost_accepts_manager :
    ∃ role roles c, Role.new .none .none true = .ok role ∧
      OwnerRoles.forSubject 1 [(2, role)] = .ok roles ∧
      narrowedByHost personalResolved
        ((AuthzContext.serverResolved roles .hostBearer).withServedSurface (.palette [])) 100 =
          .ok c ∧
      c.mayManage 2 = true ∧ personalResolved.mayManage 2 = false ∧
      c.capabilities.servedSurface ≠ personalResolved.capabilities.servedSurface := by
  refine ⟨⟨.none, .none, true, by decide⟩,
    (OwnerRoles.scopedTo 1 1 .personal).withGroupRole 2 ⟨.none, .none, true, by decide⟩,
    ((AuthzContext.serverResolved ((OwnerRoles.scopedTo 1 1 .personal).withGroupRole 2
      ⟨.none, .none, true, by decide⟩) .hostBearer).withServedSurface (.palette [])).withExpiresAt
        (some 100), ?_, ?_, ?_, ?_, ?_, ?_⟩ <;> decide +kernel

end Proxiima.Authz
