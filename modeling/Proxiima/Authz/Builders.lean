import Proxiima.Authz.Context

/-!
# Contexts stay coherent

A context keeps the roles twice, in the open and in the sealed scope, and each builder
updates them by hand. Coherence is what every builder keeps: the two copies are equal, a
narrowed or a forwarded context carries one owner at most, and a Goal principal stands only
in a scope that is neither.
-/

namespace Proxiima.Authz

/-- One step of building a context; authentication seals the context the host returned. -/
inductive Builder where
  | authenticate
  | withAuthenticatedForwardedOwner (port : OwnerAccessPort) (now : ℕ) (owner : Uuid)
  | withServedSurface (surface : ServedSurface)
  | withDefaultOwner (owner : Uuid)
  | narrowedToOwner (owner : Uuid)
  | withHostResolvedRole (group : Uuid) (role : Role)
  | withAuthenticatedGroupRole (port : OwnerAccessPort) (now : ℕ) (group : Uuid)
  | withExpiresAt (expiresAt : Option ℕ)
  | withAuthEpoch (authEpoch : ℕ)
  | withToolScope (toolScope : ToolScope)

def Builder.apply : Builder → AuthzContext → Option AuthzContext
  | authenticate, c => c.sealVerifiedScope.toOption
  | withAuthenticatedForwardedOwner port now owner, c =>
    c.withAuthenticatedForwardedOwner port now owner
  | withServedSurface surface, c => some (c.withServedSurface surface)
  | withDefaultOwner owner, c => c.withDefaultOwner owner
  | narrowedToOwner owner, c => c.narrowedToOwner owner
  | withHostResolvedRole group role, c => c.withHostResolvedRole group role
  | withAuthenticatedGroupRole port now group, c => c.withAuthenticatedGroupRole port now group
  | withExpiresAt expiresAt, c => some (c.withExpiresAt expiresAt)
  | withAuthEpoch authEpoch, c => some (c.withAuthEpoch authEpoch)
  | withToolScope toolScope, c => some (c.withToolScope toolScope)

/-- The contexts that can be built. -/
inductive Built : AuthzContext → Prop where
  | serverResolvedWithWriter (roles : OwnerRoles) (path : AuthPath) (writer : WriterAttribution) :
      Built (.serverResolvedWithWriter roles path writer)
  | fromVerifiedForwardedOwner (subject owner : Uuid) (writer : WriterAttribution) :
      Built (.fromVerifiedForwardedOwner subject owner writer)
  | build {c c' : AuthzContext} (b : Builder) (h : Built c) (hb : b.apply c = some c') : Built c'

/-- What every builder keeps. -/
structure AuthzContext.Coherent (c : AuthzContext) : Prop where
  subject : ∀ roles, c.ownerRoles = some roles → c.identity.subject = some roles.subject
  scope : ∀ s, c.scope = some s → c.ownerRoles = some s.roles
  accessible : ∀ roles, c.ownerRoles = some roles →
    c.identity.accessiblePrincipals = roles.readableOwners .fact
  resolved : c.ownerRoles ≠ none
  confined : ∀ owner, c.ownerScope.confinedTo = some owner →
    ∃ subject role, c.ownerRoles = some (.scopedTo subject owner role)
  forwarded : ∀ owner, c.forwardedOwner = some owner →
    ∀ x role, c.roleForOwner x = some role → x = owner
  goal : ∀ s, c.scope = some s → s.goalPrincipal ≠ none →
    s.selected = none ∧ c.forwardedOwner = none

lemma OwnerScope.narrow_eq {s s' : OwnerScope} {owner : Uuid} (h : s.narrow owner = some s') :
    ∃ role, s.roles.roleFor owner = some role ∧
      s'.roles = .scopedTo s.roles.subject owner role ∧ s'.selected = some owner ∧
      s'.goalPrincipal = none := by
  obtain ⟨role, hrole, rfl⟩ := Option.map_eq_some_iff.1 h
  exact ⟨role, hrole, rfl, rfl, rfl⟩

namespace AuthzContext

variable {c c' : AuthzContext} {owner : Uuid}

/-! ### Narrowing -/

/-- What narrowing does: the role of the one owner stays, and a sealed scope is narrowed with
it. -/
lemma narrowedToOwner_eq (h : c.narrowedToOwner owner = some c') :
    ∃ roles role, c.ownerRoles = some roles ∧ roles.roleFor owner = some role ∧
      c'.ownerRoles = some (.scopedTo roles.subject owner role) ∧
      c'.identity = { c.identity with
        accessiblePrincipals :=
          (OwnerRoles.scopedTo roles.subject owner role).readableOwners .fact } ∧
      c'.capabilities = c.capabilities ∧ c'.forwardedOwner = c.forwardedOwner ∧
      ((∃ confined, c.ownerScope = .unsealed confined ∧ c'.ownerScope = .unsealed (some owner)) ∨
        ∃ s s', c.ownerScope = .sealed s ∧ s.narrow owner = some s' ∧
          c'.ownerScope = .sealed s') := by
  simp only [narrowedToOwner, Option.bind_eq_bind, Option.bind_eq_some_iff, Option.some.injEq] at h
  obtain ⟨roles, hroles, role, hrole, state, hstate, rfl⟩ := h
  refine ⟨roles, role, hroles, hrole, rfl, rfl, rfl, rfl, ?_⟩
  cases hs : c.ownerScope with
  | unsealed confined =>
    rw [hs] at hstate
    exact .inl ⟨confined, rfl, (Option.some.inj hstate).symm⟩
  | sealed s =>
    rw [hs] at hstate
    obtain ⟨s', hs', rfl⟩ := Option.map_eq_some_iff.1 hstate
    exact .inr ⟨s, s', rfl, hs', rfl⟩

lemma scope_eq_some {s : OwnerScope} : c.scope = some s ↔ c.ownerScope = .sealed s := by
  unfold scope
  split <;> rename_i h <;> simp [h]

lemma Coherent.narrowedToOwner (hc : c.Coherent) (h : c.narrowedToOwner owner = some c') :
    c'.Coherent := by
  obtain ⟨roles, role, hroles, hrole, hroles', hid, -, hfwd, hscope⟩ := narrowedToOwner_eq h
  have hrole' : ∀ x r, c'.roleForOwner x = some r → x = owner := by
    intro x r hx
    rw [roleForOwner, hroles'] at hx
    exact (OwnerRoles.roleFor_scopedTo.1 hx).1
  refine ⟨fun r hr => ?_, fun s hs => ?_, fun r hr => ?_, by simp [hroles'], fun o ho => ?_,
    fun o ho x r hx => ?_, fun s hs hg => ?_⟩
  · obtain rfl := Option.mem_unique hroles' hr
    rw [hid]
    exact hc.subject roles hroles
  · rw [scope_eq_some] at hs
    obtain ⟨-, -, h2⟩ | ⟨s₁, s₂, h1, h2, h3⟩ := hscope
    · simp [hs] at h2
    · obtain rfl : s = s₂ := by simpa [hs] using h3
      obtain ⟨role₁, hrole₁, hr₁, -⟩ := OwnerScope.narrow_eq h2
      have heq := hc.scope s₁ (scope_eq_some.2 h1)
      obtain rfl := Option.mem_unique hroles heq
      obtain rfl := Option.mem_unique hrole hrole₁
      rw [hroles', hr₁]
  · obtain rfl := Option.mem_unique hroles' hr
    rw [hid]
  · have : o = owner := by
      obtain ⟨-, -, h2⟩ | ⟨s₁, s₂, -, h2, h3⟩ := hscope
      · simpa [h2, OwnerScopeState.confinedTo, eq_comm] using ho
      · obtain ⟨-, -, -, hsel, -⟩ := OwnerScope.narrow_eq h2
        simpa [h3, OwnerScopeState.confinedTo, hsel, eq_comm] using ho
    exact this ▸ ⟨_, _, hroles'⟩
  · obtain rfl := hrole' x r hx
    exact hc.forwarded o (hfwd ▸ ho) x role (by rw [roleForOwner, hroles]; exact hrole)
  · rw [scope_eq_some] at hs
    obtain ⟨-, -, h2⟩ | ⟨s₁, s₂, -, h2, h3⟩ := hscope
    · simp [hs] at h2
    · obtain rfl : s = s₂ := by simpa [hs] using h3
      obtain ⟨-, -, -, -, hnone⟩ := OwnerScope.narrow_eq h2
      exact absurd hnone hg

/-! ### The other builders -/

lemma Coherent.sealVerifiedScope (hc : c.Coherent) (h : c.sealVerifiedScope = .ok c') :
    c'.Coherent := by
  unfold AuthzContext.sealVerifiedScope at h
  split at h
  swap
  · cases h
  rename_i roles writer hroles hwriter
  dsimp only at h
  generalize hs : (if c.authPath = .hostBearer ∧ c.forwardedOwner = none ∧
    c.ownerScope.confinedTo = none then (OwnerScope.fromVerifiedRoles roles c.identity.expiresAt
      writer).withGoalPrincipal ⟨(OwnerScope.fromVerifiedRoles roles c.identity.expiresAt
        writer).roles.subject⟩ else OwnerScope.fromVerifiedRoles roles c.identity.expiresAt
          writer) = s at h
  have hsroles : s.roles = roles ∧ s.selected = none ∧
      (s.goalPrincipal ≠ none → c.forwardedOwner = none) := by
    subst hs
    split
    · rename_i hpath
      exact ⟨rfl, rfl, fun _ => hpath.2.1⟩
    · exact ⟨rfl, rfl, fun hg => absurd rfl hg⟩
  obtain ⟨hr, hsel, hgoal⟩ := hsroles
  split at h
  · rename_i hconf
    obtain rfl := Except.ok.inj h
    refine ⟨hc.subject, fun s' hs' => ?_, hc.accessible, hc.resolved, fun o ho => ?_, hc.forwarded,
      fun s' hs' hg => ?_⟩
    · obtain rfl := Option.some.inj hs'
      exact hroles.trans (congrArg some hr.symm)
    · simp [OwnerScopeState.confinedTo, hsel] at ho
    · obtain rfl := Option.some.inj hs'
      exact ⟨hsel, hgoal hg⟩
  · rename_i owner hconf
    split at h
    swap
    · cases h
    rename_i s' hs'
    obtain rfl := Except.ok.inj h
    obtain ⟨role, hrole, hroles', hsel', hnone⟩ := OwnerScope.narrow_eq hs'
    obtain ⟨subject, role', hrole'⟩ := hc.confined owner hconf
    -- a confined context has the roles the narrowed scope gets
    have hsame : s'.roles = roles := by
      obtain rfl := Option.mem_unique hroles hrole'
      rw [hr] at hrole hroles'
      rw [hroles', (OwnerRoles.roleFor_scopedTo.1 hrole).2]
      rfl
    refine ⟨hc.subject, fun s'' hs'' => ?_, hc.accessible, hc.resolved, fun o ho => ?_,
      hc.forwarded, fun s'' hs'' hg => ?_⟩
    · obtain rfl := Option.some.inj hs''
      exact hroles.trans (congrArg some hsame.symm)
    · obtain rfl : owner = o := by simpa [OwnerScopeState.confinedTo, hsel'] using ho
      exact ⟨subject, role', hrole'⟩
    · obtain rfl := Option.some.inj hs''
      exact absurd hnone hg

variable {port : OwnerAccessPort}

lemma Coherent.withAuthenticatedForwardedOwner {now : ℕ}
    (h : c.withAuthenticatedForwardedOwner port now owner = some c') : c'.Coherent := by
  simp only [AuthzContext.withAuthenticatedForwardedOwner, Option.bind_eq_bind,
    Option.bind_eq_some_iff] at h
  obtain ⟨scope, hscope, h⟩ := h
  split at h
  · cases h
  rename_i hcond
  simp only [Option.bind_eq_some_iff] at h
  obtain ⟨subject, hsubject, isF, hisF, h⟩ := h
  split at h
  · cases h
  simp only [Option.bind_eq_some_iff] at h
  obtain ⟨o, ho, role, hrole, h⟩ := h
  refine Coherent.narrowedToOwner ?_ h
  have hfwd : c.forwardedOwner = some owner := by
    by_contra hne
    simp [hne] at hcond
  refine ⟨fun roles hroles => ?_, fun s hs => ?_, fun roles hroles => ?_, by simp [withRoles],
    fun o ho => ?_, fun o ho x r hx => ?_, fun s hs hg => ?_⟩
  · obtain rfl := Option.some.inj hroles
    exact hsubject
  · obtain rfl := Option.some.inj hs
    rfl
  · obtain rfl := Option.some.inj hroles
    rfl
  · simp [OwnerScopeState.confinedTo, OwnerScope.fromVerifiedRoles] at ho
  · obtain rfl : owner = o := Option.mem_unique hfwd ho
    exact (@OwnerRoles.roleFor_scopedTo owner subject x role.role r).1 hx |>.1
  · obtain rfl := Option.some.inj hs
    exact absurd rfl hg

lemma Coherent.withHostResolvedRole (hc : c.Coherent) {group : Uuid} {role : Role}
    (h : c.withHostResolvedRole group role = some c') : c'.Coherent := by
  unfold AuthzContext.withHostResolvedRole at h
  split at h
  · cases h
  rename_i hcond
  simp only [not_or, not_not] at hcond
  obtain ⟨roles, hroles, rfl⟩ := Option.map_eq_some_iff.1 h
  refine ⟨fun r hr => ?_, fun s hs => ?_, fun r hr => ?_, by simp [withRoles], fun o ho => ?_,
    fun o ho => ?_, fun s hs => ?_⟩
  · obtain rfl := Option.some.inj hr
    rw [OwnerRoles.subject_withGroupRole]
    exact hc.subject roles hroles
  · simp [scope_eq_some, withRoles, hcond.1] at hs
  · obtain rfl := Option.some.inj hr
    rfl
  · simp [withRoles, hcond.1, OwnerScopeState.confinedTo] at ho
  · simp [withRoles, hcond.2] at ho
  · simp [scope_eq_some, withRoles, hcond.1] at hs

lemma Coherent.withAuthenticatedGroupRole (hc : c.Coherent) {now : ℕ} {group : Uuid}
    (h : c.withAuthenticatedGroupRole port now group = some c') : c'.Coherent := by
  unfold AuthzContext.withAuthenticatedGroupRole at h
  split at h
  · cases h
  rename_i hfwd
  simp only [Option.bind_eq_bind, Option.bind_eq_some_iff] at h
  obtain ⟨s, hs, h⟩ := h
  split at h
  · cases h
  simp only [Option.bind_eq_some_iff, Option.some.injEq] at h
  obtain ⟨subject, hsubject, o, ho, role, hrole, s', hs', roles, hroles, rfl⟩ := h
  unfold OwnerScope.addGroupRole at hs'
  split at hs'
  · cases hs'
  obtain rfl := Option.some.inj hs'
  have heq := Option.some.inj (hroles.symm.trans (hc.scope s hs))
  refine ⟨fun r hr => ?_, fun s' hs' => ?_, fun r hr => ?_, by simp [withRoles], fun o ho => ?_,
    fun o ho => ?_, fun s' hs' hg => ?_⟩
  · obtain rfl := Option.some.inj hr
    rw [OwnerRoles.subject_withGroupRole]
    exact hc.subject roles hroles
  · obtain rfl := Option.some.inj hs'
    simp [withRoles, heq]
  · obtain rfl := Option.some.inj hr
    rfl
  · simp [OwnerScopeState.confinedTo] at ho
  · simp [withRoles] at ho
    simp [ho] at hfwd
  · obtain rfl := Option.some.inj hs'
    exact ⟨rfl, (hc.goal s hs hg).2⟩

/-- A change of the identity's times, of the capabilities or of the default owner. -/
lemma Coherent.congr (hc : c.Coherent) (hroles : c'.ownerRoles = c.ownerRoles)
    (hscope : c'.ownerScope = c.ownerScope) (hfwd : c'.forwardedOwner = c.forwardedOwner)
    (hid : c'.identity.accessiblePrincipals = c.identity.accessiblePrincipals)
    (hsubject : c'.identity.subject = c.identity.subject) : c'.Coherent := by
  obtain ⟨h1, h2, h3, h4, h5, h6, h7⟩ := hc
  constructor <;>
    simp only [AuthzContext.scope, roleForOwner, hroles, hscope, hfwd, hid, hsubject] <;> assumption

lemma coherent_serverResolvedWithWriter (roles : OwnerRoles) (path : AuthPath)
    (writer : WriterAttribution) : (serverResolvedWithWriter roles path writer).Coherent := by
  refine ⟨fun r hr => ?_, fun s hs => ?_, fun r hr => ?_, by simp [serverResolvedWithWriter],
    fun o ho => ?_, fun o ho => ?_, fun s hs => ?_⟩
  · obtain rfl := Option.some.inj hr
    rfl
  · cases hs
  · obtain rfl := Option.some.inj hr
    rfl
  · cases ho
  · cases ho
  · cases hs

lemma coherent_fromVerifiedForwardedOwner (subject owner : Uuid) (writer : WriterAttribution) :
    (fromVerifiedForwardedOwner subject owner writer).Coherent := by
  refine ⟨fun r hr => ?_, fun s hs => ?_, fun r hr => ?_, by
    simp [fromVerifiedForwardedOwner, serverResolvedWithWriter], fun o ho => ?_,
    fun o _ x role hx => ?_, fun s hs => ?_⟩
  · obtain rfl := Option.some.inj hr
    rfl
  · cases hs
  · obtain rfl := Option.some.inj hr
    rfl
  · cases ho
  · cases hx
  · cases hs

end AuthzContext

/-! ### Every built context -/

variable {c c' : AuthzContext}

/-- One builder keeps coherence. -/
lemma Builder.coherent {b : Builder} (hc : c.Coherent) (h : b.apply c = some c') : c'.Coherent := by
  cases b with
  | authenticate =>
    refine hc.sealVerifiedScope ?_
    simp only [Builder.apply] at h
    cases hs : c.sealVerifiedScope <;> simp_all [Except.toOption]
  | withAuthenticatedForwardedOwner port now owner => exact .withAuthenticatedForwardedOwner h
  | withServedSurface surface =>
    obtain rfl := Option.some.inj h
    exact hc.congr rfl rfl rfl rfl rfl
  | withDefaultOwner owner =>
    obtain ⟨-, -, rfl⟩ := Option.map_eq_some_iff.1 h
    exact hc.congr rfl rfl rfl rfl rfl
  | narrowedToOwner owner => exact hc.narrowedToOwner h
  | withHostResolvedRole group role => exact hc.withHostResolvedRole h
  | withAuthenticatedGroupRole port now group => exact hc.withAuthenticatedGroupRole h
  | withExpiresAt expiresAt | withAuthEpoch authEpoch | withToolScope toolScope =>
    obtain rfl := Option.some.inj h
    exact hc.congr rfl rfl rfl rfl rfl

/-- Every built context is coherent. -/
theorem Built.coherent (h : Built c) : c.Coherent := by
  induction h with
  | serverResolvedWithWriter roles path writer =>
    exact AuthzContext.coherent_serverResolvedWithWriter roles path writer
  | fromVerifiedForwardedOwner subject owner writer =>
    exact AuthzContext.coherent_fromVerifiedForwardedOwner subject owner writer
  | build b _ hb ih => exact b.coherent ih hb

/-! ### Narrowing steps -/

/-- A narrowing or a served-surface step. -/
inductive NarrowStep : AuthzContext → AuthzContext → Prop where
  | narrowedToOwner {c c' : AuthzContext} (owner : Uuid) (h : c.narrowedToOwner owner = some c') :
      NarrowStep c c'
  | withServedSurface (c : AuthzContext) (surface : ServedSurface) :
      NarrowStep c (c.withServedSurface surface)

/-- Every role and every surface key of `c'` is one of `c`. -/
structure AuthzContext.Within (c' c : AuthzContext) : Prop where
  roles : ∀ owner role, c'.roleForOwner owner = some role → c.roleForOwner owner = some role
  keys : ∀ key declared, c'.capabilities.servedSurface.admits key declared = true →
    c.capabilities.servedSurface.admits key declared = true

lemma NarrowStep.within (h : NarrowStep c c') : c'.Within c := by
  cases h with
  | narrowedToOwner owner h =>
    obtain ⟨roles, role, hroles, hrole, hroles', -, hcap, -⟩ := AuthzContext.narrowedToOwner_eq h
    refine ⟨fun x r hx => ?_, fun key declared hk => by rwa [hcap] at hk⟩
    rw [AuthzContext.roleForOwner, hroles'] at hx
    obtain ⟨rfl, rfl⟩ := OwnerRoles.roleFor_scopedTo.1 hx
    rw [AuthzContext.roleForOwner, hroles]
    exact hrole
  | withServedSurface surface =>
    refine ⟨fun x r hx => hx, fun key declared hk => ?_⟩
    simp only [AuthzContext.withServedSurface] at hk
    split at hk <;> rename_i hs <;> rw [hs]
    · simp [ServedSurface.admits]
    · exact (ServedSurface.admits_of_intersect hk).1

/-- No sequence of narrowing and served-surface steps adds a role or a key. -/
lemma within_of_narrowSteps (h : Relation.ReflTransGen NarrowStep c c') : c'.Within c := by
  induction h with
  | refl => exact ⟨fun _ _ h => h, fun _ _ h => h⟩
  | tail _ hstep ih =>
    exact ⟨fun o r h => ih.roles o r (hstep.within.roles o r h),
      fun k d h => ih.keys k d (hstep.within.keys k d h)⟩

/-- **A context is what its roles say**: in every context that can be built, the sealed scope
holds the context's roles and reads, until it expires, the owners whose role reads Facts; a
narrowed context carries one owner and no later narrowing or served-surface step gives it
more; a forwarded one carries the forwarded owner only; and a Goal principal stands in
neither. -/
theorem built_scope_coherent {c : AuthzContext} (h : Built c) :
    (∀ s, c.scope = some s →
      c.ownerRoles = some s.roles ∧
      (∀ now owner, owner ∈ s.readableOwners now .fact ↔ s.isExpired now = false ∧
        ∃ role, c.roleForOwner owner = some role ∧ role.mayRead .fact = true) ∧
      (s.goalPrincipal ≠ none → s.selected = none ∧ c.forwardedOwner = none)) ∧
    (∀ owner, c.ownerScope.confinedTo = some owner ∨ c.forwardedOwner = some owner →
      ∀ x role, c.roleForOwner x = some role → x = owner) ∧
    ∀ owner c' c'', c.narrowedToOwner owner = some c' → Relation.ReflTransGen NarrowStep c' c'' →
      (∀ x role, c''.roleForOwner x = some role → x = owner) ∧ c'.Within c ∧ c''.Within c' := by
  have hc := h.coherent
  refine ⟨fun s hs => ⟨hc.scope s hs, fun now owner => ?_, hc.goal s hs⟩,
    fun owner ho x role hx => ?_, fun owner c' c'' hn hsteps => ⟨fun x role hx => ?_, ?_, ?_⟩⟩
  · simp only [OwnerScope.readableOwners, AuthzContext.roleForOwner, hc.scope s hs,
      Option.bind_some]
    cases s.isExpired now <;> simp [OwnerRoles.mem_readableOwners]
  · obtain ho | ho := ho
    · obtain ⟨subject, r, hr⟩ := hc.confined owner ho
      rw [AuthzContext.roleForOwner, hr] at hx
      exact (OwnerRoles.roleFor_scopedTo.1 hx).1
    · exact hc.forwarded owner ho x role hx
  · obtain ⟨roles, r, -, -, hroles', -⟩ := AuthzContext.narrowedToOwner_eq hn
    have hx' := (within_of_narrowSteps hsteps).roles x role hx
    rw [AuthzContext.roleForOwner, hroles'] at hx'
    exact (OwnerRoles.roleFor_scopedTo.1 hx').1
  · exact (NarrowStep.narrowedToOwner owner hn).within
  · exact within_of_narrowSteps hsteps

/-- The personal owner of subject `1`, authenticated by the host. -/
def personalContext (expiresAt : Option ℕ) : AuthzContext :=
  { AuthzContext.serverResolvedWithWriter (.scopedTo 1 1 .personal) .hostBearer ⟨1, none⟩ with
    identity := { (AuthzContext.serverResolvedWithWriter (.scopedTo 1 1 .personal) .hostBearer
      ⟨1, none⟩).identity with expiresAt := expiresAt }
    ownerScope := .sealed ⟨.scopedTo 1 1 .personal, ⟨1, none⟩, expiresAt, none, some ⟨1⟩⟩ }

lemma built_personalContext (expiresAt : Option ℕ) : Built (personalContext expiresAt) := by
  refine .build .authenticate (.build (.withExpiresAt expiresAt)
    (.serverResolvedWithWriter (.scopedTo 1 1 .personal) .hostBearer ⟨1, none⟩) rfl) rfl

theorem built_scope_coherent_personal :
    Built (personalContext none) ∧ ∀ owner c' c'',
      (personalContext none).narrowedToOwner owner = some c' →
      Relation.ReflTransGen NarrowStep c' c'' →
      (∀ x role, c''.roleForOwner x = some role → x = owner) ∧
        c'.Within (personalContext none) ∧ c''.Within c' :=
  ⟨built_personalContext none, (built_scope_coherent (built_personalContext none)).2.2⟩

/-- An expired scope reads no owner, whatever the roles it holds. -/
theorem expired_scope_reads_nothing :
    ∃ c s, Built c ∧ c.scope = some s ∧ s.readableOwners 5 .fact = [] ∧
      c.roleForOwner 1 = some .personal ∧ Role.personal.mayRead .fact = true :=
  ⟨personalContext (some 5), _, built_personalContext _, rfl, rfl, rfl, rfl⟩

end Proxiima.Authz
