import Proxiima.Groups.MembershipVerified

/-!
# Histories of membership commands

From the engine's decision to the commit: which owner the permit names, which settings the
transaction runs under and whether the caller is named. With that every command is verified,
and what a committed change found and left can be read off the history of any interleaving.
-/

namespace Proxiima.Groups

open ReadCommitted Prog Setting Authz Sql

variable {hash : LockName → ℕ} {c : Call} {group member : Uuid} {W : Key → Prop}
variable {P : MemberSide → Prop}

/-! ### The engine's decision -/

section

variable (hP : (membershipSetting hash).Stable P)
include hP

lemma failIf_spec (φ : Prop) [Decidable φ]
    (x : MembershipError) :
    (membershipSetting hash).Triple P (failIf φ x) (fun _ τ => P τ ∧ ¬ φ) refused :=
  Triple.failIf hP fun _ hi _ _ => refused_of_inv _ _ hi

lemma authorizeOwnerAdmin_spec (c : Call) (owner : Uuid) :
    (membershipSetting hash).Triple P (c.authorizeOwnerAdmin owner)
      (fun resolved τ => P τ ∧ (c.authz.roleForOwner resolved).any Role.administers = true)
      refused := by
  refine (failIf_spec hP _ _).bind fun _ => ?_
  refine (failIf_spec hP.pure _ _).bind fun _ => ?_
  refine (failIf_spec hP.pure.pure _ _).bind fun _ => ?_
  split
  · exact Triple.fail hP.pure.pure.pure fun _ hi _ => refused_of_inv _ _ hi
  · refine (failIf_spec hP.pure.pure.pure _ _).bind fun _ => ?_
    refine (failIf_spec hP.pure.pure.pure.pure _ _).bind fun _ => ?_
    exact Triple.ret hP.pure.pure.pure.pure.pure fun τ _ h =>
      ⟨h.1.1.1.1.1, by simpa using h.1.2⟩

lemma authorizeMembershipDetach_spec (c : Call)
    (group member : Uuid) :
    (membershipSetting hash).Triple P (c.authorizeMembershipDetach group member)
      (fun r τ => P τ ∧ (c.authz.roleForOwner r.1).any Role.administers = true ∧
        (c.authz.mayManage group = true → r.2 = .parent)) refused := by
  unfold Call.authorizeMembershipDetach
  split
  · refine (authorizeOwnerAdmin_spec hP c group).bind fun owner => ?_
    exact Triple.ret hP.pure fun τ _ h => ⟨h.1, h.2, fun _ => rfl⟩
  · rename_i hno
    split
    · refine (authorizeOwnerAdmin_spec hP c member).bind fun owner => ?_
      exact Triple.ret hP.pure fun τ _ h => ⟨h.1, h.2, fun hyes => absurd hyes hno⟩
    · exact Triple.fail hP fun _ hi _ => refused_of_inv _ _ hi

lemma validateMembershipPermit_spec
    (p : MembershipWritePermit) (group member : Uuid) :
    (membershipSetting hash).Triple P (validateMembershipPermit p group member)
      (fun _ τ => P τ ∧ (p.endpointAuthority = .parent → p.owner = group)) refused := by
  unfold validateMembershipPermit
  cases hp : p.endpointAuthority with
  | parent =>
    refine (failIf_spec hP _ _).bind fun _ => ?_
    exact (failIf_spec hP.pure _ _).post fun _ _ h =>
      ⟨h.1.1, fun _ => not_not.1 h.1.2⟩
  | member =>
    refine (failIf_spec hP _ _).bind fun _ => ?_
    exact (failIf_spec hP.pure _ _).post fun _ _ h =>
      ⟨h.1.1, fun hparent => by cases hparent⟩

lemma validateParentMembershipPermit_spec
    (p : MembershipWritePermit) (group : Uuid) :
    (membershipSetting hash).Triple P (validateParentMembershipPermit p group)
      (fun _ τ => P τ ∧ p.owner = group) refused := by
  refine (failIf_spec hP _ _).bind fun _ => ?_
  refine (failIf_spec hP.pure _ _).bind fun _ => ?_
  exact (failIf_spec hP.pure.pure _ _).post fun _ _ h =>
    ⟨h.1.1.1, not_not.1 h.1.2⟩

/-- The settings are those of the call's scope, which has not expired. -/
def Call.Opened (c : Call) (S : OwnerSettings) : Prop :=
  ∃ scope, c.authz.scope = some scope ∧ scope.isExpired c.now = false ∧ S = .bind scope c.now

lemma beginOwnerTransaction_spec (c : Call) :
    (membershipSetting hash).Triple P c.beginOwnerTransaction (fun S τ => P τ ∧ c.Opened S)
      refused := by
  unfold Call.beginOwnerTransaction
  split
  · exact Triple.fail hP fun _ hi _ => refused_of_inv _ _ hi
  · rename_i scope hscope
    refine (failIf_spec hP _ _).bind fun _ => ?_
    exact Triple.ret hP.pure fun τ _ h => ⟨h.1, scope, hscope, by simpa using h.2, rfl⟩

end

lemma Call.Opened.readsGroup {S : OwnerSettings} (h : c.Opened S) (hr : c.Reads group) :
    S.readsGroup group = true := by
  obtain ⟨scope, hscope, -, rfl⟩ := h
  obtain ⟨scope', hscope', hmem⟩ := hr
  obtain rfl := Option.mem_unique hscope hscope'
  simp [OwnerSettings.readsGroup, OwnerSettings.bind, hmem]

/-- Who administers an owner reads it. -/
lemma Call.reads_of_administers {S : OwnerSettings} (h : c.Opened S)
    (hadm : (c.authz.roleForOwner group).any Role.administers = true) : c.Reads group := by
  obtain ⟨scope, hscope, hexp, rfl⟩ := h
  obtain ⟨role, hrole, hadm⟩ := (Option.any_eq_true _ _).1 hadm
  rw [AuthzContext.roleForOwner, c.built.coherent.scope scope hscope, Option.bind_some] at hrole
  refine ⟨scope, hscope, ?_⟩
  rw [OwnerScope.readableOwners, hexp, if_neg (by simp), OwnerRoles.mem_readableOwners]
  refine ⟨role, hrole, ?_⟩
  have hwrite : AccessKind.goal.rank ≤ role.write.rank := of_decide_eq_true hadm
  have hread : AccessKind.fact.rank ≤ role.read.rank :=
    (show AccessKind.fact.rank ≤ AccessKind.goal.rank by decide).trans
      (hwrite.trans role.write_le)
  exact decide_eq_true hread

/-! ### Every command -/

/-- The sides of a transaction that has met no obligation yet. -/
abbrev Begun (hash : LockName → ℕ) (W : Key → Prop) : MemberSide → Prop :=
  At hash (Pending hash [] []) W

lemma stable_begun (hash : LockName → ℕ) (W : Key → Prop) :
    (membershipSetting hash).Stable (Begun hash W) :=
  stable_at (carried_pending [] [])

/-- A change of the call that is about to commit. -/
def Ready (hash : LockName → ℕ) (c : Call) (group member : Uuid) (τ : MemberSide) : Prop :=
  ∃ S caller, Guarded hash S group member caller τ ∧
    (c.Reads group → S.readsGroup group = true) ∧
    (c.authz.mayManage group = true →
      S.readsGroup group = true ∧ caller = c.authz.identity.subject)

lemma caller_withParentCaller {p : MembershipWritePermit} (h : p.endpointAuthority = .parent)
    (hsubject : c.authz.identity.subject ≠ none) :
    (c.withParentCaller p).caller = c.authz.identity.subject := by
  unfold Call.withParentCaller
  obtain ⟨x, hx⟩ := Option.ne_none_iff_exists'.1 hsubject
  rw [h, hx]

@[simp] lemma endpoint_withParentCaller (c : Call) (p : MembershipWritePermit) :
    (c.withParentCaller p).endpointAuthority = p.endpointAuthority := by
  unfold Call.withParentCaller
  split <;> rfl

@[simp] lemma owner_withParentCaller (c : Call) (p : MembershipWritePermit) :
    (c.withParentCaller p).owner = p.owner := by
  unfold Call.withParentCaller
  split <;> rfl

lemma subject_ne_none (c : Call) : c.authz.identity.subject ≠ none := by
  obtain ⟨roles, hroles⟩ := Option.ne_none_iff_exists'.1 c.built.coherent.resolved
  simp [c.built.coherent.subject roles hroles]

/-- The last part of every verb that goes through `manager_preserving_change`. -/
lemma managed_spec (p : MembershipWritePermit) {change : OwnerSettings → MemberProgram Unit}
    (hadm : (c.authz.roleForOwner p.owner).any Role.administers = true)
    (hparent : c.authz.mayManage group = true → p.endpointAuthority = .parent ∧ p.owner = group)
    (hchange : ∀ S, Changes hash group member (change S)) :
    (membershipSetting hash).Triple (Begun hash Nothing)
      (do
        let S ← c.beginOwnerTransaction
        managerPreservingChange hash S group member (c.withParentCaller p).caller (change S))
      (fun _ => Ready hash c group member) refused := by
  refine (beginOwnerTransaction_spec (stable_begun hash _) c).bind fun S => ?_
  refine Triple.of_pure (fun _ h => h.2) fun hopened => ?_
  refine (managerPreservingChange_spec S _ (hchange S)).conseq (fun _ h => h.1) fun _ τ h => ?_
  refine ⟨S, _, h, fun hr => hopened.readsGroup hr, fun hman => ?_⟩
  obtain ⟨hend, rfl⟩ := hparent hman
  exact ⟨hopened.readsGroup (Call.reads_of_administers hopened hadm),
    caller_withParentCaller hend (subject_ne_none c)⟩

theorem removeMember_spec (c : Call) (group member : Uuid) :
    (membershipSetting hash).Triple (Begun hash Nothing)
      (removeMember hash c group member) (fun _ => Ready hash c group member) refused := by
  have hP := stable_begun hash Nothing
  refine (authorizeMembershipDetach_spec hP c group member).bind fun r => ?_
  obtain ⟨owner, endpoint⟩ := r
  refine Triple.of_pure (fun _ h => h.2) fun hdecided => ?_
  refine ((beginOwnerTransaction_spec hP c).pre fun _ h => h.1).bind fun S => ?_
  refine (Triple.look hP.pure).bind fun v => ?_
  refine (Triple.forM (P := fun _ => _) hP.pure (fun relation _ =>
    (failIf_spec hP.pure _ _).post fun _ _ h => h.1) _).bind fun _ => ?_
  refine (validateMembershipPermit_spec hP.pure _ group member).bind fun _ => ?_
  refine Triple.of_pure (fun _ h => h.2) fun howner => ?_
  refine (managed_spec ⟨owner, group, c.memberManageAuthority member, endpoint, none⟩ hdecided.1
    (fun hman => ?_) fun S => detachAuthorized_changes S none _ _).pre fun _ h => h.1.1
  exact ⟨hdecided.2 hman, by simpa using howner (by simpa using hdecided.2 hman)⟩

theorem removeMemberRelation_spec (c : Call) (group member : Uuid) (relation : Relation) :
    (membershipSetting hash).Triple (Begun hash Nothing)
      (removeMemberRelation hash c group member relation)
      (fun _ => Ready hash c group member) refused := by
  have hP := stable_begun hash Nothing
  refine (authorizeMembershipDetach_spec hP c group member).bind fun r => ?_
  obtain ⟨owner, endpoint⟩ := r
  refine Triple.of_pure (fun _ h => h.2) fun hdecided => ?_
  refine ((failIf_spec hP _ _).pre fun _ h => h.1).bind fun _ => ?_
  refine (validateMembershipPermit_spec hP.pure _ group member).bind fun _ => ?_
  refine Triple.of_pure (fun _ h => h.2) fun howner => ?_
  refine (managed_spec ⟨owner, group, c.memberManageAuthority member, endpoint, none⟩ hdecided.1
    (fun hman => ?_) fun S => detachAuthorized_changes S (some relation) _ _).pre fun _ h => h.1.1
  exact ⟨hdecided.2 hman, by simpa using howner (by simpa using hdecided.2 hman)⟩

theorem replaceMemberRelation_spec (c : Call) (group member : Uuid) (old new : Relation) :
    (membershipSetting hash).Triple (Begun hash Nothing)
      (replaceMemberRelation hash c group member old new)
      (fun _ τ => Ready hash c group member τ ∧ c.authz.mayManage group = true) refused := by
  have hP := stable_begun hash Nothing
  refine (authorizeOwnerAdmin_spec hP c group).bind fun owner => ?_
  refine Triple.of_pure (fun _ h => h.2) fun hadm => ?_
  refine ((failIf_spec hP _ _).pre fun _ h => h.1).bind fun _ => ?_
  refine Triple.of_pure (fun _ h => h.2) fun hman => ?_
  refine (failIf_spec hP.pure _ _).bind fun _ => ?_
  refine (failIf_spec hP.pure.pure _ _).bind fun _ => ?_
  refine (failIf_spec hP.pure.pure.pure _ _).bind fun _ => ?_
  refine (validateParentMembershipPermit_spec hP.pure.pure.pure.pure _ group).bind fun _ => ?_
  refine Triple.of_pure (fun _ h => h.2) fun howner => ?_
  refine (managed_spec ⟨owner, group, c.memberManageAuthority member, .parent, none⟩ hadm
    (fun _ => ⟨rfl, by simpa using howner⟩)
    fun S => replaceGroupMemberRelation_changes S old new).conseq (fun _ h => h.1.1.1.1.1)
    fun _ τ h => ⟨h, by simpa using hman⟩

/-! ### Additions and the platform's own writes -/

def Anything : Key → Prop := fun _ => True

lemma execute_spec (rows : Tables → List RowChange) :
    (membershipSetting hash).Triple (Begun hash Anything) (execute hash rows)
      (fun _ => Begun hash Anything) refused := by
  have hP := stable_begun hash Anything
  refine (Triple.look hP).bind fun v => ?_
  refine lift_spec (within_changeCounted hash (fun _ _ => trivial) fun c _ => ?_)
    (changeCounted_spec (rows v))
  cases c <;> trivial

lemma insertMembership_spec (S : OwnerSettings) (relation : Relation) :
    (membershipSetting hash).Triple (Begun hash Anything)
      (insertMembership hash S group member relation)
      (fun _ => Begun hash Anything) refused := by
  refine (failIf_spec (stable_begun hash _) _ _).bind fun _ => ?_
  exact (execute_spec _).pre fun _ h => h.1

theorem addGroupMemberAuthorized_spec (S : OwnerSettings) (relation : Relation)
    (memberAuthority : MembershipMemberAuthority) :
    (membershipSetting hash).Triple (Begun hash Anything)
      (addGroupMemberAuthorized hash S group member relation memberAuthority)
      (fun _ => Begun hash Anything) refused := by
  have hP := stable_begun hash Anything
  refine (lockGroupMembershipWriteTx_spec (carried_pending [] []) S group member).bind
    fun memberIsGroup => ?_
  refine ((execute_spec _).pre fun _ h => ⟨h.1.1.1, h.2⟩).bind fun _ => ?_
  cases memberIsGroup with
  | true =>
    refine (failIf_spec hP _ _).bind fun _ => ?_
    refine (Triple.look hP.pure).bind fun v => ?_
    split
    · split
      · exact Triple.ret hP.pure fun _ _ h => h.1
      · exact Triple.fail hP.pure fun _ hi _ => refused_of_inv _ _ hi
    · refine (failIf_spec hP.pure _ _).bind fun _ => ?_
      refine ((execute_spec _).pre fun _ h => h.1.1).bind fun inserted => ?_
      exact (failIf_spec hP _ _).post fun _ _ h => h.1
  | false =>
    exact (insertMembership_spec S relation).bind fun _ => Triple.ret hP fun _ _ h => h

theorem addMember_spec (c : Call) (group member : Uuid) (relation : Relation) :
    (membershipSetting hash).Triple (Begun hash Nothing)
      (addMember hash c group member relation)
      (fun _ => Begun hash Anything) refused := by
  have hP := stable_begun hash Nothing
  refine (authorizeOwnerAdmin_spec hP c group).bind fun owner => ?_
  refine (failIf_spec hP.pure _ _).bind fun _ => ?_
  refine (failIf_spec hP.pure.pure _ _).bind fun _ => ?_
  refine (validateParentMembershipPermit_spec hP.pure.pure.pure _ group).bind fun _ => ?_
  refine (beginOwnerTransaction_spec hP.pure.pure.pure.pure c).bind fun S => ?_
  exact (addGroupMemberAuthorized_spec S relation _).pre fun _ h =>
    h.1.1.1.1.1.mono fun _ _ => trivial

lemma within_runStatement (statement : Statement) :
    (runStatement hash statement).Within Anything := by
  cases statement with
  | change rows =>
    refine passive_view.within.bind fun v => ?_
    refine (within_changeRows hash fun c _ => ?_).bind fun es =>
      within_forM fun e _ => within_groupProjectionAfterWrite hash (fun _ _ => trivial) e
    cases c <;> trivial
  | lockRequest left right =>
    cases right with
    | none => exact (passive_lockGroupTree hash left).within
    | some right => exact (passive_lockRequest left right).within
  | lockAuthority owners subjects =>
    exact ((passive_forM (fun _ => passive_lockName hash _) _).bind fun _ =>
      passive_forM (fun _ => passive_lockName hash _) _).within

theorem host_spec (statements : List Statement) :
    (membershipSetting hash).Triple (Begun hash Anything)
      ((runStatements hash statements).mapError .database)
      (fun _ => Begun hash Anything) refused := by
  have hC : Carried hash (Pending hash [] []) := carried_pending _ _
  exact lift_spec (within_forM fun s _ => within_runStatement s)
    (Triple.forM (P := fun _ => Pending hash [] []) hC.stable (fun s _ => runStatement_spec s) _)

/-! ### Every history -/

variable {cmd : Command} {τ : MemberSide}

lemma at_of_fresh (h : (membershipSetting hash).Fresh cmd τ) : Begun hash Nothing τ := by
  have hfresh : (setting hash).Fresh [] ((embedding hash).side τ) :=
    ⟨sound_of_run h.inv, rfl, by simp [Embedding.side, h.since], h.writes, h.held⟩
  refine ⟨pending_of_fresh hfresh, fun k hk => ?_⟩
  simp [h.writes, List.keys] at hk

/-- What the program of a command ends with. -/
def Ended (hash : LockName → ℕ) : Command → MemberSide → Prop
  | .host _ => Begun hash Anything
  | .addMember .. => Begun hash Anything
  | .removeMember c group member => Ready hash c group member
  | .removeMemberRelation c group member _ => Ready hash c group member
  | .replaceMemberRelation c group member _ _ => fun τ =>
    Ready hash c group member τ ∧ c.authz.mayManage group = true

theorem run_spec (cmd : Command) :
    (membershipSetting hash).Triple (Begun hash Nothing) (cmd.run hash)
      (fun _ => Ended hash cmd) refused := by
  cases cmd with
  | host statements => exact (host_spec statements).pre fun _ h => h.mono fun _ _ => trivial
  | addMember c group member relation => exact addMember_spec c group member relation
  | removeMember c group member => exact removeMember_spec c group member
  | removeMemberRelation c group member relation =>
    exact removeMemberRelation_spec c group member relation
  | replaceMemberRelation c group member old new =>
    exact replaceMemberRelation_spec c group member old new

lemma Ready.preserves (h : Ready hash c group member τ) (hi : Sound τ.db) :
    Sound τ.view ∧ Preserves c group member τ.db τ.view := by
  obtain ⟨S, caller, hguarded, hreads, hcaller⟩ := h
  exact hguarded.preserves hi hreads hcaller

lemma Ended.effect (h : Ended hash cmd τ) (hi : Sound τ.db) :
    Sound τ.view ∧ cmd.Effect τ.db τ.view := by
  cases cmd with
  | host | addMember => exact ⟨h.1.sound hi, trivial⟩
  | removeMember | removeMemberRelation => exact Ready.preserves h hi
  | replaceMemberRelation c group member old new =>
    exact ⟨(Ready.preserves h.1 hi).1, (Ready.preserves h.1 hi).2, h.2⟩

theorem membership_verified (hash : LockName → ℕ) (cmd : Command) :
    (membershipSetting hash).Verified cmd := by
  refine (((run_spec cmd).pre fun τ h => at_of_fresh h).keeps
    (F := fun τ => τ.cmd = cmd) fun _ _ h hev => hev.cmd.trans h).conseq
    (fun τ h => ⟨h, h.cmd⟩) (fun _ _ h => h) |>.mono (fun r τ hi h => ?_) fun _ _ _ hx => hx
  obtain ⟨hsound, heffect⟩ := h.1.effect (sound_of_run hi)
  refine .step hi rfl ⟨hsound, fun _ => ?_⟩
  have hcmd : τ.cmd = cmd := h.2
  rw [← hcmd] at heffect
  exact heffect

abbrev MemberState := State Row Lock MembershipError ℕ Unit Command Unit

variable {s : MemberState} {n : ℕ} {e : MemberEntry}

theorem run_of_reachable (hash : LockName → ℕ) (h : Reachable (membershipSystem hash) () s) :
    Run Effect s.db s.hist :=
  (Setting.good_of_reachable (S := membershipSetting hash) Run.nil (membership_verified hash) h).inv

/-- The call, the group and the member of a change through `manager_preserving_change`. -/
def Command.managed : Command → Option (Call × Uuid × Uuid)
  | removeMember c group member => some (c, group, member)
  | removeMemberRelation c group member _ => some (c, group, member)
  | replaceMemberRelation c group member _ _ => some (c, group, member)
  | host _ => none
  | addMember .. => none

lemma Command.Effect.preserves {v v' : Tables} (h : cmd.Effect v v')
    (hc : cmd.managed = some (c, group, member)) : Preserves c group member v v' := by
  cases cmd with
  | host | addMember => cases hc
  | removeMember c' g m | removeMemberRelation c' g m relation =>
    obtain ⟨rfl, rfl, rfl⟩ := by simpa [Command.managed] using hc
    exact h
  | replaceMemberRelation c' g m old new =>
    obtain ⟨rfl, rfl, rfl⟩ := by simpa [Command.managed] using hc
    exact h.1

lemma effect_of_reachable (h : Reachable (membershipSystem hash) () s)
    (he : answer s.hist n = some e) (hok : e.result = .ok ()) :
    Sound (stateAt s.hist s.db n) ∧ Sound (stateAt s.hist s.db (n + 1)) ∧
      e.cmd.Effect (stateAt s.hist s.db n) (stateAt s.hist s.db (n + 1)) := by
  obtain ⟨older, -, -, hbefore, hrun, heff⟩ := (run_of_reachable hash h).effect_of_answer he
  rw [← hbefore]
  exact ⟨sound_of_run hrun, heff.sound, heff.committed hok⟩

/-- **Managers are kept**: a committed removal or replacement whose caller's scope shows the
group leaves every group that had a manager with one, the groups above included. -/
theorem managers_kept (hash : LockName → ℕ) (h : Reachable (membershipSystem hash) () s)
    (he : answer s.hist n = some e) (hok : e.result = .ok ())
    (hc : e.cmd.managed = some (c, group, member)) (hreads : c.Reads group) (g : Uuid)
    (hm : ∃ u, IsManager (stateAt s.hist s.db n) g u) :
    ∃ u, IsManager (stateAt s.hist s.db (n + 1)) g u := by
  obtain ⟨hsound, hsound', heff⟩ := effect_of_reachable h he hok
  have hp := heff.preserves hc
  have hgroup : (∃ u, Manages (stateAt s.hist s.db n) u group) →
      ∃ u, Manages (stateAt s.hist s.db (n + 1)) u group := by
    rintro ⟨u, hu⟩
    obtain ⟨u', hu'⟩ := hp.kept hreads ⟨u, hsound.isManager_iff.2 hu⟩
    exact ⟨u', hsound'.isManager_iff.1 hu'⟩
  obtain ⟨u, hu⟩ := hm
  obtain ⟨u', hu'⟩ := hp.changes.manages hgroup (hsound.isManager_iff.1 hu)
  exact ⟨u', hsound'.isManager_iff.2 hu'⟩

/-! ### Runs -/

/-- A context with these roles, authenticated by the host. -/
def contextOf (roles : OwnerRoles) : AuthzContext :=
  { AuthzContext.serverResolvedWithWriter roles .hostBearer ⟨roles.subject, none⟩ with
    ownerScope := .sealed ⟨roles, ⟨roles.subject, none⟩, none, none, some ⟨roles.subject⟩⟩ }

lemma built_contextOf (roles : OwnerRoles) : Built (contextOf roles) :=
  .build .authenticate (.serverResolvedWithWriter roles .hostBearer ⟨roles.subject, none⟩) rfl

def openHooks : Hooks := ⟨true, some, fun _ => true⟩

/-- A call of the admin of one group. -/
def adminCall (user group : Uuid) : Call :=
  ⟨contextOf (.scopedTo user group .admin), built_contextOf _, 0, openHooks⟩

lemma adminCall_reads (user group : Uuid) : (adminCall user group).Reads group := by
  refine ⟨_, rfl, ?_⟩
  rw [OwnerScope.readableOwners, if_neg (by simp [OwnerScope.isExpired]),
    OwnerRoles.mem_readableOwners]
  exact ⟨.admin, OwnerRoles.roleFor_scopedTo.2 ⟨rfl, rfl⟩, rfl⟩

/-- A committed change: its context, time, group and member, and the managers of a group
before and after it. -/
structure Committed where
  authz : AuthzContext
  now : ℕ
  group : Uuid
  member : Uuid
  before : List Uuid
  after : List Uuid
  deriving DecidableEq

def committedAt (s : MemberState) (n : ℕ) (g : Uuid) : Option Committed :=
  (answer s.hist n).bind fun e => e.cmd.managed.bind fun x => e.result.toOption.map fun _ =>
    ⟨x.1.authz, x.1.now, x.2.1, x.2.2, managers (stateAt s.hist s.db n) g,
      managers (stateAt s.hist s.db (n + 1)) g⟩

lemma ok_of_toOption {r : Except MembershipError Unit} {a : Unit} (h : r.toOption = some a) :
    r = .ok () := by
  cases r with
  | error e => cases h
  | ok _ => rfl

lemma committedAt_eq_some {g : Uuid} {x : Committed} (h : committedAt s n g = some x) :
    ∃ e c, answer s.hist n = some e ∧ e.result = .ok () ∧
      e.cmd.managed = some (c, x.group, x.member) ∧ c.authz = x.authz ∧ c.now = x.now ∧
      managers (stateAt s.hist s.db n) g = x.before ∧
      managers (stateAt s.hist s.db (n + 1)) g = x.after := by
  obtain ⟨e, he, h⟩ := Option.bind_eq_some_iff.1 h
  obtain ⟨⟨c, g₀, m₀⟩, hc, h⟩ := Option.bind_eq_some_iff.1 h
  obtain ⟨_, hres, rfl⟩ := Option.map_eq_some_iff.1 h
  exact ⟨e, c, he, ok_of_toOption hres, hc, rfl, rfl, rfl, rfl⟩

def twoManagers : Command :=
  .host [.change fun _ => [.insertOwner 2 .group, .insertMembership 2 7 .admin false,
    .insertMembership 2 8 .admin false]]

/-- One of two managers removes the other. -/
def oneOfTwo : List (Command × ℕ) := [(twoManagers, 3), (.removeMember (adminCall 8 2) 2 7, 3)]

/-- One command after the other. -/
abbrev inTurn : List (Command × ℕ) → Option MemberState :=
  (membershipSystem plainHash).serial 300 (State.init ())

lemma oneOfTwo_run : ∃ s e c, inTurn oneOfTwo = some s ∧
    answer s.hist 1 = some e ∧ e.result = .ok () ∧ e.cmd.managed = some (c, 2, 7) ∧
    c.authz = (adminCall 8 2).authz ∧ c.now = 0 ∧ IsManager (stateAt s.hist s.db 1) 2 8 := by
  have hrun : (inTurn oneOfTwo).map (fun s => committedAt s 1 2) =
      some (some ⟨(adminCall 8 2).authz, 0, 2, 7, [8, 7], [8]⟩) := by
    decide +kernel
  obtain ⟨s, hs, heq⟩ := Option.map_eq_some_iff.1 hrun
  obtain ⟨e, c, he, hok, hc, hauthz, hnow, hbefore, -⟩ := committedAt_eq_some heq
  exact ⟨s, e, c, hs, he, hok, hc, hauthz, hnow, mem_managers.1 (by simp [hbefore])⟩

/-- One of two managers removes the other and is left. -/
theorem managers_kept_one_of_two :
    ∃ s, inTurn oneOfTwo = some s ∧ ∃ u, IsManager (stateAt s.hist s.db 2) 2 u := by
  obtain ⟨s, e, c, hs, he, hok, hc, hauthz, hnow, hbefore⟩ := oneOfTwo_run
  have hreads : c.Reads 2 := by
    unfold Call.Reads
    rw [hauthz, hnow]
    exact adminCall_reads 8 2
  exact ⟨s, hs, managers_kept plainHash (Reachable.serial .init hs) he hok hc hreads 2 ⟨8, hbefore⟩⟩

/-- The context of a manager of groups 1 and 2 that was narrowed to group 1. -/
def narrowedContext : AuthzContext :=
  { (contextOf ⟨7, [(1, .admin), (2, .admin)], by decide⟩).withRoles (.scopedTo 7 1 .admin) with
    ownerScope := .sealed ⟨.scopedTo 7 1 .admin, ⟨7, none⟩, none, some 1, none⟩ }

lemma built_narrowedContext : Built narrowedContext :=
  .build (.narrowedToOwner 1) (built_contextOf ⟨7, [(1, .admin), (2, .admin)], by decide⟩) rfl

/-- Group 1 hangs under group 2 as an admin; its member 7 is the only manager of both. -/
def managedThroughChild : Command :=
  .host [.change fun _ => [.insertOwner 1 .group, .insertOwner 2 .group,
    .insertEdge 1 ⟨2, .admin⟩ false, .insertMembership 1 7 .admin false]]

/-- A detach on member authority does not see the managers of the parent, and takes the last
one away. -/
theorem narrowed_detach_takes_last_manager :
    ∃ s e c, Reachable (membershipSystem plainHash) () s ∧ answer s.hist 1 = some e ∧
      e.result = .ok () ∧ e.cmd.managed = some (c, 2, 1) ∧ c.authz = narrowedContext ∧
      IsManager (stateAt s.hist s.db 1) 2 7 ∧ ∀ u, ¬ IsManager (stateAt s.hist s.db 2) 2 u := by
  have hrun : (inTurn [(managedThroughChild, 3),
      (.removeMember ⟨narrowedContext, built_narrowedContext, 0, openHooks⟩ 2 1, 3)]).map
        (fun s => committedAt s 1 2) = some (some ⟨narrowedContext, 0, 2, 1, [7], []⟩) := by
    decide +kernel
  obtain ⟨s, hs, heq⟩ := Option.map_eq_some_iff.1 hrun
  obtain ⟨e, c, he, hok, hc, hauthz, -, hbefore, hafter⟩ := committedAt_eq_some heq
  refine ⟨s, e, c, Reachable.serial .init hs, he, hok, hc, hauthz,
    mem_managers.1 (by simp [hbefore]), fun u hu => ?_⟩
  have hmem := mem_managers.2 hu
  simp [hafter] at hmem

/-- **The caller manages at the commit**: on parent authority, and in every replacement, the
caller of a committed change holds a managing role on a group that has a stored manager, in
the state the change commits in. -/
theorem caller_manages_at_commit (hash : LockName → ℕ)
    (h : Reachable (membershipSystem hash) () s) (he : answer s.hist n = some e)
    (hok : e.result = .ok ()) (hc : e.cmd.managed = some (c, group, member))
    (hparent : c.authz.mayManage group = true ∨
      ∃ old new, e.cmd = .replaceMemberRelation c group member old new)
    {caller : Uuid} (hcaller : c.authz.identity.subject = some caller)
    (hm : ∃ u, IsManager (stateAt s.hist s.db n) group u) :
    IsManager (stateAt s.hist s.db n) group caller := by
  obtain ⟨-, -, heff⟩ := effect_of_reachable h he hok
  have hman : c.authz.mayManage group = true := by
    rcases hparent with hman | ⟨old, new, hcmd⟩
    · exact hman
    · rw [hcmd] at heff
      exact heff.2
  exact (heff.preserves hc).rechecked hman caller hcaller hm

/-- The manager that removes the other is one when the removal commits. -/
theorem caller_manages_at_commit_remover :
    ∃ s, inTurn oneOfTwo = some s ∧ IsManager (stateAt s.hist s.db 1) 2 8 := by
  obtain ⟨s, e, c, hs, he, hok, hc, hauthz, -, hbefore⟩ := oneOfTwo_run
  have hsubject : c.authz.identity.subject = some 8 := by rw [hauthz]; rfl
  have hman : c.authz.mayManage 2 = true := by rw [hauthz]; decide
  exact ⟨s, hs, caller_manages_at_commit plainHash (Reachable.serial .init hs) he hok hc
    (.inl hman) hsubject ⟨8, hbefore⟩⟩

/-- The command is this user's addition of a viewer. -/
def addsViewer (user group member : Uuid) : Command → Bool
  | .addMember c g m relation =>
    c.authz.identity.subject = some user ∧ g = group ∧ m = member ∧ relation = .viewer
  | _ => false

lemma addsViewer_eq_true {user : Uuid} (h : addsViewer user group member cmd = true) :
    ∃ c, cmd = .addMember c group member .viewer ∧ c.authz.identity.subject = some user := by
  cases cmd with
  | addMember c g m r =>
    obtain ⟨hsubject, rfl, rfl, rfl⟩ := of_decide_eq_true h
    exact ⟨c, rfl, hsubject⟩
  | _ => cases h

/-- Group 1 hangs under group 2 as a viewer; 7 and 9 manage group 1, 8 manages group 2. -/
def viewedByParent : Command :=
  .host [.change fun _ => [.insertOwner 1 .group, .insertOwner 2 .group,
    .insertEdge 1 ⟨2, .viewer⟩ false, .insertMembership 2 8 .admin false,
    .insertMembership 1 7 .admin false, .insertMembership 1 9 .admin false]]

/-- A caller whose managing role another manager has taken away still adds a member, and
still detaches a group on member authority: both rest on the context it was given before. -/
theorem demoted_caller_commits :
    (∃ s e, Reachable (membershipSystem plainHash) () s ∧ answer s.hist 2 = some e ∧
        e.result = .ok () ∧
          (∃ c, e.cmd = .addMember c 2 5 .viewer ∧ c.authz.identity.subject = some 7) ∧
        IsManager (stateAt s.hist s.db 2) 2 8 ∧ ¬ IsManager (stateAt s.hist s.db 2) 2 7) ∧
      ∃ s e c, Reachable (membershipSystem plainHash) () s ∧ answer s.hist 2 = some e ∧
        e.result = .ok () ∧ e.cmd.managed = some (c, 2, 1) ∧ c.authz.identity.subject = some 7 ∧
        IsManager (stateAt s.hist s.db 2) 2 8 ∧ ¬ IsManager (stateAt s.hist s.db 2) 2 7 ∧
        ¬ IsManager (stateAt s.hist s.db 2) 1 7 := by
  refine ⟨?_, ?_⟩
  · have hrun : (inTurn (oneOfTwo ++ [(.addMember (adminCall 7 2) 2 5 .viewer, 3)])).map
          (fun s => ((answer s.hist 2).map fun e =>
            addsViewer 7 2 5 e.cmd && e.result.toOption = some (),
            managers (stateAt s.hist s.db 2) 2)) = some (some true, [8]) := by
      decide +kernel
    obtain ⟨s, hs, heq⟩ := Option.map_eq_some_iff.1 hrun
    obtain ⟨hanswer, hM⟩ := Prod.mk.inj heq
    obtain ⟨e, he, heq⟩ := Option.map_eq_some_iff.1 hanswer
    obtain ⟨hcmd, hres⟩ := (Bool.and_eq_true _ _).mp heq
    refine ⟨s, e, Reachable.serial .init hs, he, ok_of_toOption (of_decide_eq_true hres),
      addsViewer_eq_true hcmd, mem_managers.1 (by simp [hM]), fun hu => ?_⟩
    have hmem := mem_managers.2 hu
    simp [hM] at hmem
  · have hrun : (inTurn [(viewedByParent, 3), (.removeMember (adminCall 9 1) 1 7, 3),
          (.removeMember (adminCall 7 1) 2 1, 3)]).map
          (fun s => (committedAt s 2 2, managers (stateAt s.hist s.db 2) 1)) =
        some (some ⟨(adminCall 7 1).authz, 0, 2, 1, [8], [8]⟩, [9]) := by
      decide +kernel
    obtain ⟨s, hs, heq⟩ := Option.map_eq_some_iff.1 hrun
    obtain ⟨hlast, hchild⟩ := Prod.mk.inj heq
    obtain ⟨e, c, he, hok, hc, hauthz, -, hbefore, -⟩ := committedAt_eq_some hlast
    refine ⟨s, e, c, Reachable.serial .init hs, he, hok, hc, by rw [hauthz]; rfl,
      mem_managers.1 (by simp [hbefore]), fun hu => ?_, fun hu => ?_⟩
    · have hmem := mem_managers.2 hu
      simp [hbefore] at hmem
    · have hmem := mem_managers.2 hu
      simp [hchild] at hmem

end Proxiima.Groups
