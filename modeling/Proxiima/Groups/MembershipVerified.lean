import Proxiima.Groups.Managers
import Proxiima.ReadCommitted.Runs

/-!
# What a membership command commits

Under the tree lock a transaction owns the group and the member: the edge between them and
the managers of the group stay as it found them, whatever others commit. So what
`manager_preserving_change` reads before and after the change is what the commit finds and
leaves, for the groups that the caller's scope shows.
-/

namespace Proxiima.Groups

open ReadCommitted Prog Setting Authz Sql

abbrev MemberSide := Local Row Lock MembershipError Command Unit

abbrev MemberEntry := Entry Row MembershipError Command Unit

/-- The caller's scope shows the rows of the group. -/
def Call.Reads (c : Call) (group : Uuid) : Prop :=
  ∃ scope, c.authz.scope = some scope ∧ group ∈ scope.readableOwners c.now .fact

/-- What a change through `manager_preserving_change` leaves. -/
structure Preserves (c : Call) (group member : Uuid) (v v' : Tables) : Prop where
  changes : ChangesMember group member v v'
  kept : c.Reads group → (∃ u, IsManager v group u) → ∃ u, IsManager v' group u
  rechecked : c.authz.mayManage group = true → ∀ caller, c.authz.identity.subject = some caller →
    (∃ u, IsManager v group u) → IsManager v group caller

def Command.Effect : Command → Tables → Tables → Prop
  | host _, _, _ => True
  | addMember .., _, _ => True
  | removeMember c group member, v, v' => Preserves c group member v v'
  | removeMemberRelation c group member _, v, v' => Preserves c group member v v'
  | replaceMemberRelation c group member _ _, v, v' =>
    Preserves c group member v v' ∧ c.authz.mayManage group = true

structure Effect (older : List MemberEntry) (e : MemberEntry) (db' : Tables) : Prop where
  sound : Sound db'
  committed : e.result = .ok () → e.cmd.Effect e.before db'

def membershipSetting (hash : LockName → ℕ) :
    Setting Row Lock MembershipError ℕ Unit Command Unit where
  toSystem := membershipSystem hash
  inv := Run Effect
  own σ := Own hash ⟨[], σ.since, σ.db,
    σ.hist.map (Entry.map (fun _ => []) (fun _ => ()) fun _ => .canceled), σ.writes, σ.held⟩

lemma sound_of_run {db : Tables} {hist : List MemberEntry} (h : Run Effect db hist) : Sound db := by
  cases h with
  | nil => exact sound_nil
  | step _ _ heff => exact heff.sound

/-- The statements of the group tables, inside the membership commands. -/
def embedding (hash : LockName → ℕ) : Embedding (setting hash) (membershipSetting hash) where
  cmd _ := []
  answer _ := ()
  error _ := .canceled
  conflict _ _ := rfl
  rowLock _ := rfl
  own _ := Iff.rfl
  inv _ _ h := sound_of_run h

/-- A refused command leaves the tables as they are. -/
abbrev refused : MembershipError → MemberSide → Prop :=
  fun e σ => Run Effect σ.db (σ.ended (.error e) :: σ.hist)

variable {hash : LockName → ℕ} {σ σ' : Side} {P P' : Side → Prop} {W : Key → Prop}

lemma refused_of_inv (e : MembershipError) (τ : MemberSide) (h : (membershipSetting hash).Inv τ) :
    refused e τ :=
  .step h rfl ⟨sound_of_run h, fun hok => by cases hok⟩

/-! ### Assertions -/

/-- `P` of the group tables, with only rows of `W` written. -/
def At (hash : LockName → ℕ) (P : Side → Prop) (W : Key → Prop) (τ : MemberSide) : Prop :=
  P ((embedding hash).side τ) ∧ ∀ k ∈ τ.writes.keys, W k

def Nothing : Key → Prop := fun _ => False

lemma stable_at (hP : Carried hash P) : (membershipSetting hash).Stable (At hash P W) :=
  ((embedding hash).stable hP.stable).and fun _ _ _ hk hr => hr.keeps.1 ▸ hk

/-- A program on the group tables, in a membership command. -/
lemma lift_spec {α : Type} {p : Program α} {Q : α → Side → Prop} (hp : p.Within W)
    (h : (setting hash).Triple P p Q failed) :
    (membershipSetting hash).Triple (At hash P W) (p.mapError .database)
      (fun a => At hash (Q a) W) refused :=
  (embedding hash).triple hp _ refused_of_inv h

variable {τ : MemberSide} {S : OwnerSettings} {relation : Option Relation} {v : Tables}
  {c : RowChange}

lemma At.view_eq (h : At hash P Nothing τ) : τ.view = τ.db := by
  have hnil : τ.writes = [] := by
    refine List.eq_nil_iff_forall_not_mem.2 fun w hw => h.2 w.1 ?_
    exact List.mem_map_of_mem hw
  rw [Local.view, hnil, List.nil_append]

lemma At.mono {W' : Key → Prop} (h : At hash P W τ) (hW : ∀ k, W k → W' k) : At hash P W' τ :=
  ⟨h.1, fun k hk => hW k (h.2 k hk)⟩

/-- The group and the member are locked; their edge and the managers are as they were found. -/
structure Locked (hash : LockName → ℕ) (group member : Uuid) (e : Option Edge) (M : Set Uuid)
    (σ : Side) : Prop where
  ownsGroup : Owned hash σ group
  ownsMember : Owned hash σ member
  edge : edgeOf σ.db member = e
  managers : ∀ u, Manages σ.db u group ↔ u ∈ M

variable {group member : Uuid} {e : Option Edge} {M : Set Uuid}

lemma Locked.frame (h : Locked hash group member e M σ) (hf : Frame hash σ σ') :
    Locked hash group member e M σ' where
  ownsGroup := hf.owned h.ownsGroup
  ownsMember := hf.owned h.ownsMember
  edge := (hf.edge _ h.ownsMember).trans h.edge
  managers u := by
    rw [← h.managers u, Manages, Manages]
    simp only [hf.pathRole_db h.ownsGroup]

lemma Locked.evolves (h : Locked hash group member e M σ) (hev : (setting hash).Evolves σ σ') :
    Locked hash group member e M σ' := by
  have hadv : ∀ {τ}, (setting hash).Env σ τ → Locked hash group member e M τ := by
    intro τ he
    induction he with
    | refl => exact h
    | tail _ hr ih => exact ih.frame (frame_of_rely hr)
  obtain ⟨⟨r, hr, hl⟩, ⟨r', hr', hl'⟩, hedge, hman⟩ := hadv hev.env
  exact ⟨⟨r, hr, hev.held hl⟩, ⟨r', hr', hev.held hl'⟩, hedge, hman⟩

/-- Nothing pending, under the lock. -/
def Held (hash : LockName → ℕ) (group member : Uuid) (e : Option Edge) (M : Set Uuid) (σ : Side) :
    Prop :=
  Pending hash [] [] σ ∧ Locked hash group member e M σ

lemma carried_held : Carried hash (Held hash group member e M) :=
  (carried_pending [] []).and (fun _ _ _ h hf => h.frame hf) fun σ ls h =>
    h.evolves (.acquire σ ls)

/-! ### The tree lock and statements under it -/

lemma changeCounted_spec (rows : List RowChange) :
    (setting hash).Triple (Pending hash [] []) (changeCounted hash rows)
      (fun _ => Pending hash [] []) failed := by
  refine (changeRows_spec rows []).bind fun es => ?_
  refine (Triple.forM (P := fun es => Pending hash [] es)
    (carried_pending [] []).stable groupProjectionAfterWrite_spec es).bind fun _ => ?_
  exact Triple.ret (carried_pending [] []).stable fun _ _ h => h

lemma lockRequest_spec (hP : Carried hash P) (group member : Uuid) :
    (setting hash).Triple P (runStatement hash (.lockRequest group (some member)))
      (fun _ σ => (P σ ∧ Owned hash σ group) ∧ Owned hash σ member) failed := by
  refine (lockGroupTrees_spec hP group member).bind fun _ => ?_
  exact lockOwnerKinds_spec ((hP.owned group).owned member) group member

lemma passive_lockRequest (group member : Uuid) :
    (runStatement hash (.lockRequest group (some member))).Passive :=
  (passive_lockGroupTrees hash _ _).bind fun _ => passive_lockOwnerKinds hash _ _

lemma lockGroupMembershipWriteTx_spec (hP : Carried hash P) (S : OwnerSettings)
    (group member : Uuid) :
    (membershipSetting hash).Triple (At hash P W) (lockGroupMembershipWriteTx hash S group member)
      (fun _ => At hash (fun σ => (P σ ∧ Owned hash σ group) ∧ Owned hash σ member) W)
      refused := by
  have hstable : (membershipSetting hash).Stable
      (At hash (fun σ => (P σ ∧ Owned hash σ group) ∧ Owned hash σ member) W) :=
    stable_at ((hP.owned group).owned member)
  refine (lift_spec (passive_lockRequest group member).within
    (lockRequest_spec hP group member)).bind fun _ => ?_
  refine (Triple.look hstable).bind fun v => ?_
  refine (Triple.failIf hstable fun _ hi _ _ => refused_of_inv _ _ hi).bind fun _ => ?_
  exact Triple.ret hstable.pure fun _ _ h => h.1

variable {rows : Tables → List RowChange}

/-- A statement whose rows are chosen while nothing is written yet. -/
lemma execute_first (hW : ∀ u g, W (.projection u g))
    (h : ∀ v, edgeOf v member = e → ∀ c ∈ rows v, c.In W) :
    (membershipSetting hash).Triple (At hash (Held hash group member e M) Nothing)
      (execute hash rows) (fun _ => At hash (Held hash group member e M) W) refused := by
  refine (Triple.view (Q := fun v τ =>
      At hash (Held hash group member e M) Nothing τ ∧ edgeOf v member = e)
    (stable_at carried_held) (fun v => (stable_at carried_held).pure) fun τ _ h => ⟨h, ?_⟩).bind
    fun v => ?_
  · rw [h.view_eq]
    exact h.1.2.edge
  · refine Triple.of_pure (fun _ h => h.2) fun hedge => ?_
    refine (lift_spec (within_changeCounted hash hW (h v hedge))
      ((changeCounted_spec (rows v)).keeps
      fun _ _ hL hev => Locked.evolves hL hev)).pre fun τ hτ => ?_
    exact hτ.1.mono fun _ hk => hk.elim

lemma execute_again (hW : ∀ u g, W (.projection u g)) (h : ∀ v, ∀ c ∈ rows v, c.In W) :
    (membershipSetting hash).Triple (At hash (Held hash group member e M) W)
      (execute hash rows) (fun _ => At hash (Held hash group member e M) W) refused := by
  refine (Triple.look (stable_at carried_held)).bind fun v => ?_
  exact lift_spec (within_changeCounted hash hW (h v)) ((changeCounted_spec (rows v)).keeps
    fun _ _ hL hev => Locked.evolves hL hev)

/-! ### Managers before and after -/

/-- Before the change: the managers there are, where the scope shows them. -/
lemma groupHasManager_first (S : OwnerSettings) :
    (membershipSetting hash).Triple (At hash (Held hash group member e M) Nothing)
      (groupHasManager S group)
      (fun had τ => At hash (Held hash group member e M) Nothing τ ∧
        (had = true ↔ S.readsGroup group = true ∧ M.Nonempty)) refused := by
  refine (Triple.view (Q := fun v τ =>
      At hash (Held hash group member e M) Nothing τ ∧ ∀ u, u ∈ managers v group ↔ u ∈ M)
    (stable_at carried_held) (fun v => (stable_at carried_held).pure)
    fun τ hi h => ⟨h, fun u => ?_⟩).bind
    fun v => ?_
  · rw [h.view_eq, mem_managers, (sound_of_run hi).isManager_iff]
    exact h.1.2.managers u
  · refine Triple.ret (stable_at carried_held).pure fun τ _ h => ⟨h.1, ?_⟩
    have hne : managers v group ≠ [] ↔ M.Nonempty :=
      ⟨fun hne => (List.exists_mem_of_ne_nil _ hne).imp fun u hu => (h.2 u).1 hu,
        fun ⟨u, hu⟩ => List.ne_nil_of_mem ((h.2 u).2 hu)⟩
    simp [hne]

lemma recheckCallerManages_spec (S : OwnerSettings) (caller : Option Uuid) :
    (membershipSetting hash).Triple (At hash (Held hash group member e M) Nothing)
      (recheckCallerManages S group caller)
      (fun _ τ => At hash (Held hash group member e M) Nothing τ ∧ ∀ c, caller = some c → c ∈ M)
      refused := by
  cases caller with
  | none => exact Triple.ret (stable_at carried_held) fun _ _ h => ⟨h, fun _ hc => by cases hc⟩
  | some caller =>
    refine (Triple.view (Q := fun v τ =>
        At hash (Held hash group member e M) Nothing τ ∧ (caller ∈ managers v group → caller ∈ M))
      (stable_at carried_held) (fun v => (stable_at carried_held).pure) fun τ hi h => ⟨h, ?_⟩).bind
      fun v => ?_
    · rw [h.view_eq, mem_managers, (sound_of_run hi).isManager_iff]
      exact (h.1.2.managers caller).1
    · refine (Triple.failIf (stable_at carried_held).pure fun _ hi _ _ =>
        refused_of_inv _ _ hi).post fun _ τ h => ⟨h.1.1, ?_⟩
      rintro _ ⟨⟩
      exact h.1.2 (not_not.1 h.2).2

lemma carried_manages (φ : Prop) : Carried hash fun σ =>
    Held hash group member e M σ ∧ (φ → ∃ u, Manages σ.view u group) := by
  refine carried_held.and (fun σ σ' hσ h hf hφ => ?_) fun _ _ h => h
  obtain ⟨u, r, hr, hm⟩ := h hφ
  exact ⟨u, r, (hf.pathRole_inside hσ.1.own hσ.2.ownsGroup).2 hr, hm⟩

/-- After the change: a manager that was seen is one in what would be committed. -/
lemma groupHasManager_again (S : OwnerSettings) :
    (membershipSetting hash).Triple (At hash (Held hash group member e M) W)
      (groupHasManager S group)
      (fun has => At hash (fun σ => Held hash group member e M σ ∧
        (has = true → ∃ u, Manages σ.view u group)) W) refused := by
  refine (Triple.view (Q := fun v => At hash (fun σ => Held hash group member e M σ ∧
      (managers v group ≠ [] → ∃ u, Manages σ.view u group)) W)
    (stable_at carried_held) (fun v => stable_at (carried_manages _))
    fun τ hi h => ⟨⟨h.1, ?_⟩, h.2⟩).bind
    fun v => ?_
  · intro hne
    obtain ⟨u, hu⟩ := List.exists_mem_of_ne_nil _ hne
    have hsound : Sound τ.view := h.1.1.sound (sound_of_run hi)
    exact ⟨u, hsound.isManager_iff.1 (mem_managers.1 hu)⟩
  · refine Triple.ret (stable_at (carried_manages _))
      fun τ _ h => ⟨⟨h.1.1, fun hhas => h.1.2 ?_⟩, h.2⟩
    rw [Bool.and_eq_true, decide_eq_true_eq] at hhas
    exact hhas.2

/-- The rows a change of the member may write, given the edge it was found with. -/
def MemberRows (group member : Uuid) (e : Option Edge) : Key → Prop
  | .edge child => child = member ∧ e.map Edge.parent = some group
  | .membership g _ _ => g = group
  | .owner _ => False
  | .projection .. => True

/-- What holds when the change is about to commit. -/
def Guarded (hash : LockName → ℕ) (S : OwnerSettings) (group member : Uuid) (caller : Option Uuid)
    (τ : MemberSide) : Prop :=
  ∃ e M, At hash (fun σ => Held hash group member e M σ ∧
    (S.readsGroup group = true ∧ M.Nonempty → ∃ u, Manages σ.view u group))
      (MemberRows group member e) τ ∧
    (S.readsGroup group = true ∧ M.Nonempty → ∀ c, caller = some c → c ∈ M)

/-- The change runs under the lock and writes rows of the member only. -/
def Changes (hash : LockName → ℕ) (group member : Uuid) (change : MemberProgram Unit) : Prop :=
  ∀ e M, (membershipSetting hash).Triple (At hash (Held hash group member e M) Nothing) change
    (fun _ => At hash (Held hash group member e M) (MemberRows group member e)) refused

theorem managerPreservingChange_spec (S : OwnerSettings) (caller : Option Uuid)
    {change : MemberProgram Unit} (hchange : Changes hash group member change) :
    (membershipSetting hash).Triple (At hash (Pending hash [] []) Nothing)
      (managerPreservingChange hash S group member caller change)
      (fun _ => Guarded hash S group member caller) refused := by
  refine (lockGroupMembershipWriteTx_spec (carried_pending [] []) S group member).bind fun _ => ?_
  -- the edge and the managers found under the lock, by name
  refine Triple.fix (fun τ => (edgeOf τ.db member, {u | Manages τ.db u group})) fun i => ?_
  obtain ⟨e, M⟩ := i
  have hheld : ∀ τ : MemberSide, (At hash (fun σ => (Pending hash [] [] σ ∧ Owned hash σ group) ∧
      Owned hash σ member) Nothing τ ∧
      (edgeOf τ.db member, {u | Manages τ.db u group}) = (e, M)) →
      At hash (Held hash group member e M) Nothing τ := by
    rintro τ ⟨⟨⟨⟨hpending, hg⟩, hm⟩, hk⟩, heq⟩
    obtain ⟨rfl, rfl⟩ := Prod.mk.inj heq
    exact ⟨⟨hpending, hg, hm, rfl, fun _ => Iff.rfl⟩, hk⟩
  refine Triple.pre ?_ hheld
  refine (groupHasManager_first S).bind fun had => ?_
  refine Triple.of_pure (fun _ h => h.2) fun hhad => ?_
  cases had with
  | false =>
    have hno : ¬ (S.readsGroup group = true ∧ M.Nonempty) := fun h => by cases hhad.2 h
    refine ((hchange e M).pre fun _ h => h.1).bind fun _ => ?_
    exact Triple.ret (stable_at carried_held) fun τ _ h =>
      ⟨e, M, ⟨⟨h.1, fun hyes => absurd hyes hno⟩, h.2⟩, fun hyes => absurd hyes hno⟩
  | true =>
    refine ((recheckCallerManages_spec S caller).pre fun _ h => h.1).bind fun _ => ?_
    refine Triple.of_pure (fun _ h => h.2) fun hcaller => ?_
    refine ((hchange e M).pre fun _ h => h.1).bind fun _ => ?_
    refine (groupHasManager_again S).bind fun has => ?_
    refine (Triple.failIf (stable_at (carried_manages _)) fun _ hi _ _ =>
      refused_of_inv _ _ hi).post fun _ τ h => ?_
    obtain ⟨⟨⟨hheld, hhas⟩, hk⟩, hne⟩ := h
    exact ⟨e, M, ⟨⟨hheld, fun _ => hhas (by simpa using hne)⟩, hk⟩, fun _ => hcaller⟩

/-! ### The three changes -/

/-- Taking the locks again under the locks. -/
lemma relock_spec (S : OwnerSettings) :
    (membershipSetting hash).Triple (At hash (Held hash group member e M) W)
      (lockGroupMembershipWriteTx hash S group member)
      (fun _ => At hash (Held hash group member e M) W) refused :=
  (lockGroupMembershipWriteTx_spec carried_held S group member).post fun _ _ h => ⟨h.1.1.1, h.2⟩

lemma memberRows_projection (u g : Uuid) : MemberRows group member e (.projection u g) := trivial

lemma matchingEdge_eq_some {x : Edge} (h : matchingEdge S group member relation v = some x) :
    edgeOf v member = some x ∧ x.parent = group := by
  obtain ⟨hx, hmatch⟩ := Option.filter_eq_some_iff.1 h
  simp only [edgeMatches, decide_eq_true_eq] at hmatch
  exact ⟨hx, hmatch.1⟩

lemma in_deleteEdges (hv : edgeOf v member = e) (hc : c ∈ deleteEdges S group member relation v) :
    c.In (MemberRows group member e) := by
  rw [deleteEdges, Option.mem_toList] at hc
  obtain ⟨x, hx, rfl⟩ := Option.map_eq_some_iff.1 hc
  obtain ⟨hedge, hparent⟩ := matchingEdge_eq_some hx
  exact ⟨rfl, by rw [← hv, hedge, ← hparent]; rfl⟩

lemma in_updateEdges {old new : Relation} (hv : edgeOf v member = e)
    (hc : c ∈ updateEdges S group member old new v) : c.In (MemberRows group member e) := by
  rw [updateEdges, Option.mem_toList] at hc
  obtain ⟨x, hx, rfl⟩ := Option.map_eq_some_iff.1 hc
  obtain ⟨hedge, hparent⟩ := matchingEdge_eq_some hx
  exact ⟨rfl, by rw [← hv, hedge, ← hparent]; rfl⟩

lemma in_deleteMemberships (hc : c ∈ deleteMemberships S group member relation v) :
    c.In (MemberRows group member e) := by
  unfold deleteMemberships at hc
  split at hc
  · obtain ⟨⟨g, m, r⟩, -, hif⟩ := List.mem_filterMap.1 hc
    obtain ⟨-, rfl⟩ := by simpa using hif
    rfl
  · cases hc

theorem detachAuthorized_changes (S : OwnerSettings) (relation : Option Relation)
    (memberAuthority : MembershipMemberAuthority)
    (endpointAuthority : MembershipEndpointAuthority) :
    Changes hash group member
      (detachAuthorized hash S group member relation memberAuthority endpointAuthority) := by
  intro e M
  refine (relock_spec S).bind fun memberIsGroup => ?_
  refine (Triple.failIf (stable_at carried_held) fun _ hi _ _ =>
    refused_of_inv _ _ hi).bind fun _ => ?_
  refine (Triple.failIf (stable_at carried_held).pure fun _ hi _ _ =>
    refused_of_inv _ _ hi).bind fun _ => ?_
  refine ((execute_first memberRows_projection fun v hv c hc => ?_).pre
    fun _ h => h.1.1).bind fun _ => Triple.ret (stable_at carried_held) fun _ _ h => h
  cases memberIsGroup with
  | true => exact in_deleteEdges hv hc
  | false => exact in_deleteMemberships hc

theorem replaceGroupMemberRelation_changes (S : OwnerSettings) (old new : Relation) :
    Changes hash group member (replaceGroupMemberRelation hash S group member old new) := by
  intro e M
  have hstable : ∀ {W}, (membershipSetting hash).Stable (At hash (Held hash group member e M) W) :=
    stable_at carried_held
  refine (relock_spec S).bind fun memberIsGroup => ?_
  cases memberIsGroup with
  | true =>
    refine (execute_first memberRows_projection fun v hv c hc =>
      in_updateEdges hv hc).bind fun updated => ?_
    refine (Triple.failIf hstable fun _ hi _ _ => refused_of_inv _ _ hi).bind fun _ => ?_
    exact (Triple.failIf hstable.pure fun _ hi _ _ => refused_of_inv _ _ hi).post fun _ _ h => h.1.1
  | false =>
    refine Triple.bind (M := fun _ => At hash (Held hash group member e M)
      (MemberRows group member e)) (execute_first memberRows_projection fun v _ c hc =>
      in_deleteMemberships hc) fun deleted => ?_
    refine (Triple.failIf hstable fun _ hi _ _ => refused_of_inv _ _ hi).bind fun _ => ?_
    refine Triple.bind (M := fun _ => At hash (Held hash group member e M)
      (MemberRows group member e)) ?_ fun _ => Triple.ret hstable fun _ _ h => h
    refine (Triple.failIf hstable.pure fun _ hi _ _ => refused_of_inv _ _ hi).bind fun _ => ?_
    refine (execute_again memberRows_projection fun v c hc => ?_).pre fun _ h => h.1.1
    obtain rfl := List.mem_singleton.1 hc
    rfl

/-! ### Commits -/

lemma changesMember_of_rows (hedge : edgeOf τ.db member = e)
    (hk : ∀ k ∈ τ.writes.keys, MemberRows group member e k) :
    ChangesMember group member τ.db τ.view where
  edge x e' he' := by
    by_cases hx : Key.edge x ∈ τ.writes.keys
    · obtain ⟨rfl, hparent⟩ := hk _ hx
      rw [hedge] at he'
      rw [he'] at hparent
      exact .inr (Option.some.inj hparent)
    · exact .inl ((get_append_of_notMem hx).trans he')
  member x u relation hmem := by
    by_cases hx : Key.membership x u relation ∈ τ.writes.keys
    · exact .inr (hk _ hx)
    · refine .inl ?_
      rwa [IsMember, Local.view, get_append_of_notMem hx]

/-- **A guarded change commits what it promises**, where the settings are those of the call
and the caller was named on parent authority. -/
lemma Guarded.preserves {c : Call} {caller : Option Uuid} (h : Guarded hash S group member caller τ)
    (hi : Sound τ.db) (hreads : c.Reads group → S.readsGroup group = true)
    (hcaller : c.authz.mayManage group = true →
      S.readsGroup group = true ∧ caller = c.authz.identity.subject) :
    Sound τ.view ∧ Preserves c group member τ.db τ.view := by
  obtain ⟨e, M, ⟨⟨⟨hpending, hlocked⟩, hkept⟩, hk⟩, hchecked⟩ := h
  have hsound : Sound τ.view := hpending.sound hi
  have hmanager : ∀ u, IsManager τ.db group u ↔ u ∈ M := fun u =>
    hi.isManager_iff.trans (hlocked.managers u)
  refine ⟨hsound, changesMember_of_rows hlocked.edge hk, fun hr hm => ?_, fun hman x hx hm => ?_⟩
  · obtain ⟨u, hu⟩ := hkept ⟨hreads hr, hm.imp fun u hu => (hmanager u).1 hu⟩
    exact ⟨u, hsound.isManager_iff.2 hu⟩
  · obtain ⟨hS, hnamed⟩ := hcaller hman
    refine (hmanager x).2 (hchecked ⟨hS, hm.imp fun u hu => (hmanager u).1 hu⟩ x ?_)
    rw [hnamed, hx]

end Proxiima.Groups
