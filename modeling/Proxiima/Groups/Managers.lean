import Proxiima.Groups.Membership
import Proxiima.Groups.Statements

/-!
# Managing roles travel up whole

A role met with another manages only when both do, and a join manages when one of its parts
does. So a user manages a group exactly when one way to reach it has managing relations all
along. A change to the rows of one member of a group can break only ways that pass through
that group; while the group keeps a manager, every group above it that had one keeps one.
-/

namespace Proxiima.Groups

open ReadCommitted Prog Sql

variable {v v' : Tables} {group member g u : Uuid}

/-- The projection gives `u` a managing role on the group. -/
def IsManager (v : Tables) (group u : Uuid) : Prop :=
  ∃ R, get v (.projection u group) = some R ∧ R.manage = true

/-- One way to reach the group manages. -/
def Manages (v : Tables) (u group : Uuid) : Prop := ∃ r, PathRole v u group r ∧ r.manage = true

lemma mem_managers : u ∈ managers v group ↔ IsManager v group u := by
  simp only [managers, List.mem_filterMap, mem_live, IsManager]
  constructor
  · rintro ⟨k, hk, heq⟩
    cases k with
    | projection user g =>
      obtain ⟨⟨rfl, hany⟩, rfl⟩ := by simpa using heq
      exact (Option.any_eq_true _ _).1 hany
    | _ => cases heq
  · rintro ⟨R, hR, hm⟩
    refine ⟨.projection u group, by simp [hR], ?_⟩
    simp [hR, hm]

/-- A least upper bound of roles manages only when one of them does. -/
lemma manage_of_isLUB {s : Set Role} {R : Role} (h : IsLUB s R) (hm : R.manage = true) :
    ∃ r ∈ s, r.manage = true := by
  by_contra hno
  push Not at hno
  -- without the managing bit, `R` would still be above all of them
  have hub : { R with manage := false } ∈ upperBounds s := by
    intro r hr
    obtain ⟨hread, hwrite, -⟩ := h.1 hr
    exact ⟨hread, hwrite, by simp [hno r hr]⟩
  obtain ⟨-, -, hle⟩ := h.2 hub
  rw [hm] at hle
  exact absurd (hle rfl) (by simp)

/-- In sound tables the projection names the managers. -/
lemma Sound.isManager_iff (h : Sound v) : IsManager v group u ↔ Manages v u group := by
  have hp := h.projected u group
  cases hget : get v (.projection u group) with
  | none =>
    rw [hget] at hp
    constructor
    · rintro ⟨R, hR, -⟩
      cases hget.symm.trans hR
    · rintro ⟨r, hr, -⟩
      exact absurd hr (hp r)
  | some R =>
    rw [hget] at hp
    constructor
    · rintro ⟨R', hR', hm⟩
      obtain rfl := Option.mem_unique hget hR'
      exact manage_of_isLUB hp.2 hm
    · rintro ⟨r, hr, hm⟩
      obtain ⟨-, -, hle⟩ := hp.2.1 hr
      exact ⟨R, hget, hle hm⟩

/-! ### Changes to one member of a group -/

/-- Only rows of `member` in `group`, and projections, were taken away. -/
structure ChangesMember (group member : Uuid) (v v' : Tables) : Prop where
  edge : ∀ x e, edgeOf v x = some e → edgeOf v' x = some e ∨ e.parent = group
  member : ∀ x u relation, IsMember v x u relation → IsMember v' x u relation ∨ x = group

/-- **Ways around the changed group stay, ways through it are replaced**: when the changed
group keeps a manager, so does every group. -/
theorem ChangesMember.manages (h : ChangesMember group member v v')
    (hg : (∃ u, Manages v u group) → ∃ u, Manages v' u group) (hu : Manages v u g) :
    ∃ u', Manages v' u' g := by
  obtain ⟨r, hr, hm⟩ := hu
  induction hr with
  | @direct x relation hmem =>
    rcases h.member x u relation hmem with hmem' | rfl
    · exact ⟨u, _, .direct hmem', hm⟩
    · exact hg ⟨u, _, .direct hmem, hm⟩
  | @up y r e hpath he ih =>
    rw [Role.manage_meet, Bool.and_eq_true] at hm
    rcases h.edge y e he with he' | rfl
    · obtain ⟨u', r', hr', hm'⟩ := ih hm.1
      exact ⟨u', _, hr'.up he', by rw [Role.manage_meet, hm', hm.2]; rfl⟩
    · exact hg ⟨u, _, hpath.up he, by rw [Role.manage_meet, hm.1, hm.2]; rfl⟩

/-! ### What the statements write -/

/-- Every row the change names is one of `W`. -/
def RowChange.In (W : Key → Prop) : RowChange → Prop
  | insertEdge child _ _ => W (.edge child)
  | updateEdge child _ => W (.edge child)
  | deleteEdge child _ => W (.edge child)
  | insertMembership group member relation _ => W (.membership group member relation)
  | updateMembership group member relation _ _ newRelation =>
    W (.membership group member relation) ∧ W (.membership group member newRelation)
  | deleteMembership group member relation => W (.membership group member relation)
  | insertOwner owner _ => W (.owner owner)

section Within

variable (hash : LockName → ℕ) {W : Key → Prop}

lemma passive_lockName (n : LockName) : (lockName hash n).Passive := passive_lock _

lemma passive_lockGroupTreeLoop (x : Uuid) (n : ℕ) : (lockGroupTreeLoop hash x n).Passive := by
  induction n with
  | zero => exact passive_fail _
  | succ n ih =>
    refine passive_view.bind fun v => (passive_lockName hash _).bind fun _ =>
      passive_view.bind fun v' => ?_
    dsimp only
    split
    · exact passive_pure _
    · exact ih

lemma passive_lockGroupTree (x : Uuid) : (lockGroupTree hash x).Passive :=
  (passive_call _).bind fun _ => passive_lockGroupTreeLoop hash x _

lemma passive_lockRoots (l r : Uuid) : (lockRoots hash l r).Passive := by
  unfold lockRoots
  split
  · refine (passive_lockName hash _).bind fun _ => ?_
    split
    · exact passive_lockName hash _
    · exact passive_pure _
  · exact (passive_lockName hash _).bind fun _ => passive_lockName hash _

lemma passive_lockGroupTreesLoop (l r : Uuid) (n : ℕ) :
    (lockGroupTreesLoop hash l r n).Passive := by
  induction n with
  | zero => exact passive_fail _
  | succ n ih =>
    refine passive_view.bind fun v => passive_view.bind fun v' =>
      (passive_lockRoots hash _ _).bind fun _ => passive_view.bind fun w =>
      passive_view.bind fun w' => ?_
    dsimp only
    split
    · exact passive_pure _
    · exact ih

lemma passive_lockGroupTrees (l r : Uuid) : (lockGroupTrees hash l r).Passive :=
  (passive_call _).bind fun _ => passive_lockGroupTreesLoop hash l r _

lemma passive_lockOwnerKinds (l r : Uuid) : (lockOwnerKinds hash l r).Passive :=
  (passive_lockName hash _).bind fun _ => passive_lockName hash _

lemma passive_groupEdgeBeforeWrite (old : Option (Uuid × Uuid)) (child parent : Uuid) :
    (groupEdgeBeforeWrite hash old child parent).Passive :=
  (passive_failIf _ _).bind fun _ => (passive_lockGroupTrees hash _ _).bind fun _ =>
    (passive_lockOwnerKinds hash _ _).bind fun _ => (passive_failIf _ _).bind fun _ =>
    passive_view.bind fun _ => passive_failIf _ _

lemma passive_groupMembershipBeforeWrite (old : Option (Uuid × Uuid)) (group member : Uuid) :
    (groupMembershipBeforeWrite hash old group member).Passive :=
  (passive_lockGroupTree hash _).bind fun _ => (passive_failIf _ _).bind fun _ =>
    (passive_lockName hash _).bind fun _ => passive_view.bind fun _ => passive_failIf _ _

lemma passive_ownerGroupKindGuard (owner : Uuid) (kind : OwnerKind) :
    (ownerGroupKindGuard hash owner kind).Passive := by
  cases kind with
  | personal => exact passive_pure _
  | group =>
    refine (passive_lockGroupTree hash _).bind fun _ => (passive_lockName hash _).bind fun _ =>
      passive_view.bind fun v => ?_
    dsimp only
    split
    · exact passive_view.bind fun _ => passive_failIf _ _
    · exact passive_pure _

lemma within_lockedRow {k : Key} {β : Type} {f : Option (Row k) → Program β}
    (hnone : (f none).Within W) (hsome : ∀ r, (f (some r)).Within W) :
    (lockedRow k >>= f).Within W := by
  refine (within_attempt (passive_lock _ |>.bind fun _ => passive_view.bind fun _ =>
    passive_pure _).within (.ret _)).bind fun old => ?_
  cases old with
  | none => exact hnone
  | some r => exact hsome r

lemma within_insertInto {k : Key} (r : Row k) (doNothing : Bool) (h : W k) :
    (insertInto k r doNothing).Within W := by
  refine Within.bind (Within.bind passive_view.within fun v => ?_) fun inserted => ?_
  · split
    · exact .ret _
    · refine within_attempt ((passive_lock _).within.bind fun _ =>
        passive_view.within.bind fun v => ?_) (.ret _)
      split
      · exact .ret _
      · exact (within_write _ h).bind fun _ => .ret _
  · split
    · exact .ret _
    · exact .raise _

lemma within_changeRow {change : RowChange} (h : change.In W) :
    (changeRow hash change).Within W := by
  cases change with
  | insertEdge child e doNothing =>
    exact (passive_groupEdgeBeforeWrite hash _ _ _).within.bind fun _ =>
      (within_insertInto _ _ h).bind fun _ => .ret _
  | updateEdge child set =>
    have hk : W (.edge child) := h
    refine within_lockedRow (.ret _) fun old => ?_
    dsimp only
    split
    · exact .ret _
    · exact (passive_groupEdgeBeforeWrite hash _ _ _).within.bind fun _ =>
        (within_write _ hk).bind fun _ => .ret _
  | deleteEdge child condition =>
    have hk : W (.edge child) := h
    refine within_lockedRow (.ret _) fun old => ?_
    dsimp only
    split
    · refine ((passive_lockGroupTree hash _).bind fun _ => passive_lockName hash _).within.bind
        fun _ => (within_write _ hk).bind fun _ => .ret _
    · exact .ret _
  | insertMembership group member relation doNothing =>
    exact (passive_groupMembershipBeforeWrite hash _ _ _).within.bind fun _ =>
      (within_insertInto _ _ h).bind fun _ => .ret _
  | updateMembership group member relation newGroup newMember newRelation =>
    refine within_lockedRow (.ret _) fun old => ?_
    exact (passive_groupMembershipBeforeWrite hash _ _ _).within.bind fun _ =>
      (within_write _ h.1).bind fun _ =>
      (within_insertInto _ _ h.2).bind fun _ => .ret _
  | deleteMembership group member relation =>
    have hk : W (.membership group member relation) := h
    refine within_lockedRow (.ret _) fun old => ?_
    refine ((passive_lockGroupTree hash _).bind fun _ => passive_lockName hash _).within.bind
      fun _ => (within_write _ hk).bind fun _ => .ret _
  | insertOwner owner kind =>
    exact (passive_ownerGroupKindGuard hash _ _).within.bind fun _ =>
      (within_insertInto _ _ h).bind fun _ => .ret _

lemma within_changeRows {changes : List RowChange} (h : ∀ c ∈ changes, c.In W) :
    (changeRows hash changes).Within W := by
  induction changes with
  | nil => exact .ret _
  | cons c cs ih =>
    rw [List.forall_mem_cons] at h
    exact (within_changeRow hash h.1).bind fun _ => (ih h.2).bind fun _ => .ret _

variable (hW : ∀ u g, W (.projection u g))
include hW

lemma within_insertFolded (user : Uuid) (row : PathRow) : (insertFolded user row).Within W := by
  unfold insertFolded
  split
  · split
    · exact (within_insertInto _ _ (hW _ _)).bind fun _ => .ret _
    · exact .raise _
  · exact .raise _

lemma within_rebuildUser (user : Uuid) : (rebuildUser hash user).Within W := by
  refine (passive_lockName hash _).within.bind fun _ =>
    Within.bind (passive_view.within.bind fun v => within_forM fun group _ => ?_) fun _ =>
    passive_view.within.bind fun v => within_forM fun row _ => within_insertFolded hW user row
  exact within_lockedRow (.ret _) fun _ => within_write _ (hW _ _)

lemma within_groupProjectionAfterWrite (e : Event) :
    (groupProjectionAfterWrite hash e).Within W := by
  cases e with
  | membership member => exact within_forM fun user _ => within_rebuildUser hash hW user
  | edge child =>
    refine passive_view.within.bind fun v => ?_
    dsimp only
    split
    · exact within_forM fun user _ => within_rebuildUser hash hW user
    · exact .ret _

lemma within_changeCounted {rows : List RowChange} (h : ∀ c ∈ rows, c.In W) :
    (changeCounted hash rows).Within W :=
  (within_changeRows hash h).bind fun _ =>
    (within_forM fun e _ => within_groupProjectionAfterWrite hash hW e).bind fun _ => .ret _

end Within

end Proxiima.Groups
