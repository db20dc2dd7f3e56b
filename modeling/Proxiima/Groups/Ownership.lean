import Proxiima.Groups.Roles
import Proxiima.Groups.Writes
import Proxiima.ReadCommitted.Soundness

/-!
# Which trees a transaction owns

A transaction owns a group when it holds the lock of the committed root of the group's
tree. It writes only edges and memberships of groups it owns, and a new parent is owned
too, so the owned groups form a set that no edge enters or leaves, neither in the committed
tables nor in the transaction's view. Two transactions never own the same group. What
another transaction commits therefore leaves the owned part as it was.
-/

namespace Proxiima.Groups

open ReadCommitted Sql

abbrev Side := Local Row Lock Error (List Statement) Unit

variable (hash : LockName → ℕ)

def treeLock (root : Uuid) : Lock := .advisory (hash (.groupTree root))

def projectionLock (user : Uuid) : Lock := .advisory (hash (.groupProjection user))

/-- The transaction holds the lock of the committed tree that `x` is in. -/
def Owned (σ : Side) (x : Uuid) : Prop :=
  ∃ r, IsRoot (parent σ.db) x r ∧ treeLock hash r ∈ σ.held

/-- The side of a writer of the group tables. -/
structure Own (σ : Side) : Prop where
  acyclic : Acyclic (parent σ.view)
  edge : ∀ c, Key.edge c ∈ σ.writes.keys →
    Owned hash σ c ∧ ∀ e, edgeOf σ.view c = some e → Owned hash σ e.parent
  member : ∀ g u relation, Key.membership g u relation ∈ σ.writes.keys → Owned hash σ g
  projection : ∀ u g, Key.projection u g ∈ σ.writes.keys → projectionLock hash u ∈ σ.held

/-- The committed tables: a forest, and a projection that is what it is meant to be. -/
structure Sound (db : Tables) : Prop where
  acyclic : Acyclic (parent db)
  projected : ∀ u g, IsProjected db u g (get db (.projection u g))

def setting : Setting Row Lock Error ℕ Unit (List Statement) Unit where
  toSystem := system hash
  inv db _ := Sound db
  own := Own hash

variable {hash} {σ σ' υ : Side}

/-! ### Owned groups -/

lemma detached_db (σ : Side) : Detached (parent σ.db) {x | Owned hash σ x} := by
  intro x y hxy
  constructor
  · rintro ⟨r, hr, hl⟩
    exact ⟨r, hr.of_above (.single hxy), hl⟩
  · rintro ⟨r, hr, hl⟩
    exact ⟨r, hr.below (.single hxy), hl⟩

lemma edgeOf_view_of_notMem {c : Uuid} (h : Key.edge c ∉ σ.writes.keys) :
    edgeOf σ.view c = edgeOf σ.db c :=
  get_append_of_notMem h

lemma Own.edge_notMem (h : Own hash σ) {c : Uuid} (hc : ¬ Owned hash σ c) :
    Key.edge c ∉ σ.writes.keys :=
  fun hmem => hc (h.edge c hmem).1

lemma Own.detached_view (h : Own hash σ) : Detached (parent σ.view) {x | Owned hash σ x} := by
  intro x y hxy
  obtain ⟨e, he, rfl⟩ := up_parent.1 hxy
  by_cases hx : Key.edge x ∈ σ.writes.keys
  · obtain ⟨hox, hoe⟩ := h.edge x hx
    exact ⟨fun _ => hoe e he, fun _ => hox⟩
  · rw [edgeOf_view_of_notMem hx] at he
    exact detached_db σ x _ (up_parent.2 ⟨e, he, rfl⟩)

variable {x : Uuid}

/-- Transactions with compatible locks own different trees. -/
lemma Owned.disjoint (h : Owned hash υ x) (hdb : υ.db = σ.db)
    (hc : (setting hash).Compatible υ.held σ.held) : ¬ Owned hash σ x := by
  rintro ⟨r, hr, hl⟩
  obtain ⟨r', hr', hl'⟩ := h
  rw [hdb] at hr'
  obtain rfl := hr.unique hr'
  have := hc _ hl' _ hl
  simp [setting, system] at this

/-! ### What others leave alone -/

/-- One other transaction ended: the owned groups, and the projections whose lock is held,
are as they were. -/
structure Frame (hash : LockName → ℕ) (σ σ' : Side) : Prop where
  writes : σ'.writes = σ.writes
  held : σ'.held = σ.held
  edge : ∀ x, Owned hash σ x → edgeOf σ'.db x = edgeOf σ.db x
  detached : Detached (parent σ'.db) {x | Owned hash σ x}
  member : ∀ g, Owned hash σ g → ∀ u relation, IsMember σ'.db g u relation ↔
    IsMember σ.db g u relation
  projection : ∀ u, projectionLock hash u ∈ σ.held → ∀ g,
    get σ'.db (.projection u g) = get σ.db (.projection u g)
  sound : Sound σ.db
  sound' : Sound σ'.db

lemma frame_of_rely (h : (setting hash).Rely σ σ') : Frame hash σ σ' := by
  cases h with
  | commit υ r hinv hdb hhist hown hrow hcompat hinv' =>
    have hown : Own hash υ := hown
    have hview : υ.view = υ.writes ++ σ.db := by rw [Local.view, hdb]
    refine ⟨rfl, rfl, fun x hx => ?_, fun x y hxy => ?_, fun g hg u relation => ?_,
      fun u hu g => ?_, hinv, hinv'⟩
    · exact get_append_of_notMem fun hk => (hown.edge x hk).1.disjoint hdb hcompat hx
    · obtain ⟨e, he, rfl⟩ := up_parent.1 hxy
      by_cases hx : Key.edge x ∈ υ.writes.keys
      · -- an edge the other wrote: both its ends are owned by the other
        obtain ⟨hox, hoe⟩ := hown.edge x hx
        have hoe := hoe e (hview ▸ he)
        exact ⟨fun h => absurd h (hox.disjoint hdb hcompat),
          fun h => absurd h (hoe.disjoint hdb hcompat)⟩
      · have he' : edgeOf σ.db x = some e := (get_append_of_notMem hx).symm.trans he
        exact detached_db σ x _ (up_parent.2 ⟨e, he', rfl⟩)
    · have hk : Key.membership g u relation ∉ υ.writes.keys :=
        fun hk => (hown.member g u relation hk).disjoint hdb hcompat hg
      rw [IsMember, IsMember, get_append_of_notMem hk]
    · refine get_append_of_notMem fun hk => ?_
      have := hcompat _ (hown.projection u g hk) _ hu
      simp [setting, system] at this
  | refuse υ e hinv hdb hinv' =>
    exact ⟨rfl, rfl, fun _ _ => rfl, detached_db σ, fun _ _ _ _ => Iff.rfl, fun _ _ _ => rfl,
      hinv, hinv'⟩

namespace Frame

lemma owned (h : Frame hash σ σ') (hx : Owned hash σ x) : Owned hash σ' x := by
  obtain ⟨r, hr, hl⟩ := hx
  refine ⟨r, hr.congr fun z hz => ?_, h.held ▸ hl⟩
  rw [parent, parent, h.edge z ⟨r, hr.of_above hz, hl⟩]

lemma edge_view (h : Frame hash σ σ') (hx : Owned hash σ x) :
    edgeOf σ'.view x = edgeOf σ.view x := by
  rw [Local.view, Local.view, h.writes]
  exact get_append_congr _ (h.edge x hx)

lemma parent_inside (h : Frame hash σ σ') (hx : x ∈ {x | Owned hash σ x}) :
    parent σ'.view x = parent σ.view x := by
  rw [parent, parent, h.edge_view hx]

lemma member_view (h : Frame hash σ σ') {g : Uuid} (hg : Owned hash σ g) (u : Uuid)
    (relation : Relation) : IsMember σ'.view g u relation ↔ IsMember σ.view g u relation := by
  have := h.member g hg u relation
  unfold IsMember Local.view at *
  rw [h.writes]
  by_cases hk : Key.membership g u relation ∈ σ.writes.keys
  · rw [get_append_of_mem hk σ'.db σ.db]
  · rw [get_append_of_notMem hk, get_append_of_notMem hk]
    exact this

variable (h : Frame hash σ σ') (ho : Own hash σ)
include h ho

/-- Outside the owned groups a transaction sees what is committed. -/
lemma edge_outside (hx : ¬ Owned hash σ x) : edgeOf σ'.view x = edgeOf σ'.db x :=
  edgeOf_view_of_notMem (h.writes ▸ ho.edge_notMem hx)

lemma parent_outside (hx : x ∉ {x | Owned hash σ x}) : parent σ'.view x = parent σ'.db x := by
  rw [parent, parent, h.edge_outside ho hx]

lemma detached_view' : Detached (parent σ'.view) {x | Owned hash σ x} :=
  ho.detached_view.glue h.detached (fun _ hx => h.parent_inside hx)
    fun _ hx => h.parent_outside ho hx

lemma own : Own hash σ' where
  acyclic := Acyclic.glue (h.detached_view' ho) (fun _ hx => h.parent_inside hx)
    (fun _ hx => h.parent_outside ho hx) ho.acyclic h.sound'.acyclic
  edge c hc := by
    obtain ⟨hoc, hoe⟩ := ho.edge c (h.writes ▸ hc)
    refine ⟨h.owned hoc, fun e he => h.owned (hoe e ?_)⟩
    rwa [h.edge_view hoc] at he
  member g u relation hk := h.owned (ho.member g u relation (h.writes ▸ hk))
  projection u g hk := h.held ▸ ho.projection u g (h.writes ▸ hk)

end Frame

end Proxiima.Groups
