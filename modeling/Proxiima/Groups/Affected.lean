import Proxiima.Groups.TreeLocks

/-!
# Whom a change affects

A changed edge matters to the people who are members at or below its child, a changed
membership to its member: for everyone else the ways to reach a group stay the same. Between
a change and its AFTER trigger the projection of an affected user may be behind; for all
others it is in step with what the transaction sees.
-/

namespace Proxiima.Groups

open ReadCommitted Sql Setting

variable {hash : LockName → ℕ} {σ σ' : Side} {v v' : Tables} {u g : Uuid} {r : Role}

/-! ### Ways to reach a group -/

lemma PathRole.source (h : PathRole v u g r) :
    ∃ s relation, IsMember v s u relation ∧ Above (parent v) s g := by
  induction h with
  | direct h => exact ⟨_, _, h, .refl⟩
  | up _ he ih =>
    obtain ⟨s, relation, hmem, hsg⟩ := ih
    exact ⟨s, relation, hmem, hsg.tail (up_parent.2 ⟨_, he, rfl⟩)⟩

/-- Ways into a detached set depend on the tables inside it only. -/
lemma PathRole.congr {O : Set Uuid} (hO : Detached (parent v) O)
    (he : ∀ x ∈ O, edgeOf v' x = edgeOf v x)
    (hm : ∀ x ∈ O, ∀ relation, IsMember v x u relation → IsMember v' x u relation)
    (h : PathRole v u g r) (hg : g ∈ O) : PathRole v' u g r := by
  induction h with
  | direct h => exact .direct (hm _ hg _ h)
  | up _ hedge ih =>
    have hmem := (hO _ _ (up_parent.2 ⟨_, hedge, rfl⟩)).2 hg
    exact (ih hmem).up ((he _ hmem).trans hedge)

lemma pathRole_iff {O : Set Uuid} (hO : Detached (parent v) O) (hO' : Detached (parent v') O)
    (he : ∀ x ∈ O, edgeOf v' x = edgeOf v x)
    (hm : ∀ x ∈ O, ∀ relation, IsMember v' x u relation ↔ IsMember v x u relation) (hg : g ∈ O) :
    PathRole v' u g r ↔ PathRole v u g r :=
  ⟨fun h => h.congr hO' (fun x hx => (he x hx).symm) (fun x hx _ => (hm x hx _).1) hg,
    fun h => h.congr hO he (fun x hx _ => (hm x hx _).2) hg⟩

namespace Frame

variable (h : Frame hash σ σ') (ho : Own hash σ)
include h

lemma refl : Frame hash σ σ :=
  ⟨rfl, rfl, fun _ _ => rfl, detached_db σ, fun _ _ _ _ => Iff.rfl, fun _ _ _ => rfl,
    h.sound, h.sound⟩

lemma pathRole_db (hg : Owned hash σ g) : PathRole σ'.db u g r ↔ PathRole σ.db u g r :=
  pathRole_iff (detached_db σ) h.detached h.edge (fun x hx => h.member x hx u) hg

include ho

lemma pathRole_inside (hg : Owned hash σ g) : PathRole σ'.view u g r ↔ PathRole σ.view u g r :=
  pathRole_iff ho.detached_view (h.detached_view' ho) (fun _ hx => h.edge_view hx)
    (fun _ hx => h.member_view hx u) hg

lemma pathRole_outside (hg : ¬ Owned hash σ g) : PathRole σ'.view u g r ↔ PathRole σ'.db u g r := by
  refine pathRole_iff h.detached.compl (h.detached_view' ho).compl
    (fun x hx => h.edge_outside ho hx) (fun x hx relation => ?_) hg
  have hk : Key.membership x u relation ∉ σ'.writes.keys := by
    rw [h.writes]
    exact fun hk => hx (ho.member x u relation hk)
  rw [IsMember, IsMember, Local.view, get_append_of_notMem hk]

end Frame

/-! ### Projections in step -/

/-- The projection of `u` fits what the transaction sees: nothing of it was touched, or it
was rebuilt under its lock. -/
def InStep (hash : LockName → ℕ) (σ : Side) (u : Uuid) : Prop :=
  ((∀ g r, PathRole σ.view u g r ↔ PathRole σ.db u g r) ∧
      ∀ g, Key.projection u g ∉ σ.writes.keys) ∨
    (projectionLock hash u ∈ σ.held ∧
      ∀ g, IsProjected σ.view u g (get σ.view (.projection u g)))

/-- A projection computed for the view stays right while its lock is held: what the lock
does not protect is committed, and the committed projection is right. -/
lemma Frame.isProjected (h : Frame hash σ σ') (ho : Own hash σ)
    (hl : projectionLock hash u ∈ σ.held) {o : Option Role} (hp : IsProjected σ.view u g o) :
    IsProjected σ'.view u g o := by
  by_cases hg : Owned hash σ g
  · exact (IsProjected.congr fun r => h.pathRole_inside ho hg).2 hp
  · have hdb : IsProjected σ.db u g o :=
      (IsProjected.congr fun r => h.refl.pathRole_outside ho hg).1 hp
    rw [hdb.unique (h.sound.projected u g), ← h.projection u hl g]
    exact (IsProjected.congr fun r => h.pathRole_outside ho hg).2 (h.sound'.projected u g)

lemma Frame.get_projection (h : Frame hash σ σ') (hl : projectionLock hash u ∈ σ.held)
    (g : Uuid) : get σ'.view (.projection u g) = get σ.view (.projection u g) := by
  rw [Local.view, Local.view, h.writes]
  exact get_append_congr _ (h.projection u hl g)

lemma Frame.inStep (h : Frame hash σ σ') (ho : Own hash σ) (hs : InStep hash σ u) :
    InStep hash σ' u := by
  rcases hs with ⟨hpaths, hkeys⟩ | ⟨hl, hproj⟩
  · refine .inl ⟨fun g r => ?_, h.writes ▸ hkeys⟩
    by_cases hg : Owned hash σ g
    · rw [h.pathRole_inside ho hg, hpaths, h.pathRole_db hg]
    · exact h.pathRole_outside ho hg
  · refine .inr ⟨h.held ▸ hl, fun g => ?_⟩
    rw [h.get_projection hl]
    exact h.isProjected ho hl (hproj g)

/-- The AFTER trigger of the event will rebuild `u`. -/
def Affects (v : Tables) (u : Uuid) : Event → Prop
  | .membership member => member = u
  | .edge child => ∃ s relation, IsMember v s u relation ∧ Above (parent v) s child

lemma Frame.affects (h : Frame hash σ σ') (ho : Own hash σ) {e : Event}
    (he : ∀ c, e = .edge c → Owned hash σ c) (ha : Affects σ.view u e) : Affects σ'.view u e := by
  cases e with
  | membership m => exact ha
  | edge c =>
    obtain ⟨s, relation, hmem, hsc⟩ := ha
    have hs : Owned hash σ s := (ho.detached_view.mem_iff hsc).2 (he c rfl)
    refine ⟨s, relation, (h.member_view hs u relation).2 hmem, ?_⟩
    exact ho.detached_view.above_congr (fun z hz => h.parent_inside hz) hs hsc

/-- The users of `users` and those affected by `events` may be behind; all others are in
step. -/
structure Pending (hash : LockName → ℕ) (users : List Uuid) (events : List Event) (σ : Side) :
    Prop where
  own : Own hash σ
  owned : ∀ c, Event.edge c ∈ events → Owned hash σ c
  inStep : ∀ u, InStep hash σ u ∨ u ∈ users ∨ ∃ e ∈ events, Affects σ.view u e

lemma Own.acquire (h : Own hash σ) (ls : List Lock) : Own hash (σ.acquire ls) where
  acyclic := h.acyclic
  edge c hc := ⟨(h.edge c hc).1.acquire ls, fun e he => ((h.edge c hc).2 e he).acquire ls⟩
  member g u relation hk := (h.member g u relation hk).acquire ls
  projection u g hk := List.mem_append_right _ (h.projection u g hk)

lemma InStep.acquire (h : InStep hash σ u) (ls : List Lock) : InStep hash (σ.acquire ls) u :=
  h.imp id fun ⟨hl, hp⟩ => ⟨List.mem_append_right _ hl, hp⟩

lemma Pending.acquire {users : List Uuid} {events : List Event} (h : Pending hash users events σ)
    (ls : List Lock) : Pending hash users events (σ.acquire ls) where
  own := h.own.acquire ls
  owned c hc := (h.owned c hc).acquire ls
  inStep u := (h.inStep u).imp (InStep.acquire · ls) id

lemma carried_pending (users : List Uuid) (events : List Event) :
    Carried hash (Pending hash users events) where
  stable :=
    { own := fun _ h => h.own
      rely := fun σ σ' h hr => by
        have hf := frame_of_rely hr
        refine ⟨hf.own h.own, fun c hc => hf.owned (h.owned c hc), fun u => ?_⟩
        rcases h.inStep u with hu | hu | ⟨e, he, ha⟩
        · exact .inl (hf.inStep h.own hu)
        · exact .inr (.inl hu)
        · refine .inr (.inr ⟨e, he, hf.affects h.own (fun c hc => h.owned c (hc ▸ he)) ha⟩) }
  monotone _ ls h := h.acquire ls

end Proxiima.Groups
