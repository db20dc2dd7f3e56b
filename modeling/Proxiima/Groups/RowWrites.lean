import Proxiima.Groups.Affected

/-!
# Single row writes

After a row of the group tables is written, the users whose ways to reach a group changed are
those its AFTER trigger will rebuild; users already waiting for an earlier event of the
statement still wait for that one or now for this one. The lowest changed edge on a way is
what the argument turns on: below it the way is still there, so its members are found.
-/

namespace Proxiima.Groups

open ReadCommitted Sql Setting

variable {hash : LockName → ℕ} {σ σ' : Side} {v : Tables} {u g c : Uuid} {r : Role}
variable {users : List Uuid} {events : List Event}

/-! ### Edges -/

lemma edgeOf_cons_self (c : Uuid) (o : Option Edge) (v : Tables) :
    edgeOf (⟨.edge c, o⟩ :: v) c = o :=
  get_cons_self _ _ _

variable {x : Uuid} {e : Event} {o : Option Unit}

lemma edgeOf_cons_ne (h : x ≠ c) (o : Option Edge) (v : Tables) :
    edgeOf (⟨.edge c, o⟩ :: v) x = edgeOf v x :=
  get_cons_ne _ _ (by simpa using h)

lemma parent_cons (c : Uuid) (o : Option Edge) (v : Tables) :
    parent (⟨.edge c, o⟩ :: v) = Function.update (parent v) c (o.map Edge.parent) := by
  funext x
  by_cases hx : x = c
  · subst hx
    rw [parent, edgeOf_cons_self, Function.update_self]
  · rw [parent, edgeOf_cons_ne hx, Function.update_of_ne hx, parent]

lemma isMember_cons_edge {o : Option Edge} {relation : Relation} :
    IsMember (⟨.edge c, o⟩ :: v) g u relation ↔ IsMember v g u relation := by
  rw [IsMember, IsMember, get_cons_ne _ _ (by simp)]

/-- Up to the first use of the edge at `c`, a chain is there with and without it. -/
lemma above_update {f : Uuid → Option Uuid} {o : Option Uuid} {y : Uuid} (h : Above f x y) :
    Above (Function.update f c o) x y ∨ Above (Function.update f c o) x c := by
  induction h with
  | refl => exact .inl .refl
  | @tail y z _ hyz ih =>
    rcases ih with ih | ih
    · by_cases hy : y = c
      · exact .inr (hy ▸ ih)
      · refine .inl (ih.tail ?_)
        rw [Up, Function.update_of_ne hy]
        exact hyz
    · exact .inr ih

/-- A changed edge does not matter to a user without a membership at or below its child. -/
lemma pathRole_cons_edge {o : Option Edge} (h : ¬ Affects (⟨.edge c, o⟩ :: v) u (.edge c)) :
    PathRole (⟨.edge c, o⟩ :: v) u g r ↔ PathRole v u g r := by
  have hne : ∀ {g r}, PathRole (⟨.edge c, o⟩ :: v) u g r → g ≠ c := by
    rintro g r hp rfl
    exact h hp.source
  constructor
  · intro hp
    induction hp with
    | direct hm => exact .direct (isMember_cons_edge.1 hm)
    | up hp he ih => exact ih.up ((edgeOf_cons_ne (hne hp) _ _).symm.trans he)
  · intro hp
    induction hp with
    | direct hm => exact .direct (isMember_cons_edge.2 hm)
    | up _ he ih => exact ih.up ((edgeOf_cons_ne (hne ih) _ _).trans he)

lemma affects_cons_edge {o : Option Edge} (h : Affects v u e) :
    Affects (⟨.edge c, o⟩ :: v) u e ∨ Affects (⟨.edge c, o⟩ :: v) u (.edge c) := by
  cases e with
  | membership m => exact .inl h
  | edge c' =>
    obtain ⟨s, relation, hm, hs⟩ := h
    have hm' : IsMember (⟨.edge c, o⟩ :: v) s u relation := isMember_cons_edge.2 hm
    rcases above_update (c := c) (o := o.map Edge.parent) hs with hs | hs
    · exact .inl ⟨s, relation, hm', by rwa [parent_cons]⟩
    · exact .inr ⟨s, relation, hm', by rwa [parent_cons]⟩

/-- The child is owned, and so is a new parent, which is not below the child. -/
structure Attachable (hash : LockName → ℕ) (σ : Side) (c : Uuid) (o : Option Edge) : Prop where
  child : Owned hash σ c
  parent : ∀ e, o = some e → Owned hash σ e.parent ∧ ¬ Above (parent σ.view) e.parent c

lemma Own.put_edge (h : Own hash σ) {o : Option Edge} (ha : Attachable hash σ c o) :
    Own hash (σ.put [⟨.edge c, o⟩]) where
  acyclic := by
    rw [Local.view_put, List.singleton_append, parent_cons]
    cases o with
    | none =>
      refine h.acyclic.mono fun x y hxy => ?_
      by_cases hx : x = c
      · subst hx
        simp [Up] at hxy
      · rwa [Up, Function.update_of_ne hx] at hxy
    | some e => exact h.acyclic.update (ha.parent e rfl).2
  edge x hx := by
    rw [Local.view_put, List.singleton_append]
    by_cases hxc : x = c
    · subst hxc
      refine ⟨ha.child, fun e he => ?_⟩
      rw [edgeOf_cons_self] at he
      exact (ha.parent e he).1
    · have hx' : Key.edge x ∈ σ.writes.keys := by simpa [hxc] using hx
      refine ⟨(h.edge x hx').1, fun e he => ?_⟩
      rw [edgeOf_cons_ne hxc] at he
      exact (h.edge x hx').2 e he
  member g u relation hk := h.member g u relation (by simpa using hk)
  projection u g hk := h.projection u g (by simpa using hk)

theorem Pending.put_edge (h : Pending hash users events σ) {o : Option Edge}
    (ha : Attachable hash σ c o) :
    Pending hash users (events ++ [.edge c]) (σ.put [⟨.edge c, o⟩]) := by
  refine ⟨h.own.put_edge ha, fun x hx => ?_, fun u => ?_⟩
  · rcases List.mem_append.1 hx with hx | hx
    · exact h.owned x hx
    · obtain rfl : x = c := by simpa using hx
      exact ha.child
  by_cases hu : Affects (⟨.edge c, o⟩ :: σ.view) u (.edge c)
  · exact .inr (.inr ⟨.edge c, by simp, by simpa using hu⟩)
  rcases h.inStep u with (⟨hpaths, hkeys⟩ | ⟨hl, hproj⟩) | hmem | ⟨e, he, hae⟩
  · refine .inl (.inl ⟨fun g r => ?_, fun g => by simpa using hkeys g⟩)
    rw [Local.view_put, List.singleton_append, pathRole_cons_edge hu]
    exact hpaths g r
  · refine .inl (.inr ⟨hl, fun g => ?_⟩)
    rw [Local.view_put, List.singleton_append, get_cons_ne _ _ (by simp)]
    exact (IsProjected.congr fun r => pathRole_cons_edge hu).2 (hproj g)
  · exact .inr (.inl hmem)
  · refine .inr (.inr ⟨e, by simp [he], ?_⟩)
    rcases affects_cons_edge (c := c) (o := o) hae with hae | hae
    · simpa using hae
    · exact absurd hae hu

/-! ### Memberships -/

variable {m : Uuid} {relation : Relation}

lemma isMember_cons_ne (hu : u ≠ m) {relation' : Relation} :
    IsMember (⟨.membership g m relation, o⟩ :: v) x u relation' ↔ IsMember v x u relation' := by
  rw [IsMember, IsMember, get_cons_ne]
  simp [hu]

lemma edgeOf_cons_membership (x : Uuid) :
    edgeOf (⟨.membership g m relation, o⟩ :: v) x = edgeOf v x :=
  get_cons_ne _ _ (by simp)

lemma parent_cons_membership : parent (⟨.membership g m relation, o⟩ :: v) = parent v := by
  funext x
  rw [parent, parent, edgeOf_cons_membership]

/-- A membership matters to its member only. -/
lemma pathRole_cons_membership (hu : u ≠ m) :
    PathRole (⟨.membership g m relation, o⟩ :: v) u x r ↔ PathRole v u x r := by
  constructor
  · intro hp
    induction hp with
    | direct hm => exact .direct ((isMember_cons_ne hu).1 hm)
    | up _ he ih => exact ih.up ((edgeOf_cons_membership _).symm.trans he)
  · intro hp
    induction hp with
    | direct hm => exact .direct ((isMember_cons_ne hu).2 hm)
    | up _ he ih => exact ih.up ((edgeOf_cons_membership _).trans he)

lemma affects_cons_membership (hu : u ≠ m) (h : Affects v u e) :
    Affects (⟨.membership g m relation, o⟩ :: v) u e := by
  cases e with
  | membership m' => exact h
  | edge c =>
    obtain ⟨s, relation', hm, hs⟩ := h
    exact ⟨s, relation', (isMember_cons_ne hu).2 hm, by rwa [parent_cons_membership]⟩

lemma Own.put_membership (h : Own hash σ) (hg : Owned hash σ g) :
    Own hash (σ.put [⟨.membership g m relation, o⟩]) where
  acyclic := by
    rw [Local.view_put, List.singleton_append, parent_cons_membership]
    exact h.acyclic
  edge x hx := by
    rw [Local.view_put, List.singleton_append, edgeOf_cons_membership]
    exact h.edge x (by simpa using hx)
  member g' u relation' hk := by
    rw [Local.keys_put, List.mem_append] at hk
    rcases hk with hk | hk
    · obtain ⟨rfl, -⟩ : g' = g ∧ _ := by simpa using hk
      exact hg
    · exact h.member g' u relation' hk
  projection u g hk := h.projection u g (by simpa using hk)

theorem Pending.put_membership (h : Pending hash users events σ) (hg : Owned hash σ g) :
    Pending hash users (events ++ [.membership m]) (σ.put [⟨.membership g m relation, o⟩]) := by
  refine ⟨h.own.put_membership hg, fun x hx => h.owned x (by simpa using hx), fun u => ?_⟩
  by_cases hu : u = m
  · exact .inr (.inr ⟨.membership m, by simp, hu.symm⟩)
  rcases h.inStep u with (⟨hpaths, hkeys⟩ | ⟨hl, hproj⟩) | hmem | ⟨e, he, hae⟩
  · refine .inl (.inl ⟨fun x r => ?_, fun x => by simpa using hkeys x⟩)
    rw [Local.view_put, List.singleton_append, pathRole_cons_membership hu]
    exact hpaths x r
  · refine .inl (.inr ⟨hl, fun x => ?_⟩)
    rw [Local.view_put, List.singleton_append, get_cons_ne _ _ (by simp)]
    exact (IsProjected.congr fun r => pathRole_cons_membership hu).2 (hproj x)
  · exact .inr (.inl hmem)
  · refine .inr (.inr ⟨e, by simp [he], ?_⟩)
    rw [Local.view_put, List.singleton_append]
    exact affects_cons_membership hu hae

/-! ### Other rows -/

/-- Writes to owners and projections only. -/
def Quiet (ws : Tables) : Prop :=
  ∀ k ∈ ws.keys, (∃ o, k = .owner o) ∨ ∃ u g, k = .projection u g

section Quiet

variable {ws : Tables} (hq : Quiet ws)
include hq

lemma Quiet.edgeOf (x : Uuid) : edgeOf (ws ++ v) x = edgeOf v x := by
  refine get_append_of_notMem fun hk => ?_
  rcases hq _ hk with ⟨_, h⟩ | ⟨_, _, h⟩ <;> cases h

lemma Quiet.isMember : IsMember (ws ++ v) x u relation ↔ IsMember v x u relation := by
  rw [IsMember, IsMember, get_append_of_notMem fun hk => ?_]
  rcases hq _ hk with ⟨_, h⟩ | ⟨_, _, h⟩ <;> cases h

lemma Quiet.parent : parent (ws ++ v) = parent v := by
  funext x
  rw [Groups.parent, Groups.parent, hq.edgeOf]

lemma Quiet.pathRole : PathRole (ws ++ v) u x r ↔ PathRole v u x r := by
  constructor
  · intro hp
    induction hp with
    | direct hm => exact .direct (hq.isMember.1 hm)
    | up _ he ih => exact ih.up ((hq.edgeOf _).symm.trans he)
  · intro hp
    induction hp with
    | direct hm => exact .direct (hq.isMember.2 hm)
    | up _ he ih => exact ih.up ((hq.edgeOf _).trans he)

lemma Quiet.affects : Affects (ws ++ v) u e ↔ Affects v u e := by
  cases e with
  | membership m => rfl
  | edge c => simp only [Affects, hq.isMember, hq.parent]

lemma Own.put_quiet (h : Own hash σ)
    (hl : ∀ u g, Key.projection u g ∈ ws.keys → projectionLock hash u ∈ σ.held) :
    Own hash (σ.put ws) where
  acyclic := by
    rw [Local.view_put, hq.parent]
    exact h.acyclic
  edge x hx := by
    rw [Local.view_put, hq.edgeOf]
    refine h.edge x ((List.mem_append.1 (Local.keys_put σ ws ▸ hx)).resolve_left fun hk => ?_)
    rcases hq _ hk with ⟨_, h⟩ | ⟨_, _, h⟩ <;> cases h
  member g u relation hk := by
    refine h.member g u relation
      ((List.mem_append.1 (Local.keys_put σ ws ▸ hk)).resolve_left fun hk => ?_)
    rcases hq _ hk with ⟨_, h⟩ | ⟨_, _, h⟩ <;> cases h
  projection u g hk := by
    rcases List.mem_append.1 (Local.keys_put σ ws ▸ hk) with hk | hk
    · exact hl u g hk
    · exact h.projection u g hk

/-- Projection rows are written only for users who are waiting for it. -/
theorem Pending.put_quiet (h : Pending hash users events σ)
    (hl : ∀ u g, Key.projection u g ∈ ws.keys → projectionLock hash u ∈ σ.held ∧ u ∈ users) :
    Pending hash users events (σ.put ws) := by
  refine ⟨h.own.put_quiet hq fun u g hk => (hl u g hk).1, h.owned, fun u => ?_⟩
  by_cases hu : u ∈ users
  · exact .inr (.inl hu)
  have hfree : ∀ g, Key.projection u g ∉ ws.keys := fun g hk => hu (hl u g hk).2
  rcases h.inStep u with (⟨hpaths, hkeys⟩ | ⟨hlock, hproj⟩) | hmem | ⟨e, he, hae⟩
  · refine .inl (.inl ⟨fun g r => ?_, fun g hk => ?_⟩)
    · rw [Local.view_put, hq.pathRole]
      exact hpaths g r
    · rcases List.mem_append.1 (Local.keys_put σ ws ▸ hk) with hk | hk
      · exact hfree g hk
      · exact hkeys g hk
  · refine .inl (.inr ⟨hlock, fun g => ?_⟩)
    rw [Local.view_put, get_append_of_notMem (hfree g)]
    exact (IsProjected.congr fun r => hq.pathRole).2 (hproj g)
  · exact .inr (.inl hmem)
  · refine .inr (.inr ⟨e, he, ?_⟩)
    rw [Local.view_put]
    exact hq.affects.2 hae

end Quiet

end Proxiima.Groups
