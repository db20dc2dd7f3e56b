import Proxiima.Groups.Queries

/-!
# The projection of roles

What `group_role_projection` is meant to hold: a row for a user and a group exactly when the
user reaches the group, with the join of the roles over all ways to reach it. The query of
`rebuild_group_role_projection` works on ranks; its rows are the ranks of those roles, and
folding them by maximum is taking the join.
-/

namespace Proxiima.Groups

open ReadCommitted Sql

/-- `u` reaches the group with this role: through one direct membership and a chain of
edges above it, the roles met along the way. -/
inductive PathRole (v : Tables) (u : Uuid) : Uuid → Role → Prop where
  | direct {group : Uuid} {relation : Relation} (h : IsMember v group u relation) :
      PathRole v u group relation.role
  | up {group : Uuid} {r : Role} {e : Edge} (h : PathRole v u group r)
      (he : edgeOf v group = some e) : PathRole v u e.parent (r.meet e.relation.role)

/-- What the projection row of `u` and the group is meant to be. -/
def IsProjected (v : Tables) (u group : Uuid) : Option Role → Prop
  | none => ∀ r, ¬ PathRole v u group r
  | some R => (∃ r, PathRole v u group r) ∧ IsLUB {r | PathRole v u group r} R

/-- The join of a list of roles. -/
def joinAll : List Role → Option Role
  | [] => none
  | r :: rs => some (rs.foldl Role.join r)

/-- Every way the user reaches a group, with `Role.meet` along it. -/
def reached (v : Tables) (u : Uuid) : List (Uuid × Role) :=
  recursive (fun p => ((edgeOf v p.1).map fun e => (e.parent, p.2.meet e.relation.role)).toList)
    (rounds v)
    ((memberships v).filterMap fun (group, member, relation) =>
      if member = u then some (group, relation.role) else none)

def rolesIn (v : Tables) (u group : Uuid) : List Role :=
  ((reached v u).filter fun p => p.1 = group).map Prod.snd

/-- The projection computed from scratch, with `Role.join` across the ways. -/
def fromScratch (v : Tables) (u group : Uuid) : Option Role := joinAll (rolesIn v u group)

variable {v v' : Tables} {u group : Uuid}

lemma IsProjected.unique {o o' : Option Role} (h : IsProjected v u group o)
    (h' : IsProjected v u group o') : o = o' := by
  cases o with
  | none =>
    cases o' with
    | none => rfl
    | some R => exact absurd h'.1.choose_spec (h _)
  | some R =>
    cases o' with
    | none => exact absurd h.1.choose_spec (h' _)
    | some R' => rw [h.2.unique h'.2]

lemma IsProjected.congr (h : ∀ r, PathRole v u group r ↔ PathRole v' u group r) {o : Option Role} :
    IsProjected v u group o ↔ IsProjected v' u group o := by
  cases o <;> simp only [IsProjected, h]

/-- The join of a list is its least upper bound. -/
lemma isLUB_foldl_join (r : Role) (rs : List Role) :
    IsLUB {x | x ∈ r :: rs} (rs.foldl Role.join r) := by
  induction rs generalizing r with
  | nil => simp
  | cons s rs ih =>
    obtain ⟨hub, hleast⟩ := ih (r.join s)
    refine ⟨?_, fun b hb => hleast ?_⟩
    · rintro x (_ | ⟨_, hx⟩)
      · exact (le_sup_left (a := r) (b := s)).trans (hub List.mem_cons_self)
      · rcases List.mem_cons.1 hx with rfl | hx
        · exact (le_sup_right (a := r) (b := x)).trans (hub List.mem_cons_self)
        · exact hub (List.mem_cons_of_mem _ hx)
    · rintro x (_ | ⟨_, hx⟩)
      · exact sup_le (hb List.mem_cons_self) (hb (List.mem_cons_of_mem _ List.mem_cons_self))
      · exact hb (List.mem_cons_of_mem _ (List.mem_cons_of_mem _ hx))

/-- A list of all roles of `u` in a group, joined, is what the projection is meant to be. -/
lemma isProjected_of_roles {roles : List Role} (h : ∀ r, r ∈ roles ↔ PathRole v u group r) :
    IsProjected v u group (joinAll roles) := by
  cases roles with
  | nil =>
    intro r hr
    simpa using (h r).2 hr
  | cons r rs =>
    refine ⟨⟨r, (h r).1 List.mem_cons_self⟩, ?_⟩
    have hset : {x | PathRole v u group x} = {x | x ∈ r :: rs} := by
      ext x
      exact (h x).symm
    rw [hset]
    exact isLUB_foldl_join r rs

theorem mem_reached (h : Acyclic (parent v)) {p : Uuid × Role} :
    p ∈ reached v u ↔ PathRole v u p.1 p.2 := by
  obtain ⟨rank, hstep, hlt⟩ := exists_rank_up h
  unfold reached
  rw [mem_recursive (fun p => rank p.1) (fun a b hb => ?_) fun r _ => hlt r.1]
  · constructor
    · rintro ⟨start, hstart, hreach⟩
      obtain ⟨⟨g, m, relation⟩, hmem, hif⟩ := List.mem_filterMap.1 hstart
      obtain ⟨rfl, rfl⟩ := by simpa using hif
      induction hreach with
      | refl => exact .direct (mem_memberships.1 hmem)
      | tail _ hb ih =>
        obtain ⟨e, he, rfl⟩ := by simpa using hb
        exact ih.up he
    · obtain ⟨g, r⟩ := p
      intro (hr : PathRole v u g r)
      induction hr with
      | @direct g relation hmem =>
        refine ⟨(g, relation.role), ?_, .refl⟩
        exact List.mem_filterMap.2 ⟨(g, u, relation), mem_memberships.2 hmem, by simp⟩
      | up _ he ih =>
        obtain ⟨start, hstart, hreach⟩ := ih
        exact ⟨start, hstart, hreach.tail (by simp [he])⟩
  · obtain ⟨e, he, rfl⟩ := by simpa using hb
    exact hstep _ _ (up_parent.2 ⟨e, he, rfl⟩)

lemma mem_rolesIn {r : Role} : r ∈ rolesIn v u group ↔ (group, r) ∈ reached v u := by
  simp [rolesIn]

/-- **The projection from scratch** is the join over all ways, and absent without one. -/
theorem fromScratch_isProjected (h : Acyclic (parent v)) (u group : Uuid) :
    IsProjected v u group (fromScratch v u group) :=
  isProjected_of_roles fun _ => mem_rolesIn.trans (mem_reached h)

/-! ### The ranks of the path query -/

def PathRow.ofRole (group : Uuid) (r : Role) : PathRow :=
  ⟨group, r.read.rank, r.write.rank, r.manage⟩

lemma relationRoles_eq (relation : Relation) : relationRoles relation =
    (relation.role.read.rank, relation.role.write.rank, relation.role.manage) := by
  cases relation <;> rfl

lemma PathRow.start_eq (group : Uuid) (relation : Relation) :
    PathRow.start group relation = .ofRole group relation.role := by
  simp [PathRow.start, PathRow.ofRole, relationRoles_eq]

lemma PathRow.step_ofRole (group : Uuid) (r : Role) (e : Edge) :
    (PathRow.ofRole group r).step e = .ofRole e.parent (r.meet e.relation.role) := by
  simp [PathRow.step, PathRow.ofRole, relationRoles_eq]

/-- The path query finds the ranks of the roles reached. -/
lemma paths_eq (v : Tables) (u : Uuid) :
    paths v u = (reached v u).map fun p => .ofRole p.1 p.2 := by
  unfold paths reached
  rw [← recursive_map (fun p : Uuid × Role => PathRow.ofRole p.1 p.2)]
  · congr 1
    rw [List.map_filterMap]
    refine List.filterMap_congr fun ⟨g, m, relation⟩ _ => ?_
    by_cases hm : m = u <;> simp [hm, PathRow.start_eq]
  · rintro ⟨g, r⟩
    cases he : edgeOf v g with
    | none => simp [PathRow.ofRole, he]
    | some e => simpa [PathRow.ofRole, he] using PathRow.step_ofRole g r e

lemma rank_foldl_join (r : Role) (rs : List Role) :
    (rs.foldl Role.join r).read.rank = (rs.map fun x => x.read.rank).foldl max r.read.rank ∧
      (rs.foldl Role.join r).write.rank = (rs.map fun x => x.write.rank).foldl max r.write.rank ∧
      (rs.foldl Role.join r).manage = (r :: rs).any Role.manage := by
  induction rs generalizing r with
  | nil => simp
  | cons s rs ih =>
    obtain ⟨hr, hw, hm⟩ := ih (r.join s)
    simp only [List.foldl_cons, List.map_cons, hr, hw, hm]
    simp [Bool.or_assoc]

lemma foldRows_ofRole (r : Role) (rs : List Role) :
    foldRows group ((r :: rs).map (.ofRole group)) = .ofRole group (rs.foldl Role.join r) := by
  obtain ⟨hr, hw, hm⟩ := rank_foldl_join r rs
  simp [foldRows, PathRow.ofRole, hr, hw, hm, Function.comp_def]

/-- **The rebuilt rows**: the query inserts one row for each group the user reaches, the
ranks of the projection from scratch. -/
theorem mem_folded {row : PathRow} :
    row ∈ folded v u ↔ ∃ R, fromScratch v u row.group = some R ∧ row = .ofRole row.group R := by
  have hrows : ∀ g, ((paths v u).filter fun p => p.group = g) =
      (rolesIn v u g).map (.ofRole g) := by
    intro g
    rw [paths_eq, rolesIn, List.filter_map, List.map_map]
    refine List.map_congr_left fun p hp => ?_
    obtain ⟨-, hg⟩ := List.mem_filter.1 hp
    simp only [Function.comp_apply]
    rw [show p.1 = g by simpa [PathRow.ofRole] using hg]
  have hrole : ∀ {p}, p ∈ paths v u → rolesIn v u p.group ≠ [] := by
    intro p hp hnil
    have hmem : p ∈ (paths v u).filter fun q => q.group = p.group := by simp [hp]
    simp [hrows, hnil] at hmem
  unfold folded
  simp only [List.mem_map, List.mem_dedup, hrows]
  constructor
  · rintro ⟨g, ⟨p, hp, rfl⟩, rfl⟩
    obtain ⟨r, rs, hrs⟩ := List.exists_cons_of_ne_nil (hrole hp)
    refine ⟨rs.foldl Role.join r, ?_, ?_⟩
    · simp only [fromScratch, foldRows, hrs, joinAll]
    · rw [hrs, foldRows_ofRole]
      rfl
  · rintro ⟨R, hR, hrow⟩
    unfold fromScratch at hR
    cases hrs : rolesIn v u row.group with
    | nil => simp [hrs, joinAll] at hR
    | cons r rs =>
      simp only [hrs, joinAll, Option.some.injEq] at hR
      refine ⟨row.group, ?_, ?_⟩
      · have hmem : PathRow.ofRole row.group r ∈ (paths v u).filter
          fun p => p.group = row.group := by
          simp [hrows, hrs]
        exact ⟨_, (List.mem_filter.1 hmem).1, rfl⟩
      · rw [hrs, foldRows_ofRole, hR, ← hrow]

lemma nodup_folded (v : Tables) (u : Uuid) : ((folded v u).map PathRow.group).Nodup := by
  have hgroups : (folded v u).map PathRow.group = ((paths v u).map PathRow.group).dedup := by
    simp [folded, foldRows, Function.comp_def]
  rw [hgroups]
  exact List.nodup_dedup _

end Proxiima.Groups
