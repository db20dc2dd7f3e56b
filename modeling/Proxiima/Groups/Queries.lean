import Proxiima.Groups.Tables
import Proxiima.Sql.Parents

/-!
# What the recursive queries answer

Over a forest each walk finds exactly the groups it is meant to: the root query the one
root above a group, the other two all ancestors and all descendants of it. Where the edges
closed a cycle the walks would not end, so every answer here is under the assumption that
they do not; the triggers keep it true.
-/

namespace Proxiima.Groups

open ReadCommitted Sql

variable {v : Tables}

lemma up_parent {child p : Uuid} :
    Up (parent v) child p ↔ ∃ e, edgeOf v child = some e ∧ e.parent = p := by
  simp [Up, parent, Option.map_eq_some_iff]

/-! ### Enough rounds -/

section

variable (h : Acyclic (parent v))
include h

lemma exists_rank_up :
    ∃ rank : Uuid → ℕ, (∀ x y, Up (parent v) x y → rank y < rank x) ∧ ∀ x, rank x < rounds v := by
  obtain ⟨rank, hstep, hle⟩ := exists_rank ((edges v).map fun e => e.2.parent).toFinset
    (fun x y hxy => by
      obtain ⟨e, he, rfl⟩ := up_parent.1 hxy
      exact List.mem_toFinset.2 (List.mem_map.2 ⟨(x, e), mem_edges.2 he, rfl⟩)) h
  refine ⟨rank, hstep, fun x => ?_⟩
  have hx := (hle x).trans (List.toFinset_card_le _)
  rw [List.length_map] at hx
  unfold rounds
  omega

lemma exists_rank_down :
    ∃ rank : Uuid → ℕ, (∀ x y, Up (parent v) x y → rank x < rank y) ∧ ∀ x, rank x < rounds v := by
  obtain ⟨rank, hstep, hle⟩ := exists_rank (r := Function.swap (Up (parent v)))
    ((edges v).map Prod.fst).toFinset
    (fun x y hxy => by
      obtain ⟨e, he, -⟩ := up_parent.1 hxy
      exact List.mem_toFinset.2 (List.mem_map.2 ⟨(y, e), mem_edges.2 he, rfl⟩))
    (fun x hx => h x hx.swap)
  refine ⟨rank, fun x y hxy => hstep y x hxy, fun x => ?_⟩
  have hx := (hle x).trans (List.toFinset_card_le _)
  rw [List.length_map] at hx
  unfold rounds
  omega

/-! ### Walks over groups -/

theorem mem_ancestors {group x : Uuid} : x ∈ ancestors v group ↔ Above (parent v) group x := by
  obtain ⟨rank, hstep, hlt⟩ := exists_rank_up h
  have hup : (fun a b => b ∈ (parent v a).toList) = Up (parent v) := by
    funext a b
    simp [Up]
  unfold ancestors
  rw [mem_recursive rank (fun a b hb => hstep a b (by simpa [Up] using hb)) fun r _ => hlt r, hup]
  simp

theorem mem_descendants {group x : Uuid} : x ∈ descendants v group ↔ Above (parent v) x group := by
  obtain ⟨rank, hstep, hlt⟩ := exists_rank_down h
  obtain ⟨step, hdescendants, hdown⟩ : ∃ step : Uuid → List Uuid,
      descendants v group = recursive step (rounds v) [group] ∧
        ∀ a b, b ∈ step a ↔ Function.swap (Up (parent v)) a b := by
    refine ⟨_, rfl, fun a b => ?_⟩
    simp only [List.mem_filterMap, Option.ite_none_right_eq_some, Option.some.injEq, Prod.exists]
    constructor
    · rintro ⟨child, e, hmem, rfl, rfl⟩
      exact up_parent.2 ⟨e, mem_edges.1 hmem, rfl⟩
    · intro hb
      obtain ⟨e, he, rfl⟩ := up_parent.1 hb
      exact ⟨b, e, mem_edges.2 he, rfl, rfl⟩
  rw [hdescendants, mem_recursive rank (fun a b hb => hstep b a ((hdown a b).1 hb))
    fun r _ => hlt r]
  simp only [hdown, List.mem_singleton, exists_eq_left]
  exact Relation.reflTransGen_swap

theorem mem_affectedUsers {child u : Uuid} :
    u ∈ affectedUsers v child ↔
      ∃ group relation, IsMember v group u relation ∧ Above (parent v) group child := by
  simp only [affectedUsers, List.mem_dedup, List.mem_flatMap, List.mem_filterMap, Prod.exists,
    Option.ite_none_right_eq_some, Option.some.injEq, mem_descendants h]
  constructor
  · rintro ⟨d, hd, group, member, relation, hmem, rfl, rfl⟩
    exact ⟨_, _, mem_memberships.1 hmem, hd⟩
  · rintro ⟨group, relation, hmem, habove⟩
    exact ⟨group, habove, group, u, relation, mem_memberships.2 hmem, rfl, rfl⟩

/-- **The root query** answers the root of the group's tree. -/
theorem groupTreeRoot_isRoot (group : Uuid) : IsRoot (parent v) group (groupTreeRoot v group) := by
  obtain ⟨rank, hstep, hlt⟩ := exists_rank_up h
  set step : Uuid × ℕ → List (Uuid × ℕ) :=
    fun p => ((parent v p.1).map (·, p.2 + 1)).toList with hs
  have hmem : ∀ p, p ∈ recursive step (rounds v) [(group, 0)] ↔
      Relation.ReflTransGen (fun a b => b ∈ step a) (group, 0) p := by
    intro p
    rw [mem_recursive (fun p => rank p.1) (fun a b hb => ?_) fun r _ => hlt r.1]
    · simp
    · simp only [hs, Option.mem_toList, Option.map_eq_some_iff] at hb
      obtain ⟨y, hy, rfl⟩ := hb
      exact hstep _ _ hy
  -- a row of the query is a group above the start
  have habove : ∀ p, Relation.ReflTransGen (fun a b => b ∈ step a) (group, 0) p →
      Above (parent v) group p.1 := by
    intro p hp
    induction hp with
    | refl => exact .refl
    | tail _ hb ih =>
      simp only [hs, Option.mem_toList, Option.map_eq_some_iff] at hb
      obtain ⟨y, hy, rfl⟩ := hb
      exact ih.tail hy
  unfold groupTreeRoot
  cases hmax : (recursive step (rounds v) [(group, 0)]).argmax Prod.snd with
  | none =>
    rw [List.argmax_eq_none] at hmax
    have := (hmem (group, 0)).2 .refl
    simp [hmax] at this
  | some p =>
    have hp := (hmem p).1 (List.argmax_mem hmax)
    simp only [← hs, hmax, Option.map_some, Option.getD_some]
    refine ⟨habove p hp, ?_⟩
    -- a parent of the deepest row would be deeper still
    by_contra hne
    obtain ⟨y, hy⟩ := Option.ne_none_iff_exists'.1 hne
    have hdeeper : (y, p.2 + 1) ∈ recursive step (rounds v) [(group, 0)] :=
      (hmem _).2 (hp.tail (by simp [hs, hy]))
    have hle : p.2 + 1 ≤ p.2 := List.le_of_mem_argmax hdeeper hmax
    omega

end

end Proxiima.Groups
