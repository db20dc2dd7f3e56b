import Mathlib.Order.Preorder.Finite

/-!
# Strongly connected components

A graph is given by the successors of each node. A component holds the nodes that are connected
with one another both ways. A set of connected nodes that no other remaining node leads into is a
component, when what was taken out before led into nothing that was taken out.
-/

namespace Graphs

open Relation

variable {α : Type} (next : α → List α)

/-- One node can be reached from another. -/
abbrev Reach : α → α → Prop := ReflTransGen fun v w => w ∈ next v

/-- A list of all nodes that can be reached from one of them and reach it. -/
def IsComponent (c : List α) : Prop :=
  ∃ v ∈ c, ∀ w, w ∈ c ↔ Reach next v w ∧ Reach next w v

variable {next} {v w : α} {c : List α}

lemma Reach.mono {next' : α → List α} (h : ∀ v, next v ⊆ next' v) (hr : Reach next v w) :
    Reach next' v w :=
  ReflTransGen.mono (fun v _ hw => h v hw) v w hr

/-- Members of a component are connected. -/
lemma IsComponent.reach (h : IsComponent next c) (hv : v ∈ c) (hw : w ∈ c) : Reach next v w := by
  obtain ⟨u, -, hu⟩ := h
  exact ((hu v).1 hv).2.trans ((hu w).1 hw).1

lemma IsComponent.mem (h : IsComponent next c) (hv : v ∈ c) (hvw : Reach next v w)
    (hwv : Reach next w v) : w ∈ c := by
  obtain ⟨u, -, hu⟩ := h
  obtain ⟨huv, hvu⟩ := (hu v).1 hv
  exact (hu w).2 ⟨huv.trans hvw, hwv.trans hvu⟩

/-- What is not led into from outside of a set, all of it is reached only from the set. -/
lemma mem_of_reach {P : α → Prop} (hP : ∀ v w, w ∈ next v → P w → P v) (hr : Reach next v w)
    (hw : P w) : P v := by
  induction hr using ReflTransGen.head_induction_on with
  | refl => exact hw
  | head hstep _ ih => exact hP _ _ hstep ih

/-- Some node is reached only from nodes it reaches. -/
lemma exists_source (next : α → List α) {nodes : List α} (h : nodes ≠ []) :
    ∃ v ∈ nodes, ∀ u ∈ nodes, Reach next u v → Reach next v u := by
  classical
  let _ : Preorder α :=
    { le := Reach next
      le_refl := fun _ => .refl
      le_trans := fun _ _ _ => .trans }
  obtain ⟨x, hx⟩ := List.exists_mem_of_ne_nil nodes h
  obtain ⟨v, hv⟩ := nodes.toFinset.finite_toSet.exists_minimal ⟨x, by simpa using hx⟩
  refine ⟨v, by simpa using hv.prop, fun u hu huv => ?_⟩
  exact hv.le_of_le (by simpa using hu) huv

/-- Connected nodes that only nodes taken before lead into are a component. -/
lemma isComponent_of_source (taken : α → Prop) (hv : v ∈ c)
    (hconn : ∀ w ∈ c, Reach next v w ∧ Reach next w v) (hfresh : ¬ taken v)
    (htaken : ∀ u w, w ∈ next u → taken w → taken u)
    (hinto : ∀ u w, w ∈ next u → w ∈ c → u ∈ c ∨ taken u) : IsComponent next c := by
  refine ⟨v, hv, fun w => ⟨hconn w, fun ⟨hvw, hwv⟩ => ?_⟩⟩
  have hw : w ∈ c ∨ taken w :=
    mem_of_reach (P := fun u => u ∈ c ∨ taken u)
      (fun u x hx => Or.rec (hinto u x hx) fun ht => .inr (htaken u x hx ht)) hwv (.inl hv)
  exact hw.resolve_right fun ht => hfresh (mem_of_reach htaken hvw ht)

end Graphs
