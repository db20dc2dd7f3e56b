import Mathlib.Order.Nat
import Mathlib.Tactic.Common

/-!
# Depth-first search for a cycle

A search that keeps the nodes it is in the middle of apart from those it is done with, and fails
when it comes back to one of the former. From below a node it comes back exactly when a path from
that node runs into a cycle: a search that succeeds has only finite paths below it, and on a graph
whose nodes can be ranked, falling along every edge, no search fails.
-/

namespace Graphs

open Relation

variable {α : Type} [DecidableEq α] {children : α → List α}

/-- Visit a node, with the nodes being visited and those that have been. -/
def visit (children : α → List α) : (fuel : ℕ) → α → List α × List α → Except α (List α × List α)
  | 0, node, _ => .error node
  | n + 1, node, (visiting, visited) =>
    if node ∈ visited then .ok (visiting, visited)
    else if node ∈ visiting then .error node
    else do
      let (visiting, visited) ←
        (children node).foldlM (fun s child => visit children n child s) (node :: visiting, visited)
      return (visiting.erase node, node :: visited)

/-- `node` has only finite paths below it. -/
abbrev FiniteBelow (children : α → List α) (node : α) : Prop := Acc (fun b a => b ∈ children a) node

variable {n : ℕ} {node : α} {s t : List α × List α}

lemma finite_of_foldlM
    (hvisit : ∀ node s t, visit children n node s = .ok t → (∀ v ∈ s.2, FiniteBelow children v) →
      FiniteBelow children node ∧ ∀ v ∈ t.2, FiniteBelow children v) {l : List α}
    (h : l.foldlM (fun s child => visit children n child s) s = .ok t)
    (hs : ∀ v ∈ s.2, FiniteBelow children v) :
    (∀ c ∈ l, FiniteBelow children c) ∧ ∀ v ∈ t.2, FiniteBelow children v := by
  induction l generalizing s with
  | nil =>
    cases h
    exact ⟨by simp, hs⟩
  | cons c l ih =>
    rw [List.foldlM_cons] at h
    cases hc : visit children n c s with
    | error e => rw [hc] at h; cases h
    | ok u =>
      rw [hc] at h
      obtain ⟨hcf, hu⟩ := hvisit c s u hc hs
      obtain ⟨hl, ht⟩ := ih h hu
      exact ⟨List.forall_mem_cons.2 ⟨hcf, hl⟩, ht⟩

/-- Every node that has been visited has only finite paths below it. -/
theorem finite_of_visit (h : visit children n node s = .ok t)
    (hs : ∀ v ∈ s.2, FiniteBelow children v) :
    FiniteBelow children node ∧ ∀ v ∈ t.2, FiniteBelow children v := by
  induction n generalizing node s t with
  | zero => cases h
  | succ n ih =>
    obtain ⟨visiting, visited⟩ := s
    rw [visit] at h
    split at h
    · next hmem =>
      cases h
      exact ⟨hs node hmem, hs⟩
    · split at h
      · cases h
      · cases hfold : (children node).foldlM (fun s child => visit children n child s)
          (node :: visiting, visited) with
        | error e => rw [hfold] at h; cases h
        | ok u =>
          rw [hfold] at h
          cases h
          obtain ⟨hchildren, hu⟩ := finite_of_foldlM (fun _ _ _ => ih) hfold hs
          have hnode : FiniteBelow children node := ⟨_, fun c hc => hchildren c hc⟩
          exact ⟨hnode, List.forall_mem_cons.2 ⟨hnode, hu⟩⟩

omit [DecidableEq α] in
/-- No cycle runs through a node with finite paths. -/
lemma FiniteBelow.not_cycle (h : FiniteBelow children node) :
    ¬ TransGen (fun a b => b ∈ children a) node node := by
  induction h with
  | intro a _ ih =>
    intro hcycle
    obtain ⟨b, hab, hba⟩ := TransGen.head'_iff.1 hcycle
    exact ih b hab (.tail' hba hab)

/-- With a rank that falls along every edge, a visit succeeds. -/
theorem visit_of_rank {rank : α → ℕ} (hrank : ∀ a, ∀ b ∈ children a, rank b < rank a)
    (hn : rank node < n) (visiting visited : List α)
    (hvisiting : ∀ v ∈ visiting, rank node < rank v) :
    ∃ visited', visit children n node (visiting, visited) = .ok (visiting, visited') := by
  induction n generalizing node visiting visited with
  | zero => exact absurd hn (Nat.not_lt_zero _)
  | succ n ih =>
    rw [visit]
    split
    · exact ⟨visited, rfl⟩
    · rw [if_neg fun hmem => lt_irrefl _ (hvisiting node hmem)]
      -- The children are visited one after another, all with the same stack above them.
      have hfold (l : List α) (hl : ∀ c ∈ l, c ∈ children node) (visited : List α) :
          ∃ visited', l.foldlM (fun s child => visit children n child s)
            (node :: visiting, visited) = .ok (node :: visiting, visited') := by
        induction l generalizing visited with
        | nil => exact ⟨visited, rfl⟩
        | cons c l ihl =>
          have hc := hrank node c (hl c (by simp))
          obtain ⟨visited', hvisit⟩ := ih (by omega) (node :: visiting) visited
            (List.forall_mem_cons.2 ⟨hc, fun v hv => hc.trans (hvisiting v hv)⟩)
          obtain ⟨visited'', hrest⟩ :=
            ihl (fun c hc => hl c (List.mem_cons_of_mem _ hc)) visited'
          refine ⟨visited'', ?_⟩
          rw [List.foldlM_cons, hvisit]
          exact hrest
      obtain ⟨visited', hfold⟩ := hfold (children node) (fun _ hc => hc) visited
      refine ⟨node :: visited', ?_⟩
      rw [hfold]
      simp [bind, Except.bind, pure, Except.pure]

end Graphs
