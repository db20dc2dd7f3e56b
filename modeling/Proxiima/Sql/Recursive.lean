import Mathlib.Data.Finset.Card

/-!
# Recursive queries

`WITH RECURSIVE q AS (rows UNION ALL step(q))` computes in rounds: each round steps from
the rows the last one found, and the answer is what all rounds found. The query runs out
of rows exactly when the relation it follows has no cycle below its start; the number of
rounds is then bounded by the number of rows that can be found, which is how the fuel of
`recursive` is chosen.
-/

namespace Sql

open Relation

variable {α : Type}

/-- The rows found from `rows` in at most `fuel` rounds. -/
def recursive (step : α → List α) : (fuel : ℕ) → (rows : List α) → List α
  | 0, _ => []
  | n + 1, rows => rows ++ recursive step n (rows.flatMap step)

variable {step : α → List α} {n : ℕ} {rows : List α} {x : α}

lemma mem_recursive_sound (h : x ∈ recursive step n rows) :
    ∃ r ∈ rows, ReflTransGen (fun a b => b ∈ step a) r x := by
  induction n generalizing rows with
  | zero => simp [recursive] at h
  | succ n ih =>
    rcases List.mem_append.1 h with h | h
    · exact ⟨x, h, .refl⟩
    · obtain ⟨b, hb, hbx⟩ := ih h
      obtain ⟨a, ha, hab⟩ := List.mem_flatMap.1 hb
      exact ⟨a, ha, .head hab hbx⟩

lemma mem_recursive_complete {rank : α → ℕ} (hstep : ∀ a, ∀ b ∈ step a, rank b < rank a)
    (hn : ∀ r ∈ rows, rank r < n) {r : α} (hr : r ∈ rows)
    (h : ReflTransGen (fun a b => b ∈ step a) r x) : x ∈ recursive step n rows := by
  induction n generalizing rows r with
  | zero => exact absurd (hn r hr) (Nat.not_lt_zero _)
  | succ n ih =>
    rcases h.cases_head with rfl | ⟨b, hb, hbx⟩
    · exact List.mem_append_left _ hr
    · refine List.mem_append_right _ (ih ?_ (List.mem_flatMap.2 ⟨r, hr, hb⟩) hbx)
      intro c hc
      obtain ⟨a, ha, hac⟩ := List.mem_flatMap.1 hc
      have := hstep a c hac
      have := hn a ha
      omega

/-- With a rank that falls at every step and starts below the fuel, the query finds exactly
what can be reached. -/
theorem mem_recursive (rank : α → ℕ) (hstep : ∀ a, ∀ b ∈ step a, rank b < rank a)
    (hn : ∀ r ∈ rows, rank r < n) :
    x ∈ recursive step n rows ↔ ∃ r ∈ rows, ReflTransGen (fun a b => b ∈ step a) r x :=
  ⟨mem_recursive_sound, fun ⟨_, hr, h⟩ => mem_recursive_complete hstep hn hr h⟩

/-- Two queries whose rows correspond find corresponding rows. -/
lemma recursive_map {β : Type} {step' : β → List β} (f : α → β)
    (h : ∀ a, step' (f a) = (step a).map f) (n : ℕ) (rows : List α) :
    recursive step' n (rows.map f) = (recursive step n rows).map f := by
  induction n generalizing rows with
  | zero => rfl
  | succ n ih =>
    have hrows : (rows.map f).flatMap step' = (rows.flatMap step).map f := by
      rw [List.flatMap_map, List.map_flatMap]
      simp only [h]
    rw [recursive, recursive, hrows, ih, List.map_append]

/-- A relation without cycles into a finite set has a rank that falls at every step. -/
lemma exists_rank {r : α → α → Prop} (N : Finset α) (htarget : ∀ x y, r x y → y ∈ N)
    (hacyclic : ∀ x, ¬ TransGen r x x) :
    ∃ rank : α → ℕ, (∀ x y, r x y → rank y < rank x) ∧ ∀ x, rank x ≤ N.card := by
  classical
  refine ⟨fun x => (N.filter (TransGen r x)).card, fun x y hxy => ?_,
    fun x => Finset.card_le_card (Finset.filter_subset _ _)⟩
  refine Finset.card_lt_card (Finset.ssubset_iff_subset_ne.2 ⟨fun z hz => ?_, fun heq => ?_⟩)
  · obtain ⟨hz, hyz⟩ := Finset.mem_filter.1 hz
    exact Finset.mem_filter.2 ⟨hz, .head hxy hyz⟩
  · have hy : y ∈ N.filter (TransGen r y) := by
      rw [heq]
      exact Finset.mem_filter.2 ⟨htarget x y hxy, .single hxy⟩
    exact hacyclic y (Finset.mem_filter.1 hy).2

end Sql
