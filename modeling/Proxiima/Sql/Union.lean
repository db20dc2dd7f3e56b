import Mathlib.Data.Finset.Card

/-!
# Recursive queries that drop duplicates

`WITH RECURSIVE q AS (rows UNION step(q))` steps in each round from the rows that were new in the
round before, and stops when a round finds no new one. Cycles do no harm: when all rows that can
be found lie in a finite set, the query stops, and it has then found exactly what can be reached.
-/

namespace Sql

open Relation

variable {α : Type} [DecidableEq α]

/-- The rows found once a round brings nothing new; `none` when the fuel does not last. -/
def unionRounds (step : α → List α) : (fuel : ℕ) → (found last : List α) → Option (List α)
  | _, found, [] => some found
  | 0, _, _ :: _ => none
  | n + 1, found, last@(_ :: _) =>
    let new := ((last.flatMap step).filter (· ∉ found)).dedup
    unionRounds step n (found ++ new) new

def recursiveUnion (step : α → List α) (fuel : ℕ) (rows : List α) : Option (List α) :=
  unionRounds step fuel rows.dedup rows.dedup

variable {step : α → List α} {rows found last : List α}

/-- What holds between rounds: only reachable rows are found, and every row that the last round
did not bring has been stepped from. -/
structure Rounds (step : α → List α) (rows found last : List α) : Prop where
  sound : ∀ x ∈ found, ∃ r ∈ rows, ReflTransGen (fun a b => b ∈ step a) r x
  start : ∀ r ∈ rows, r ∈ found
  last_found : ∀ x ∈ last, x ∈ found
  stepped : ∀ a ∈ found, a ∉ last → ∀ b ∈ step a, b ∈ found

variable {x : α} {n : ℕ}

lemma mem_new :
    x ∈ ((last.flatMap step).filter (· ∉ found)).dedup ↔
      (∃ a ∈ last, x ∈ step a) ∧ x ∉ found := by
  simp

lemma Rounds.next (h : Rounds step rows found last) :
    Rounds step rows (found ++ ((last.flatMap step).filter (· ∉ found)).dedup)
      ((last.flatMap step).filter (· ∉ found)).dedup where
  sound x hx := by
    rcases List.mem_append.1 hx with hx | hx
    · exact h.sound x hx
    · obtain ⟨⟨a, ha, hax⟩, -⟩ := mem_new.1 hx
      obtain ⟨r, hr, hra⟩ := h.sound a (h.last_found a ha)
      exact ⟨r, hr, hra.tail hax⟩
  start r hr := List.mem_append_left _ (h.start r hr)
  last_found x hx := List.mem_append_right _ hx
  stepped a ha hnew b hb := by
    have ha : a ∈ found := (List.mem_append.1 ha).resolve_right hnew
    by_cases hfound : b ∈ found
    · exact List.mem_append_left _ hfound
    · by_cases hlast : a ∈ last
      · exact List.mem_append_right _ (mem_new.2 ⟨⟨a, hlast, hb⟩, hfound⟩)
      · exact absurd (h.stepped a ha hlast b hb) hfound

omit [DecidableEq α] in
/-- When the last round brought nothing, all reachable rows have been found. -/
lemma Rounds.mem_iff (h : Rounds step rows found []) :
    x ∈ found ↔ ∃ r ∈ rows, ReflTransGen (fun a b => b ∈ step a) r x := by
  refine ⟨h.sound x, ?_⟩
  rintro ⟨r, hr, hrx⟩
  induction hrx with
  | refl => exact h.start r hr
  | tail _ hbc ih => exact h.stepped _ ih (by simp) _ hbc

lemma unionRounds_nil (step : α → List α) (n : ℕ) (found : List α) :
    unionRounds step n found [] = some found := by
  cases n <;> rfl

lemma mem_unionRounds {result : List α} (h : Rounds step rows found last)
    (hrun : unionRounds step n found last = some result) :
    x ∈ result ↔ ∃ r ∈ rows, ReflTransGen (fun a b => b ∈ step a) r x := by
  induction n generalizing found last with
  | zero =>
    cases last with
    | nil => exact Option.some.inj hrun ▸ h.mem_iff
    | cons => cases hrun
  | succ n ih =>
    cases last with
    | nil => exact Option.some.inj hrun ▸ h.mem_iff
    | cons => exact ih h.next hrun

/-- Every round but the last takes a row of the finite set that had not been found. -/
lemma exists_unionRounds {N : Finset α} (hstep : ∀ a ∈ N, ∀ b ∈ step a, b ∈ N)
    (hlast : ∀ x ∈ last, x ∈ N) (hn : (N.filter (· ∉ found)).card < n) :
    ∃ result, unionRounds step n found last = some result := by
  induction n generalizing found last with
  | zero => exact absurd hn (Nat.not_lt_zero _)
  | succ n ih =>
    rcases last with _ | ⟨a, last⟩
    · exact ⟨found, rfl⟩
    rw [unionRounds]
    generalize hnew : (((a :: last).flatMap step).filter (· ∉ found)).dedup = new
    have hmem (x : α) (hx : x ∈ new) : x ∈ N ∧ x ∉ found := by
      obtain ⟨⟨b, hb, hbx⟩, hfound⟩ := mem_new.1 (hnew ▸ hx)
      exact ⟨hstep b (hlast b hb) x hbx, hfound⟩
    rcases new with _ | ⟨x, new⟩
    · exact ⟨found ++ [], unionRounds_nil step n _⟩
    refine ih (fun y hy => (hmem y hy).1) (Nat.lt_of_lt_of_le ?_ (Nat.le_of_lt_succ hn))
    refine Finset.card_lt_card (Finset.ssubset_iff_subset_ne.2 ⟨fun y hy => ?_, fun heq => ?_⟩)
    · obtain ⟨hyN, hy⟩ := Finset.mem_filter.1 hy
      exact Finset.mem_filter.2 ⟨hyN, fun hfound => hy (List.mem_append_left _ hfound)⟩
    · have hx : x ∈ N.filter (· ∉ found) := Finset.mem_filter.2 (hmem x (by simp))
      rw [← heq] at hx
      exact (Finset.mem_filter.1 hx).2 (by simp)

/-- A query into a finite set stops. -/
theorem exists_recursiveUnion {N : Finset α} (hrows : ∀ r ∈ rows, r ∈ N)
    (hstep : ∀ a ∈ N, ∀ b ∈ step a, b ∈ N) (hn : N.card < n) :
    ∃ result, recursiveUnion step n rows = some result :=
  exists_unionRounds hstep (fun x hx => hrows x (List.mem_dedup.1 hx))
    ((Finset.card_filter_le _ _).trans_lt hn)

/-- A query that stopped has found exactly the rows that can be reached. -/
theorem mem_recursiveUnion {result : List α} (h : recursiveUnion step n rows = some result) :
    x ∈ result ↔ ∃ r ∈ rows, ReflTransGen (fun a b => b ∈ step a) r x := by
  refine mem_unionRounds ?_ h
  exact ⟨fun x hx => ⟨x, List.mem_dedup.1 hx, .refl⟩, fun r hr => List.mem_dedup.2 hr,
    fun x hx => hx, fun a ha hlast => absurd ha hlast⟩

end Sql
