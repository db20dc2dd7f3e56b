import Mathlib.Data.List.Basic
import Mathlib.Order.Defs.LinearOrder

/-!
# Following cursors

A listing is served in pages: each answer is some rows and, while more remain, a cursor to resume
from. When every page is the front of what its cursor leaves, following the cursors gives the whole
listing, whatever the limits are.
-/

namespace Paging

structure Page (α κ : Type*) where
  rows : List α
  next : Option κ
  deriving DecidableEq

variable {α β κ : Type*}

/-- The rows of all pages from a cursor on, where the `i`-th page is asked for with `limits i`; none
when a page is refused. -/
def follow (fetch : Option κ → ℕ → Option (Page α κ)) (limits : ℕ → ℕ) :
    ℕ → Option κ → Option (List α)
  | 0, _ => none
  | fuel + 1, cursor =>
    match fetch cursor (limits 0) with
    | none => none
    | some ⟨rows, none⟩ => some rows
    | some ⟨rows, some next⟩ =>
      (follow fetch (fun i => limits (i + 1)) fuel (some next)).map (rows ++ ·)

variable {fetch : Option κ → ℕ → Option (Page β κ)}

/-- Pages that are fronts of what their cursors leave add up to all of it: `mark` is the cursor on
the rows that were listed. -/
theorem follow_eq {project : α → β} {mark : List α → Option κ} {L : List α}
    (hmark : ∀ front, front ≠ [] → mark front ≠ none)
    (hfetch : ∀ front rest n, L = front ++ rest → 1 ≤ n → fetch (mark front) n =
      some ⟨(rest.take n).map project, if n < rest.length
        then mark (front ++ rest.take n) else none⟩)
    {limits : ℕ → ℕ} (hlimits : ∀ i, 1 ≤ limits i) {fuel : ℕ} {front rest : List α}
    (hL : L = front ++ rest) (hfuel : rest.length < fuel) :
    follow fetch limits fuel (mark front) = some (rest.map project) := by
  induction fuel generalizing limits front rest with
  | zero => omega
  | succ fuel ih =>
    have hone := hlimits 0
    rw [follow, hfetch front rest (limits 0) hL hone]
    by_cases hmore : limits 0 < rest.length
    · have hne : front ++ rest.take (limits 0) ≠ [] := by
        refine List.append_ne_nil_of_right_ne_nil _ (List.ne_nil_of_length_pos ?_)
        rw [List.length_take]
        omega
      have hsplit : L = (front ++ rest.take (limits 0)) ++ rest.drop (limits 0) := by
        rw [List.append_assoc, List.take_append_drop, hL]
      have hlater := ih (fun i => hlimits (i + 1)) hsplit (by rw [List.length_drop]; omega)
      obtain ⟨next, hnext⟩ := Option.ne_none_iff_exists'.1 (hmark _ hne)
      rw [hnext] at hlater
      simp only [if_pos hmore, hnext, hlater, Option.map_some, ← List.map_append,
        List.take_append_drop]
    · simp only [if_neg hmore, List.take_of_length_le (Nat.le_of_not_lt hmore)]

/-! ### Cursors on the last row -/

/-- The first `n` rows as they are shown, with a cursor on the last of them when there are more. -/
def pageOf (project : α → β) (cursorOf : α → κ) (rows : List α) (n : ℕ) : Page β κ :=
  ⟨(rows.take n).map project,
    if n < rows.length then (rows.take n).getLast?.map cursorOf else none⟩

variable {project : α → β} {cursorOf : α → κ} {n : ℕ}

lemma pageOf_nil : pageOf project cursorOf [] n = ⟨[], none⟩ := by
  simp [pageOf]

/-- Rows beyond the one after the page make no difference to it. -/
lemma pageOf_append {X Y : List α} (h : Y = [] ∨ n < X.length) :
    pageOf project cursorOf (X ++ Y) n = pageOf project cursorOf X n := by
  rcases h with rfl | hlt
  · rw [List.append_nil]
  · have hlt' : n < (X ++ Y).length := by
      rw [List.length_append]
      omega
    simp only [pageOf, if_pos hlt, if_pos hlt', List.take_append_of_le_length (Nat.le_of_lt hlt)]

theorem follow_pageOf {L : List α}
    (hfetch : ∀ front rest n, L = front ++ rest → 1 ≤ n →
      fetch (front.getLast?.map cursorOf) n = some (pageOf project cursorOf rest n))
    {limits : ℕ → ℕ} (hlimits : ∀ i, 1 ≤ limits i) {fuel : ℕ} (hfuel : L.length < fuel) :
    follow fetch limits fuel none = some (L.map project) := by
  refine @follow_eq _ _ _ fetch project (fun front => front.getLast?.map cursorOf) L ?_
    (fun front rest n hL hn => ?_) limits hlimits fuel [] L rfl hfuel
  · intro front hne
    simpa using hne
  · rw [hfetch front rest n hL hn, pageOf]
    by_cases hmore : n < rest.length
    · have hne : rest.take n ≠ [] := List.ne_nil_of_length_pos (by rw [List.length_take]; omega)
      simp only [if_pos hmore, List.getLast?_append_of_ne_nil _ hne]
    · simp only [if_neg hmore]

/-- In a listing in order, what comes after a row is what follows it. -/
lemma filter_of_append {r : α → α → Prop} [DecidableRel r] (hasymm : ∀ a b, r a b → ¬r b a)
    {front rest : List α} {last : α} (hsorted : (front ++ rest).Pairwise r)
    (hlast : front.getLast? = some last) : (front ++ rest).filter (fun a => r last a) = rest := by
  obtain ⟨init, rfl⟩ := List.getLast?_eq_some_iff.1 hlast
  rw [List.pairwise_append, List.pairwise_append] at hsorted
  obtain ⟨⟨-, -, habove⟩, -, hbelow⟩ := hsorted
  have hfront : (init ++ [last]).filter (fun a => r last a) = [] := by
    refine List.filter_eq_nil_iff.2 fun a ha => ?_
    rcases List.mem_append.1 ha with ha | ha
    · simpa using hasymm _ _ (habove a ha last List.mem_cons_self)
    · have hirrefl : ¬r last last := fun h => hasymm _ _ h h
      simp [List.mem_singleton.1 ha, hirrefl]
  have hrest : rest.filter (fun a => r last a) = rest :=
    List.filter_eq_self.2 fun a ha => decide_eq_true (hbelow last (by simp) a ha)
  rw [List.filter_append, hfront, hrest, List.nil_append]

end Paging
