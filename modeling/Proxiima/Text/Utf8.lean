import Mathlib.Algebra.BigOperators.Group.List.Basic
import Mathlib.Algebra.Ring.Nat

/-!
# Texts and their bytes

A text is a list of characters, each of one to four bytes. Positions are counted in bytes, and only
some of them are boundaries of characters.
-/

namespace Utf8

/-- The length of a text in bytes. -/
def byteLen (t : List Char) : ℕ := (t.map Char.utf8Size).sum

@[simp] lemma byteLen_nil : byteLen [] = 0 := rfl

@[simp] lemma byteLen_cons (c : Char) (t : List Char) :
    byteLen (c :: t) = c.utf8Size + byteLen t := by
  simp [byteLen]

@[simp] lemma byteLen_append (t t' : List Char) : byteLen (t ++ t') = byteLen t + byteLen t' := by
  simp [byteLen]

@[simp] lemma byteLen_replicate (n : ℕ) (c : Char) :
    byteLen (List.replicate n c) = n * c.utf8Size := by
  rw [byteLen, List.map_replicate, List.sum_replicate, Nat.nsmul_eq_mul]

lemma length_le_byteLen (t : List Char) : t.length ≤ byteLen t := by
  induction t with
  | nil => simp
  | cons c t ih =>
    have hc := c.utf8Size_pos
    rw [byteLen_cons, List.length_cons]
    omega

def isCharBoundary : List Char → ℕ → Bool
  | [], i => i = 0
  | c :: t, i => i = 0 || (c.utf8Size ≤ i && isCharBoundary t (i - c.utf8Size))

variable {t : List Char} {i : ℕ}

lemma isCharBoundary_iff : isCharBoundary t i = true ↔ ∃ l r, t = l ++ r ∧ byteLen l = i := by
  induction t generalizing i with
  | nil => simp [isCharBoundary, eq_comm]
  | cons c t ih =>
    simp only [isCharBoundary, Bool.or_eq_true, decide_eq_true_eq, Bool.and_eq_true, ih]
    constructor
    · rintro (rfl | ⟨hle, l, r, rfl, hl⟩)
      · exact ⟨[], _, rfl, rfl⟩
      · exact ⟨c :: l, r, rfl, by rw [byteLen_cons, hl]; omega⟩
    · rintro ⟨l, r, heq, rfl⟩
      cases l with
      | nil => exact .inl rfl
      | cons c' l =>
        obtain ⟨rfl, rfl⟩ := List.cons.inj heq
        exact .inr ⟨by simp, l, r, rfl, by simp⟩

/-- The text before and after a position. -/
def splitAt : List Char → ℕ → List Char × List Char
  | [], _ => ([], [])
  | c :: t, i => if i = 0 then ([], c :: t) else
      (c :: (splitAt t (i - c.utf8Size)).1, (splitAt t (i - c.utf8Size)).2)

lemma splitAt_append (l r : List Char) : splitAt (l ++ r) (byteLen l) = (l, r) := by
  induction l with
  | nil => cases r <;> simp [splitAt]
  | cons c l ih =>
    have hc := c.utf8Size_pos
    rw [List.cons_append, byteLen_cons, splitAt, if_neg (by omega), Nat.add_sub_cancel_left, ih]

/-- The last boundary up to a position. -/
def floorCharBoundary (t : List Char) : ℕ → ℕ
  | 0 => 0
  | i + 1 => if isCharBoundary t (i + 1) then i + 1 else floorCharBoundary t i

lemma floorCharBoundary_le (t : List Char) (i : ℕ) : floorCharBoundary t i ≤ i := by
  induction i with
  | zero => exact Nat.le_refl _
  | succ i ih =>
    unfold floorCharBoundary
    split
    · exact Nat.le_refl _
    · exact Nat.le_succ_of_le ih

lemma isCharBoundary_floor (t : List Char) (i : ℕ) :
    isCharBoundary t (floorCharBoundary t i) = true := by
  induction i with
  | zero => exact isCharBoundary_iff.2 ⟨[], t, rfl, rfl⟩
  | succ i ih =>
    unfold floorCharBoundary
    split
    · assumption
    · exact ih

lemma le_floorCharBoundary {j : ℕ} (hj : isCharBoundary t j = true) (hji : j ≤ i) :
    j ≤ floorCharBoundary t i := by
  induction i with
  | zero => exact hji
  | succ i ih =>
    unfold floorCharBoundary
    split
    · exact hji
    · rename_i hno
      refine ih (Nat.le_of_lt_succ (Nat.lt_of_le_of_ne hji ?_))
      rintro rfl
      exact hno hj

/-- The character in which a position lies begins at the last boundary. -/
lemma exists_straddling (hi : i < byteLen t) :
    ∃ l c r, t = l ++ c :: r ∧ byteLen l = floorCharBoundary t i ∧ i < byteLen l + c.utf8Size := by
  obtain ⟨l, r, heq, hl⟩ := isCharBoundary_iff.1 (isCharBoundary_floor t i)
  have hle := floorCharBoundary_le t i
  cases r with
  | nil =>
    rw [List.append_nil] at heq
    subst heq
    omega
  | cons c r =>
    refine ⟨l, c, r, heq, hl, ?_⟩
    by_contra hge
    -- otherwise the next boundary were not behind the position either
    have hnext : isCharBoundary t (byteLen l + c.utf8Size) = true :=
      isCharBoundary_iff.2 ⟨l ++ [c], r, by simp [heq], by simp⟩
    have hc := c.utf8Size_pos
    have := le_floorCharBoundary hnext (Nat.not_lt.1 hge)
    omega

lemma floorCharBoundary_eq {l r : List Char} {c : Char} (hl : byteLen l ≤ i)
    (hi : i < byteLen l + c.utf8Size) : floorCharBoundary (l ++ c :: r) i = byteLen l := by
  have hge := le_floorCharBoundary (isCharBoundary_iff.2 ⟨l, c :: r, rfl, rfl⟩) hl
  have hle := floorCharBoundary_le (l ++ c :: r) i
  obtain ⟨l', r', heq, hl'⟩ := isCharBoundary_iff.1 (isCharBoundary_floor (l ++ c :: r) i)
  rcases List.append_eq_append_iff.1 heq with ⟨m, rfl, hm⟩ | ⟨m, rfl, hm⟩
  · cases m with
    | nil =>
      rw [List.append_nil] at hl'
      exact hl'.symm
    | cons c' m =>
      obtain ⟨rfl, -⟩ := List.cons.inj hm
      rw [byteLen_append, byteLen_cons] at hl'
      omega
  · rw [byteLen_append] at hge ⊢
    omega

end Utf8
