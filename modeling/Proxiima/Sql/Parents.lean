import Proxiima.Sql.Recursive

/-!
# Parent columns

A table whose key is the child and whose row names the parent is a partial function `f`:
every node has at most one parent. Following parents from a node is a chain; where no chain
closes, each node has one root. A set of nodes that no edge enters or leaves can be changed
without the rest noticing, which is what lets trees be locked one by one.
-/

namespace Sql

open Relation

variable {α : Type}

/-- `y` is the parent of `x`. -/
def Up (f : α → Option α) (x y : α) : Prop := f x = some y

/-- `y` is `x` or above it. -/
abbrev Above (f : α → Option α) : α → α → Prop := ReflTransGen (Up f)

def Acyclic (f : α → Option α) : Prop := ∀ x, ¬ TransGen (Up f) x x

def IsRoot (f : α → Option α) (x r : α) : Prop := Above f x r ∧ f r = none

/-- No edge of `f` enters or leaves `O`. -/
def Detached (f : α → Option α) (O : Set α) : Prop := ∀ x y, Up f x y → (x ∈ O ↔ y ∈ O)

variable {f g h : α → Option α} {O : Set α} {x y z r r' : α}

lemma Up.unique (h : Up f x y) (h' : Up f x z) : y = z := Option.mem_unique h h'

/-! ### Roots -/

lemma IsRoot.of_above (hr : IsRoot f x r) (hxy : Above f x y) : IsRoot f y r := by
  induction hxy with
  | refl => exact hr
  | tail _ hyz ih =>
    obtain ⟨hyr, hr⟩ := ih
    rcases hyr.cases_head with rfl | ⟨w, hyw, hwr⟩
    · rw [Up, hr] at hyz
      cases hyz
    · exact ⟨hyz.unique hyw ▸ hwr, hr⟩

lemma IsRoot.below (hr : IsRoot f y r) (hxy : Above f x y) : IsRoot f x r :=
  ⟨hxy.trans hr.1, hr.2⟩

lemma IsRoot.unique (hr : IsRoot f x r) (hr' : IsRoot f x r') : r = r' := by
  obtain ⟨hrr, -⟩ := hr.of_above hr'.1
  rcases hrr.cases_head with h | ⟨w, hw, -⟩
  · exact h.symm
  · rw [Up, hr'.2] at hw
    cases hw

/-! ### Changing part of the table -/

lemma Above.congr (hxy : Above f x y) (h : ∀ z, Above f x z → g z = f z) : Above g x y := by
  induction hxy with
  | refl => exact .refl
  | tail hxz hzw ih => exact ih.tail ((h _ hxz).trans hzw)

lemma IsRoot.congr (hr : IsRoot f x r) (h : ∀ z, Above f x z → g z = f z) : IsRoot g x r :=
  ⟨hr.1.congr h, (h r hr.1).trans hr.2⟩

lemma Detached.mem_iff (hO : Detached f O) (hxy : Above f x y) : x ∈ O ↔ y ∈ O := by
  induction hxy with
  | refl => rfl
  | tail _ hyz ih => exact ih.trans (hO _ _ hyz)

/-- Chains of a node inside a detached set depend on the table inside it only. -/
lemma Detached.above_congr (hO : Detached f O) (h : ∀ z ∈ O, g z = f z) (hx : x ∈ O)
    (hxy : Above f x y) : Above g x y :=
  hxy.congr fun z hxz => h z ((hO.mem_iff hxz).1 hx)

lemma Detached.compl (hO : Detached f O) : Detached f Oᶜ :=
  fun x y hxy => not_congr (hO x y hxy)

/-- A table put together from two along a set it does not cross. -/
lemma Detached.glue (hf : Detached f O) (hg : Detached g O) (hin : ∀ z ∈ O, h z = f z)
    (hout : ∀ z ∉ O, h z = g z) : Detached h O := by
  intro x y hxy
  by_cases hx : x ∈ O
  · exact hf x y ((hin x hx).symm.trans hxy)
  · exact hg x y ((hout x hx).symm.trans hxy)

lemma Acyclic.glue (hO : Detached h O) (hin : ∀ z ∈ O, h z = f z) (hout : ∀ z ∉ O, h z = g z)
    (hf : Acyclic f) (hg : Acyclic g) : Acyclic h := by
  have follow : ∀ {k : α → Option α} {A : Set α}, Detached h A → (∀ z ∈ A, h z = k z) →
      ∀ {x y}, x ∈ A → TransGen (Up h) x y → y ∈ A ∧ TransGen (Up k) x y := by
    intro k A hA hk x y hx hxy
    induction hxy with
    | single hxy => exact ⟨(hA _ _ hxy).1 hx, .single ((hk x hx).symm.trans hxy)⟩
    | tail _ hyz ih => exact ⟨(hA _ _ hyz).1 ih.1, ih.2.tail ((hk _ ih.1).symm.trans hyz)⟩
  intro x hxx
  by_cases hx : x ∈ O
  · exact hf x (follow hO hin hx hxx).2
  · exact hg x (follow hO.compl hout hx hxx).2

section Update

variable [DecidableEq α]

/-- Chains from `y` do not see a new edge at `x` when `x` is not above `y`. -/
lemma above_of_update (hyx : ¬ Above f y x) (hyz : Above (Function.update f x (some r)) y z) :
    Above f y z := by
  induction hyz with
  | refl => exact .refl
  | tail _ hzw ih =>
    rw [Up, Function.update_of_ne (by rintro rfl; exact hyx ih)] at hzw
    exact ih.tail hzw

/-- A new edge from `x` to `y` closes no chain when `x` is not above `y`. -/
lemma Acyclic.update (hf : Acyclic f) (hyx : ¬ Above f y x) :
    Acyclic (Function.update f x (some y)) := by
  -- a path either never takes the new edge, or splits at its last use
  have split : ∀ {z w}, TransGen (Up (Function.update f x (some y))) z w → TransGen (Up f) z w ∨
      Above (Function.update f x (some y)) z x ∧ Above (Function.update f x (some y)) y w := by
    intro z w hzw
    have edge : ∀ {w}, Up (Function.update f x (some y)) x w → w = y := by
      intro w hw
      rw [Up, Function.update_self] at hw
      exact (Option.some.inj hw).symm
    induction hzw with
    | single hzw =>
      by_cases hz : z = x
      · subst hz
        exact .inr ⟨.refl, edge hzw ▸ .refl⟩
      · rw [Up, Function.update_of_ne hz] at hzw
        exact .inl (.single hzw)
    | @tail u w hzu huw ih =>
      by_cases hu : u = x
      · subst hu
        exact .inr ⟨hzu.to_reflTransGen, edge huw ▸ .refl⟩
      · rcases ih with ih | ⟨hzx, hyu⟩
        · rw [Up, Function.update_of_ne hu] at huw
          exact .inl (ih.tail huw)
        · exact .inr ⟨hzx, hyu.tail huw⟩
  intro z hzz
  rcases split hzz with h | ⟨hzx, hyz⟩
  · exact hf z h
  · exact hyx (above_of_update hyx (hyz.trans hzx))

end Update

/-- Removing an edge closes no chain. -/
lemma Acyclic.mono (hf : Acyclic f) (h : ∀ x y, Up g x y → Up f x y) : Acyclic g :=
  fun x hx => hf x (TransGen.mono h x x hx)

end Sql
