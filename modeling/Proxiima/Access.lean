import Mathlib.Order.Bounds.Basic

/-!
# Ceilings and roles

A role is a read ceiling, a write ceiling no higher than it, and whether it manages. Roles
are ordered by what they allow; the meet and the join that the code computes on them are
the lattice operations of that order, so a role composed along a path and joined over paths
is a statement about the lattice.
-/

namespace Proxiima

inductive AccessCeiling where
  | none | fact | abstraction | perspective | goal
  deriving DecidableEq

namespace AccessCeiling

def rank : AccessCeiling → ℕ
  | none => 0
  | fact => 1
  | abstraction => 2
  | perspective => 3
  | goal => 4

lemma rank_injective : Function.Injective rank := by
  intro a b h
  cases a <;> cases b <;> simp_all [rank]

/-- The ceiling at a rank, counted from one as an SQL array is. -/
def ofIndex (i : ℕ) : Option AccessCeiling := [none, fact, abstraction, perspective, goal][i - 1]?

lemma ofIndex_rank (c : AccessCeiling) : ofIndex (c.rank + 1) = some c := by cases c <;> rfl

end AccessCeiling

/-- What a read or a write is about. -/
inductive AccessKind where
  | fact | abstraction | perspective | goal
  deriving DecidableEq

def AccessKind.rank : AccessKind → ℕ
  | fact => 1
  | abstraction => 2
  | perspective => 3
  | goal => 4

def AccessCeiling.allows (c : AccessCeiling) (kind : AccessKind) : Bool := kind.rank ≤ c.rank

inductive AccessError where
  | writeExceedsRead
  | derivedOwnerOverride
  | resolution (reason : String)
  | subjectIsGroup (subject : ℕ)
  deriving DecidableEq

/-- What a subject may do with an owner's memories. -/
@[ext] structure Role where
  read : AccessCeiling
  write : AccessCeiling
  manage : Bool
  write_le : write.rank ≤ read.rank
  deriving DecidableEq

namespace Role

def new (read write : AccessCeiling) (manage : Bool) : Except AccessError Role :=
  if h : write.rank ≤ read.rank then .ok ⟨read, write, manage, h⟩ else .error .writeExceedsRead

def personal : Role := ⟨.goal, .goal, false, by decide⟩
def viewer : Role := ⟨.goal, .none, false, by decide⟩
def ingest : Role := ⟨.fact, .fact, false, by decide⟩
def editor : Role := ⟨.goal, .perspective, false, by decide⟩
def admin : Role := ⟨.goal, .goal, true, by decide⟩

/-- Greatest role no more powerful than either input. -/
def meet (a b : Role) : Role where
  read := if a.read.rank ≤ b.read.rank then a.read else b.read
  write := if a.write.rank ≤ b.write.rank then a.write else b.write
  manage := a.manage && b.manage
  write_le := by
    have ha := a.write_le
    have hb := b.write_le
    split <;> split <;> omega

/-- Least role at least as powerful as either input. -/
def join (a b : Role) : Role where
  read := if b.read.rank ≤ a.read.rank then a.read else b.read
  write := if b.write.rank ≤ a.write.rank then a.write else b.write
  manage := a.manage || b.manage
  write_le := by
    have ha := a.write_le
    have hb := b.write_le
    split <;> split <;> omega

def mayRead (a : Role) (kind : AccessKind) : Bool := a.read.allows kind

def mayWrite (a : Role) (kind : AccessKind) : Bool := a.write.allows kind

def administers (a : Role) : Bool := a.mayWrite .goal

/-- Whether `a` contains every capability in `required`. -/
def dominates (a required : Role) : Bool :=
  (a.meet required).read.rank = required.read.rank ∧
    (a.meet required).write.rank = required.write.rank ∧ (required.manage → a.manage)

variable (a b c : Role)

@[simp] lemma rank_read_meet : (a.meet b).read.rank = min a.read.rank b.read.rank := by
  simp only [meet]
  split <;> omega

@[simp] lemma rank_write_meet : (a.meet b).write.rank = min a.write.rank b.write.rank := by
  simp only [meet]
  split <;> omega

@[simp] lemma manage_meet : (a.meet b).manage = (a.manage && b.manage) := rfl

@[simp] lemma rank_read_join : (a.join b).read.rank = max a.read.rank b.read.rank := by
  simp only [join]
  split <;> omega

@[simp] lemma rank_write_join : (a.join b).write.rank = max a.write.rank b.write.rank := by
  simp only [join]
  split <;> omega

@[simp] lemma manage_join : (a.join b).manage = (a.manage || b.manage) := rfl

/-- `a` allows nothing that `b` does not. -/
instance : LE Role where
  le a b := a.read.rank ≤ b.read.rank ∧ a.write.rank ≤ b.write.rank ∧ a.manage ≤ b.manage

variable {a b c}

lemma le_iff : a ≤ b ↔
    a.read.rank ≤ b.read.rank ∧ a.write.rank ≤ b.write.rank ∧ a.manage ≤ b.manage := Iff.rfl

lemma eq_of_ranks (hr : a.read.rank = b.read.rank) (hw : a.write.rank = b.write.rank)
    (hm : a.manage = b.manage) : a = b :=
  Role.ext (AccessCeiling.rank_injective hr) (AccessCeiling.rank_injective hw) hm

instance : PartialOrder Role where
  le_refl a := ⟨le_rfl, le_rfl, le_rfl⟩
  le_trans a b c h h' := ⟨h.1.trans h'.1, h.2.1.trans h'.2.1, h.2.2.trans h'.2.2⟩
  le_antisymm a b h h' :=
    eq_of_ranks (h.1.antisymm h'.1) (h.2.1.antisymm h'.2.1) (h.2.2.antisymm h'.2.2)

/-- The code's meet and join are those of the order. -/
instance : Lattice Role where
  inf := meet
  sup := join
  inf_le_left a b := by simp [le_iff, Bool.and_le_left]
  inf_le_right a b := by simp [le_iff, Bool.and_le_right]
  le_inf a b c h h' := by
    rw [le_iff] at h h' ⊢
    simp only [rank_read_meet, rank_write_meet, manage_meet]
    exact ⟨le_min h.1 h'.1, le_min h.2.1 h'.2.1, Bool.le_and h.2.2 h'.2.2⟩
  le_sup_left a b := by simp [le_iff, Bool.left_le_or]
  le_sup_right a b := by simp [le_iff, Bool.right_le_or]
  sup_le a b c h h' := by
    rw [le_iff] at h h' ⊢
    simp only [rank_read_join, rank_write_join, manage_join]
    exact ⟨max_le h.1 h'.1, max_le h.2.1 h'.2.1, Bool.or_le h.2.2 h'.2.2⟩

lemma meet_eq_inf (a b : Role) : a.meet b = a ⊓ b := rfl

/-- To dominate is to be above in the order of roles. -/
lemma dominates_iff : a.dominates b = true ↔ b ≤ a := by
  simp only [dominates, rank_read_meet, rank_write_meet, decide_eq_true_eq, le_iff, Bool.le_iff_imp]
  constructor
  · rintro ⟨hread, hwrite, hmanage⟩
    exact ⟨by omega, by omega, hmanage⟩
  · rintro ⟨hread, hwrite, hmanage⟩
    exact ⟨by omega, by omega, hmanage⟩

/-- A role cut down to a ceiling it dominates is the ceiling. -/
lemma meet_of_dominates (h : a.dominates b = true) : a.meet b = b :=
  (meet_eq_inf a b).trans (inf_eq_right.2 (dominates_iff.1 h))

end Role

/-- The stored name of a membership preset. -/
inductive Relation where
  | admin | editor | viewer | ingest
  deriving DecidableEq

def Relation.role : Relation → Role
  | admin => .admin
  | editor => .editor
  | viewer => .viewer
  | ingest => .ingest

end Proxiima
