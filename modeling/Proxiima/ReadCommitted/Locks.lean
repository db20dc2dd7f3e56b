import Proxiima.ReadCommitted.Prog

/-!
# The locks of a database

A transaction locks a row to change it or to share it, and it takes advisory locks, shared or
exclusive, on numbers that mean something to the application.
-/

namespace ReadCommitted

inductive TableLock (K : Type) where
  | row (k : K)
  | share (k : K)
  | advisory (n : ℕ) (exclusive : Bool)
  deriving DecidableEq

namespace TableLock

variable {K : Type} [DecidableEq K]

def conflict : TableLock K → TableLock K → Bool
  | row k, row k' => k = k'
  | row k, share k' => k = k'
  | share k, row k' => k = k'
  | advisory n x, advisory n' x' => n = n' && (x || x')
  | _, _ => false

lemma conflict_symm (l l' : TableLock K) : l.conflict l' = l'.conflict l := by
  cases l <;> cases l' <;> simp [conflict, eq_comm, Bool.or_comm]

@[simp] lemma conflict_row_self (k : K) : (row k).conflict (row k) = true := by simp [conflict]

@[simp] lemma conflict_row_share (k : K) : (row k).conflict (share k) = true := by simp [conflict]

@[simp] lemma conflict_exclusive (n : ℕ) (x : Bool) :
    (advisory n true : TableLock K).conflict (advisory n x) = true := by simp [conflict]

end TableLock

end ReadCommitted
