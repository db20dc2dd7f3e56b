import Proxiima.ReadCommitted.Prog

/-!
# Transactions running side by side

The state of the machine is the committed log, the answers given so far and the live
transactions. A scheduler picks which transaction moves; one that waits for a lock cannot
be picked until the lock is free. A lock is held to the end of its transaction, or until a
savepoint set before it is rolled back to, and every written row is locked. The machine
runs: a list of scheduler choices gives a state.
-/

namespace ReadCommitted

variable {K : Type} {V : K → Type} {L E I A C R : Type}

/-- Which locks exclude each other, the lock of a row, and the transaction of a command. -/
structure System (V : K → Type) (L E I A C R : Type) where
  conflict : L → L → Bool
  symm : ∀ l l', conflict l l' = conflict l' l
  rowLock : K → L
  row_conflict : ∀ k, conflict (rowLock k) (rowLock k) = true
  body : C → Prog V L E I A R

/-- One answer of the machine: the command, how many answers had been given when its
transaction started, the committed log just before it ended, and how it ended. -/
structure Entry (V : K → Type) (E C R : Type) where
  cmd : C
  since : ℕ
  before : Log V
  result : Except E R

/-- A live transaction: its command, how many answers had been given when it started, what
is left of it, its writes, its locks, and its writes and locks at each open savepoint,
innermost first. -/
structure Txn (V : K → Type) (L E I A C R : Type) where
  cmd : C
  since : ℕ
  prog : Prog V L E I A R
  writes : Log V
  held : List L
  saves : List (Log V × List L)

/-- The committed log, the answers so far (newest first), the process memory and the live
transactions. -/
structure State (V : K → Type) (L E I A C R : Type) where
  db : Log V
  hist : List (Entry V E C R)
  aux : A
  txns : List (Txn V L E I A C R)

inductive Action (I C : Type) where
  | start (c : C)
  | run (i : ℕ) (x : I)
  | cancel (i : ℕ)

def State.init (aux : A) : State V L E I A C R := ⟨[], [], aux, []⟩

namespace System

variable (S : System V L E I A C R)

def free (others : List (Txn V L E I A C R)) (l : L) : Bool :=
  others.all fun u => u.held.all fun l' => !S.conflict l l'

def start (c : C) (since : ℕ) : Txn V L E I A C R := ⟨c, since, S.body c, [], [], []⟩

/-- One move of a transaction that is not its last: what it becomes, with the process
memory. `none` when it has to wait. -/
def move (free : L → Bool) (db : Log V) (x : I) (a : A) (t : Txn V L E I A C R) :
    Option (Txn V L E I A C R × A) :=
  match t.prog with
  | .ret _ => none
  | .raise _ => none
  | .acquire l p => if free l then some ({ t with prog := p, held := l :: t.held }, a) else none
  | .look p => some ({ t with prog := p (t.writes ++ db) }, a)
  | .put ws p =>
    if (ws.keys.map S.rowLock).all free then
      some ({ t with prog := p, writes := ws ++ t.writes,
                     held := ws.keys.map S.rowLock ++ t.held }, a)
    else none
  | .ask u p => some ({ t with prog := p x a }, u x a)
  | .save p => some ({ t with prog := p, saves := (t.writes, t.held) :: t.saves }, a)
  | .rollback p =>
    match t.saves with
    | [] => none
    | fr :: rest => some ({ t with prog := p, writes := fr.1, held := fr.2, saves := rest }, a)
  | .release p =>
    match t.saves with
    | [] => none
    | _ :: rest => some ({ t with prog := p, saves := rest }, a)

def step (s : State V L E I A C R) : Action I C → Option (State V L E I A C R)
  | .start c => some { s with txns := S.start c s.hist.length :: s.txns }
  | .cancel i => some { s with txns := s.txns.eraseIdx i }
  | .run i x =>
    match s.txns[i]? with
    | none => none
    | some t =>
      match t.prog with
      | .ret r =>
        some { s with db := t.writes ++ s.db, txns := s.txns.eraseIdx i,
                      hist := ⟨t.cmd, t.since, s.db, .ok r⟩ :: s.hist }
      | .raise e =>
        some { s with hist := ⟨t.cmd, t.since, s.db, .error e⟩ :: s.hist,
                      txns := s.txns.eraseIdx i }
      | _ =>
        (S.move (S.free (s.txns.eraseIdx i)) s.db x s.aux t).map fun (t', a) =>
          { s with aux := a, txns := s.txns.set i t' }

/-- Run a list of scheduler choices; `none` when one of them is not possible. -/
def run (s : State V L E I A C R) : List (Action I C) → Option (State V L E I A C R)
  | [] => some s
  | a :: as => (S.step s a).bind fun s' => run s' as

/-- Run the one live transaction to its end, in at most this many steps. -/
def finish (x : I) : ℕ → State V L E I A C R → Option (State V L E I A C R)
  | 0, _ => none
  | n + 1, s => if s.txns.isEmpty then some s else (S.step s (.run 0 x)).bind (finish x n)

/-- Run commands one after the other, each alone and to its end, with `fuel` steps for each. -/
def serial (fuel : ℕ) (s : State V L E I A C R) : List (C × I) → Option (State V L E I A C R)
  | [] => some s
  | (c, x) :: cs =>
    (S.step s (.start c)).bind fun s' => (S.finish x fuel s').bind fun s'' => serial fuel s'' cs

end System

/-! ### One transaction's side of a state -/

/-- What one transaction sees of the machine: its command and start, the committed log and
answers, its own writes and its locks. -/
structure Local (V : K → Type) (L E C R : Type) where
  cmd : C
  since : ℕ
  db : Log V
  hist : List (Entry V E C R)
  writes : Log V
  held : List L

def Local.view (σ : Local V L E C R) : Log V := σ.writes ++ σ.db

def State.side (s : State V L E I A C R) (t : Txn V L E I A C R) : Local V L E C R :=
  ⟨t.cmd, t.since, s.db, s.hist, t.writes, t.held⟩

/-- The answer a transaction gives when it ends now. -/
def Local.ended (σ : Local V L E C R) (result : Except E R) : Entry V E C R :=
  ⟨σ.cmd, σ.since, σ.db, result⟩

/-- The states a machine reaches by any choices of its scheduler. -/
inductive Reachable (S : System V L E I A C R) (aux : A) : State V L E I A C R → Prop where
  | init : Reachable S aux (State.init aux)
  | step {s s' : State V L E I A C R} {a : Action I C} (h : Reachable S aux s)
      (hs : S.step s a = some s') : Reachable S aux s'

variable {S : System V L E I A C R} {aux : A} {s s' : State V L E I A C R}

lemma Reachable.run (h : Reachable S aux s) {as : List (Action I C)} (hr : S.run s as = some s') :
    Reachable S aux s' := by
  induction as generalizing s with
  | nil =>
    obtain rfl := Option.some.inj hr
    exact h
  | cons a as ih =>
    obtain ⟨m, hm, hrest⟩ := Option.bind_eq_some_iff.1 hr
    exact ih (h.step hm) hrest

lemma Reachable.finish {x : I} {n : ℕ} (h : Reachable S aux s) (hf : S.finish x n s = some s') :
    Reachable S aux s' := by
  induction n generalizing s with
  | zero => cases hf
  | succ n ih =>
    unfold System.finish at hf
    split at hf
    · obtain rfl := Option.some.inj hf
      exact h
    · obtain ⟨m, hm, hrest⟩ := Option.bind_eq_some_iff.1 hf
      exact ih (h.step hm) hrest

lemma Reachable.serial {fuel : ℕ} {cs : List (C × I)} (h : Reachable S aux s)
    (hs : S.serial fuel s cs = some s') : Reachable S aux s' := by
  induction cs generalizing s with
  | nil =>
    obtain rfl := Option.some.inj hs
    exact h
  | cons c cs ih =>
    obtain ⟨m, hm, hrest⟩ := Option.bind_eq_some_iff.1 hs
    obtain ⟨m', hm', hrest⟩ := Option.bind_eq_some_iff.1 hrest
    exact ih ((h.step hm).finish hm') hrest

/-! ### What a step can do -/

section Steps

variable {S : System V L E I A C R} {s s' : State V L E I A C R}

lemma step_cases {a : Action I C} (h : S.step s a = some s') :
    (∃ c, a = .start c ∧ s' = { s with txns := S.start c s.hist.length :: s.txns }) ∨
    (∃ i, a = .cancel i ∧ s' = { s with txns := s.txns.eraseIdx i }) ∨
    ∃ i x t, a = .run i x ∧ s.txns[i]? = some t ∧
      ((∃ r, t.prog = .ret r ∧ s' = { s with
          db := t.writes ++ s.db, txns := s.txns.eraseIdx i,
          hist := (s.side t).ended (.ok r) :: s.hist }) ∨
       (∃ e, t.prog = .raise e ∧ s' = { s with
          hist := (s.side t).ended (.error e) :: s.hist, txns := s.txns.eraseIdx i }) ∨
       ∃ t' aux, S.move (S.free (s.txns.eraseIdx i)) s.db x s.aux t = some (t', aux) ∧
          s' = { s with aux := aux, txns := s.txns.set i t' }) := by
  cases a with
  | start c => exact .inl ⟨c, rfl, (Option.some.inj h).symm⟩
  | cancel i => exact .inr (.inl ⟨i, rfl, (Option.some.inj h).symm⟩)
  | run i x =>
    refine .inr (.inr ?_)
    simp only [System.step] at h
    split at h
    · cases h
    · rename_i t ht
      refine ⟨i, x, t, rfl, ht, ?_⟩
      split at h
      · rename_i r hr
        exact .inl ⟨r, hr, (Option.some.inj h).symm⟩
      · rename_i e he
        exact .inr (.inl ⟨e, he, (Option.some.inj h).symm⟩)
      · obtain ⟨⟨t', aux⟩, hm, rfl⟩ := Option.map_eq_some_iff.1 h
        exact .inr (.inr ⟨t', aux, hm, rfl⟩)

/-- The transaction at an index, and the others on both sides of it. -/
lemma split_txns {T : Type} {ts : List T} {i : ℕ} {t : T} (h : ts[i]? = some t) :
    ∃ pre post, ts = pre ++ t :: post ∧ ts.eraseIdx i = pre ++ post ∧
      ∀ t', ts.set i t' = pre ++ t' :: post := by
  obtain ⟨hi, rfl⟩ := List.getElem?_eq_some_iff.1 h
  refine ⟨ts.take i, ts.drop (i + 1), by simp, List.eraseIdx_eq_take_drop_succ _ _, fun t' => ?_⟩
  exact List.set_eq_take_append_cons_drop.trans (if_pos hi)

end Steps

end ReadCommitted
