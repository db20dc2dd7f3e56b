import Proxiima.ReadCommitted.Machine

/-!
# A transaction on its own

With no other transaction alive every lock is free, so a transaction runs to its end and its
answer is a function of the rows it found. `alone` computes it; the machine agrees.
-/

namespace ReadCommitted

variable {K : Type} {V : K → Type} {L E I A C R α β : Type}

namespace Prog

/-- Run a program by itself on the rows `db`, with the input `x` throughout: its result, its
writes and the process memory afterwards. `none` when it goes back to no savepoint. -/
def alone (db : Log V) (x : I) :
    Prog V L E I A α → Log V → List (Log V) → A → Option (Except E α × Log V × A)
  | .ret a, ws, _, m => some (.ok a, ws, m)
  | .raise e, ws, _, m => some (.error e, ws, m)
  | .acquire _ p, ws, fs, m => p.alone db x ws fs m
  | .look p, ws, fs, m => (p (ws ++ db)).alone db x ws fs m
  | .put ws' p, ws, fs, m => p.alone db x (ws' ++ ws) fs m
  | .ask u p, ws, fs, m => (p x m).alone db x ws fs (u x m)
  | .save p, ws, fs, m => p.alone db x ws (ws :: fs) m
  | .rollback p, _, fs, m =>
    match fs with
    | [] => none
    | f :: fs => p.alone db x f fs m
  | .release p, ws, fs, m =>
    match fs with
    | [] => none
    | _ :: fs => p.alone db x ws fs m

/-- The program ends by itself with the answer `r` and the writes `ws'`, leaving savepoints
and process memory as they were. -/
structure Ends (db : Log V) (x : I) (p : Prog V L E I A α) (ws : Log V) (r : Except E α)
    (ws' : Log V) : Prop where
  alone_bind : ∀ {β : Type} (f : α → Prog V L E I A β) (fs : List (Log V)) (m : A),
    (p >>= f).alone db x ws fs m = match r with
      | .ok a => (f a).alone db x ws' fs m
      | .error e => some (.error e, ws', m)

variable {db ws ws' : Log V} {x : I} {p : Prog V L E I A α} {f : α → Prog V L E I A β}

lemma Ends.ret (a : α) : Ends db x (pure a : Prog V L E I A α) ws (.ok a) ws :=
  ⟨fun _ _ _ => rfl⟩

lemma Ends.lock (l : L) : Ends db x (Prog.lock l : Prog V L E I A Unit) ws (.ok ()) ws :=
  ⟨fun _ _ _ => rfl⟩

lemma Ends.view : Ends db x (Prog.view : Prog V L E I A (Log V)) ws (.ok (ws ++ db)) ws :=
  ⟨fun _ _ _ => rfl⟩

lemma Ends.write (ws' : Log V) :
    Ends db x (Prog.write ws' : Prog V L E I A Unit) ws (.ok ()) (ws' ++ ws) :=
  ⟨fun _ _ _ => rfl⟩

lemma Ends.call {f : I → A → α × A} (a : α) (h : ∀ m, f x m = (a, m)) :
    Ends db x (Prog.call f : Prog V L E I A α) ws (.ok a) ws := by
  refine ⟨fun g fs m => ?_⟩
  change (g (f x m).1).alone db x ws fs (f x m).2 = _
  rw [h m]

lemma Ends.failIf {q : Prop} [Decidable q] (e : E) (hq : ¬ q) :
    Ends db x (Prog.failIf q e : Prog V L E I A Unit) ws (.ok ()) ws := by
  unfold Prog.failIf
  rw [if_neg hq]
  exact Ends.ret ()

lemma Ends.bind {a : α} {ws'' : Log V} {r : Except E β} (hp : Ends db x p ws (.ok a) ws')
    (hf : Ends db x (f a) ws' r ws'') : Ends db x (p >>= f) ws r ws'' := by
  refine ⟨fun g fs m => ?_⟩
  rw [bind_assoc, hp.alone_bind]
  exact hf.alone_bind g fs m

lemma Ends.forM {body : β → Prog V L E I A PUnit} {xs : List β}
    (h : ∀ y ∈ xs, Ends db x (body y) ws (.ok ⟨⟩) ws) :
    Ends db x (xs.forM body) ws (.ok ⟨⟩) ws := by
  induction xs with
  | nil => exact Ends.ret _
  | cons y ys ih =>
    exact (h y List.mem_cons_self).bind (ih fun z hz => h z (List.mem_cons_of_mem _ hz))

end Prog

/-- What a transaction leaves behind: its writes, or nothing when it fails. -/
def settle (db ws : Log V) : Except E R → Log V
  | .ok _ => ws ++ db
  | .error _ => db

/-! ### The machine agrees -/

namespace System

variable {S : System V L E I A C R} {x : I} {ws : Log V}

/-- A live transaction with no other beside it runs to the end that `alone` computes. -/
lemma finish_alone {db : Log V} (hist : List (Entry V E C R)) (c : C) (since : ℕ)
    {p : Prog V L E I A R} {ws' : Log V} (held : List L) (saves : List (Log V × List L)) {m m' : A}
    {r : Except E R} (h : p.alone db x ws (saves.map Prod.fst) m = some (r, ws', m')) :
    ∃ n, S.finish x n ⟨db, hist, m, [⟨c, since, p, ws, held, saves⟩]⟩ =
      some ⟨settle db ws' r, ⟨c, since, db, r⟩ :: hist, m', []⟩ := by
  induction p generalizing ws held saves m with
  | ret a =>
    obtain ⟨rfl, rfl, rfl⟩ : .ok a = r ∧ ws = ws' ∧ m = m' := by simpa [Prog.alone] using h
    exact ⟨2, rfl⟩
  | raise e =>
    obtain ⟨rfl, rfl, rfl⟩ : .error e = r ∧ ws = ws' ∧ m = m' := by simpa [Prog.alone] using h
    exact ⟨2, rfl⟩
  | acquire l p ih =>
    obtain ⟨n, hn⟩ := @ih ws (l :: held) saves m h
    exact ⟨n + 1, by simpa [finish, step, move, free] using hn⟩
  | look p ih =>
    obtain ⟨n, hn⟩ := @ih _ ws held saves m h
    exact ⟨n + 1, by simpa [finish, step, move] using hn⟩
  | put ws₁ p ih =>
    obtain ⟨n, hn⟩ := @ih (ws₁ ++ ws) (ws₁.keys.map S.rowLock ++ held) saves m h
    exact ⟨n + 1, by simpa [finish, step, move, free] using hn⟩
  | ask u p ih =>
    obtain ⟨n, hn⟩ := @ih x m ws held saves _ h
    exact ⟨n + 1, by simpa [finish, step, move] using hn⟩
  | save p ih =>
    obtain ⟨n, hn⟩ := @ih ws held ((ws, held) :: saves) m h
    exact ⟨n + 1, by simpa [finish, step, move] using hn⟩
  | rollback p ih =>
    cases saves with
    | nil => simp [Prog.alone] at h
    | cons fr saves =>
      obtain ⟨n, hn⟩ := @ih fr.1 fr.2 saves m h
      exact ⟨n + 1, by simpa [finish, step, move] using hn⟩
  | release p ih =>
    cases saves with
    | nil => simp [Prog.alone] at h
    | cons fr saves =>
      obtain ⟨n, hn⟩ := @ih ws held saves m h
      exact ⟨n + 1, by simpa [finish, step, move] using hn⟩

/-- A command started when no transaction is alive gets the answer its program ends with. -/
theorem serial_of_ends {s : State V L E I A C R} {c : C} {r : R} (hs : s.txns = [])
    (h : Prog.Ends s.db x (S.body c) [] (.ok r) ws) :
    ∃ fuel, S.serial fuel s [(c, x)] =
      some ⟨ws ++ s.db, ⟨c, s.hist.length, s.db, .ok r⟩ :: s.hist, s.aux, []⟩ := by
  obtain ⟨db, hist, aux, txns⟩ := s
  obtain rfl : txns = [] := hs
  have halone := h.alone_bind pure [] aux
  rw [bind_pure] at halone
  obtain ⟨n, hn⟩ := finish_alone (S := S) hist c hist.length [] [] halone
  exact ⟨n, by simpa [serial, step, start, settle] using hn⟩

end System

end ReadCommitted
