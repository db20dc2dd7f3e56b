import Proxiima.ReadCommitted.Store

/-!
# Transactions as programs

A transaction is a program over a small set of operations: take a lock, look at the rows,
write rows, ask the process it runs in, and set, roll back to or release a savepoint. Each
look is a statement of its own and sees the rows as they are at that moment, which is what
READ COMMITTED gives a statement. Programs form a monad, so a transaction is written in
the order in which its code runs.
-/

namespace ReadCommitted

variable {K : Type}

/-- A program over rows `V`, with locks `L`, errors `E`, inputs `I` of its environment and
process memory `A`, that returns an `α`. -/
inductive Prog (V : K → Type) (L E I A α : Type) : Type where
  | ret (a : α)
  | raise (e : E)
  | acquire (l : L) (next : Prog V L E I A α)
  | look (next : Log V → Prog V L E I A α)
  | put (ws : Log V) (next : Prog V L E I A α)
  /-- Memory of the process: not transactional, shared by the transactions of the process. -/
  | ask (update : I → A → A) (next : I → A → Prog V L E I A α)
  | save (next : Prog V L E I A α)
  | rollback (next : Prog V L E I A α)
  | release (next : Prog V L E I A α)

namespace Prog

variable {V : K → Type} {L E I A α β : Type}

/-- Run `p`, then `f` on what it returned. -/
def bind : Prog V L E I A α → (α → Prog V L E I A β) → Prog V L E I A β
  | .ret a, f => f a
  | .raise e, _ => .raise e
  | .acquire l p, f => .acquire l (p.bind f)
  | .look p, f => .look fun v => (p v).bind f
  | .put ws p, f => .put ws (p.bind f)
  | .ask u p, f => .ask u fun x a => (p x a).bind f
  | .save p, f => .save (p.bind f)
  | .rollback p, f => .rollback (p.bind f)
  | .release p, f => .release (p.bind f)

instance : Monad (Prog V L E I A) where
  pure := .ret
  bind := bind

lemma bind_ret (p : Prog V L E I A α) : p.bind .ret = p := by
  induction p <;> simp_all [bind]

instance : LawfulMonad (Prog V L E I A) := .mk' _ bind_ret (fun _ _ => rfl) fun p f g => by
  change (p.bind f).bind g = p.bind fun a => (f a).bind g
  induction p <;> simp_all [bind]

/-- Wait for the lock `l` and hold it to the end of the transaction. -/
def lock (l : L) : Prog V L E I A Unit := .acquire l (.ret ())

/-- The rows this statement sees. -/
def view : Prog V L E I A (Log V) := .look .ret

def write (ws : Log V) : Prog V L E I A Unit := .put ws (.ret ())

def fail (e : E) : Prog V L E I A α := .raise e

def failIf (c : Prop) [Decidable c] (e : E) : Prog V L E I A Unit := if c then fail e else pure ()

/-- One call into the process: what it answers, and its memory afterwards. -/
def call (f : I → A → α × A) : Prog V L E I A α :=
  .ask (fun x a => (f x a).2) fun x a => .ret (f x a).1

/-- Run `body` under a savepoint. Where it answers `none` it is rolled back, locks included,
and `retry` runs in its place. -/
def attempt (body : Prog V L E I A (Option α)) (retry : Prog V L E I A α) :
    Prog V L E I A α :=
  .save <| body.bind fun
    | some a => .release (.ret a)
    | none => .rollback retry

/-- The program writes nothing and sets no savepoint. -/
inductive Passive : Prog V L E I A α → Prop where
  | ret (a : α) : Passive (.ret a)
  | raise (e : E) : Passive (.raise e)
  | acquire {l : L} {p : Prog V L E I A α} (h : Passive p) : Passive (.acquire l p)
  | look {p : Log V → Prog V L E I A α} (h : ∀ v, Passive (p v)) : Passive (.look p)
  | ask {u : I → A → A} {p : I → A → Prog V L E I A α} (h : ∀ x a, Passive (p x a)) :
      Passive (.ask u p)

lemma Passive.bind {p : Prog V L E I A α} {f : α → Prog V L E I A β} (h : p.Passive)
    (hf : ∀ a, (f a).Passive) : (p >>= f).Passive := by
  induction h with
  | ret a => exact hf a
  | raise e => exact .raise e
  | acquire _ ih => exact .acquire ih
  | look _ ih => exact .look ih
  | ask _ ih => exact .ask ih

lemma passive_pure (a : α) : (pure a : Prog V L E I A α).Passive := .ret a

lemma passive_fail (e : E) : (fail e : Prog V L E I A α).Passive := .raise e

lemma passive_failIf (c : Prop) [Decidable c] (e : E) :
    (failIf c e : Prog V L E I A Unit).Passive := by
  unfold failIf
  split
  · exact .raise e
  · exact .ret ()

lemma passive_lock (l : L) : (lock l : Prog V L E I A Unit).Passive := .acquire (.ret ())

lemma passive_view : (view : Prog V L E I A (Log V)).Passive := .look .ret

lemma passive_call (f : I → A → α × A) : (call f : Prog V L E I A α).Passive :=
  .ask fun _ _ => .ret _

lemma passive_forM {body : β → Prog V L E I A PUnit} (h : ∀ x, (body x).Passive) (xs : List β) :
    (xs.forM body).Passive := by
  induction xs with
  | nil => exact .ret _
  | cons x xs ih => exact (h x).bind fun _ => ih

end Prog

end ReadCommitted
