import Proxiima.ReadCommitted.Runs

/-!
# Processes around a database

A process runs transactions one after the other and, with none of them open, makes requests to
a service outside the database. Processes start at any time and may stop between any two steps,
and a transaction whose process has stopped may still commit. A process need not hear how its
transaction ended. The cluster runs: a list of events gives a state.
-/

namespace ReadCommitted

variable {K : Type} {V : K → Type} {L E I A C R X Y W J P α β : Type}

/-- A process with commands `C` and requests `X`; what it hears of a transaction may be
nothing. -/
inductive Proc (E C R X Y α : Type) : Type where
  | done (a : α)
  | transact (c : C) (next : Option (Except E R) → Proc E C R X Y α)
  | request (x : X) (next : Y → Proc E C R X Y α)

namespace Proc

def bind : Proc E C R X Y α → (α → Proc E C R X Y β) → Proc E C R X Y β
  | .done a, f => f a
  | .transact c next, f => .transact c fun r => (next r).bind f
  | .request x next, f => .request x fun y => (next y).bind f

instance : Monad (Proc E C R X Y) where
  pure := .done
  bind := bind

/-- Run the transaction of a command. -/
def transaction (c : C) : Proc E C R X Y (Option (Except E R)) := .transact c .done

/-- Make a request to the service. -/
def ask (x : X) : Proc E C R X Y Y := .request x .done

/-- Go on after a transaction; a process that does not wait for one stays as it is. -/
def resume (r : Option (Except E R)) : Proc E C R X Y α → Proc E C R X Y α
  | .transact _ next => next r
  | p => p

end Proc

/-- The database with the live processes, the process that each live transaction belongs to, and
the state of the service. -/
structure World (V : K → Type) (L E I A C R X Y W : Type) where
  base : State V L E I A C R
  owners : List ℕ
  procs : List (Proc E C R X Y Unit)
  outside : W

inductive Event (I P J : Type) where
  | spawn (p : P)
  | start (i : ℕ)
  /-- A transaction moves. When this is its end, its process hears of it or not. -/
  | run (n : ℕ) (x : I) (heard : Bool)
  | cancel (n : ℕ)
  | request (i : ℕ) (choice : J)
  /-- The service changes by itself, or by others than the processes. -/
  | drift (choice : J)
  | crash (i : ℕ)

/-- A database, a service and the programs of the processes. The service answers with the number
of committed answers for its clock and may choose between several ways to answer; a program knows
the number of its process. -/
structure Cluster (V : K → Type) (L E I A C R X Y W J P : Type) where
  system : System V L E I A C R
  serve : ℕ → X → J → W → Option (Y × W)
  drift : ℕ → J → W → Option W
  program : ℕ → P → Proc E C R X Y Unit

namespace Cluster

variable (S : Cluster V L E I A C R X Y W J P)

def start (z : World V L E I A C R X Y W) (i : ℕ) : Option (World V L E I A C R X Y W) :=
  match z.procs[i]? with
  | some (.transact c _) =>
    if i ∈ z.owners then none
    else (S.system.step z.base (.start c)).map fun s =>
      { z with base := s, owners := i :: z.owners }
  | _ => none

/-- The transaction has ended: its process goes on. -/
def ended (z : World V L E I A C R X Y W) (s : State V L E I A C R) (n : ℕ)
    (r : Option (Except E R)) : Option (World V L E I A C R X Y W) :=
  (z.owners[n]?).map fun i =>
    { z with base := s, owners := z.owners.eraseIdx n, procs := z.procs.modify i (Proc.resume r) }

def request (z : World V L E I A C R X Y W) (i : ℕ) (j : J) :
    Option (World V L E I A C R X Y W) :=
  match z.procs[i]? with
  | some (.request x next) =>
    (S.serve z.base.hist.length x j z.outside).map fun (y, w) =>
      { z with outside := w, procs := z.procs.set i (next y) }
  | _ => none

def step (z : World V L E I A C R X Y W) : Event I P J → Option (World V L E I A C R X Y W)
  | .spawn p => some { z with procs := z.procs ++ [S.program z.procs.length p] }
  | .start i => S.start z i
  | .run n x heard =>
    (S.system.step z.base (.run n x)).bind fun s =>
      if s.hist.length = z.base.hist.length then some { z with base := s }
      else ended z s n (if heard then s.hist.head?.map Entry.result else none)
  | .cancel n => (S.system.step z.base (.cancel n)).bind fun s => ended z s n none
  | .request i j => S.request z i j
  | .drift j => (S.drift z.base.hist.length j z.outside).map fun w => { z with outside := w }
  | .crash i => some { z with procs := z.procs.set i (.done ()) }

/-- Run a list of events; `none` when one of them is not possible. -/
def run (z : World V L E I A C R X Y W) : List (Event I P J) →
    Option (World V L E I A C R X Y W)
  | [] => some z
  | e :: es => (S.step z e).bind fun z' => run z' es

def init (aux : A) (w : W) : World V L E I A C R X Y W := ⟨State.init aux, [], [], w⟩

/-- The states a cluster reaches by any list of events. -/
inductive Reaches (aux : A) (w : W) : World V L E I A C R X Y W → Prop where
  | init : Reaches aux w (init aux w)
  | step {z z' : World V L E I A C R X Y W} {e : Event I P J} (h : Reaches aux w z)
      (hs : S.step z e = some z') : Reaches aux w z'

variable {S} in
lemma Reaches.run {aux : A} {w : W} {z z' : World V L E I A C R X Y W} (h : S.Reaches aux w z)
    {es : List (Event I P J)} (hr : S.run z es = some z') : S.Reaches aux w z' := by
  induction es generalizing z with
  | nil =>
    obtain rfl := Option.some.inj hr
    exact h
  | cons e es ih =>
    obtain ⟨m, hm, hrest⟩ := Option.bind_eq_some_iff.1 hr
    exact ih (h.step hm) hrest

end Cluster

end ReadCommitted
