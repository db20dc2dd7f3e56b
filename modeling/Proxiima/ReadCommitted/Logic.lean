import Proxiima.ReadCommitted.Machine

/-!
# A logic for READ COMMITTED transactions

What holds of the committed rows between transactions is an invariant `inv` of the log and
the answers; what holds of a live transaction's writes and locks at every moment is its
side `own`. Everything a transaction may rely on about the others follows from these two:
another transaction commits only writes that its `own` allows, under locks that exclude
nothing this one holds, and leaves `inv` true. An assertion that no such commit can break
is stable, and a triple `{P} p {Q}` runs `p` from a stable `P` to `Q` whatever the others
commit in between.
-/

namespace ReadCommitted

variable {K : Type} {V : K → Type} {L E I A C R : Type}

namespace Local

variable (σ : Local V L E C R)

def acquire (ls : List L) : Local V L E C R := { σ with held := ls ++ σ.held }

def put (ws : Log V) : Local V L E C R := { σ with writes := ws ++ σ.writes }

/-- The committed part moved on to that of `τ`. -/
def advance (τ : Local V L E C R) : Local V L E C R := { σ with db := τ.db, hist := τ.hist }

def restore (fr : Log V × List L) : Local V L E C R := { σ with writes := fr.1, held := fr.2 }

@[simp] lemma view_acquire (ls : List L) : (σ.acquire ls).view = σ.view := rfl

@[simp] lemma view_put (ws : Log V) : (σ.put ws).view = ws ++ σ.view := List.append_assoc _ _ _

@[simp] lemma keys_put (ws : Log V) : (σ.put ws).writes.keys = ws.keys ++ σ.writes.keys :=
  List.map_append

end Local

/-- An invariant of the committed state, and the side of each live transaction. -/
structure Spec (V : K → Type) (L E C R : Type) where
  inv : Log V → List (Entry V E C R) → Prop
  own : Local V L E C R → Prop

/-- The proof context of a system: its locks and what is to be shown of it. -/
structure Setting (V : K → Type) (L E I A C R : Type) extends
    System V L E I A C R, Spec V L E C R

namespace Setting

variable (S : Setting V L E I A C R)

def Compatible (hs hs' : List L) : Prop := ∀ l ∈ hs, ∀ l' ∈ hs', S.conflict l l' = false

def Inv (σ : Local V L E C R) : Prop := S.inv σ.db σ.hist

/-- One other transaction `u` ends. -/
inductive Rely (σ : Local V L E C R) : Local V L E C R → Prop where
  | commit (u : Local V L E C R) (r : R) (hinv : S.Inv σ)
      (hdb : u.db = σ.db) (hhist : u.hist = σ.hist) (hown : S.own u)
      (hrow : ∀ k ∈ u.writes.keys, S.rowLock k ∈ u.held)
      (hcompat : S.Compatible u.held σ.held)
      (hinv' : S.inv (u.writes ++ σ.db) (u.ended (.ok r) :: σ.hist)) :
      Rely σ { σ with db := u.writes ++ σ.db, hist := u.ended (.ok r) :: σ.hist }
  | refuse (u : Local V L E C R) (e : E) (hinv : S.Inv σ) (hdb : u.db = σ.db)
      (hinv' : S.inv σ.db (u.ended (.error e) :: σ.hist)) :
      Rely σ { σ with hist := u.ended (.error e) :: σ.hist }

/-- Any number of other transactions end. -/
abbrev Env : Local V L E C R → Local V L E C R → Prop := Relation.ReflTransGen S.Rely

/-- An assertion no other transaction can break, and that has this one's side. -/
structure Stable (P : Local V L E C R → Prop) : Prop where
  own : ∀ σ, P σ → S.own σ
  rely : ∀ σ σ', P σ → S.Rely σ σ' → P σ'

variable {S} {σ σ' τ : Local V L E C R} {fs : List (Log V × List L)}

lemma Stable.env {P : Local V L E C R → Prop} (h : S.Stable P) (hσ : P σ) (he : S.Env σ σ') :
    P σ' := by
  induction he with
  | refl => exact hσ
  | tail _ hr ih => exact h.rely _ _ ih hr

lemma Rely.keeps (h : S.Rely σ σ') : σ'.writes = σ.writes ∧ σ'.held = σ.held := by
  cases h <;> exact ⟨rfl, rfl⟩

lemma Rely.start (h : S.Rely σ σ') : σ'.cmd = σ.cmd ∧ σ'.since = σ.since := by
  cases h <;> exact ⟨rfl, rfl⟩

/-- Answers are only added. -/
lemma Rely.hist_suffix (h : S.Rely σ σ') : σ.hist <:+ σ'.hist := by
  cases h <;> exact List.suffix_cons _ _

lemma Env.keeps (h : S.Env σ σ') : σ'.writes = σ.writes ∧ σ'.held = σ.held := by
  induction h with
  | refl => exact ⟨rfl, rfl⟩
  | tail _ hr ih => exact ⟨hr.keeps.1.trans ih.1, hr.keeps.2.trans ih.2⟩

lemma Env.eq_advance (h : S.Env σ σ') : σ' = σ.advance σ' := by
  induction h with
  | refl => rfl
  | tail _ hr ih =>
    cases hr <;> exact ih ▸ rfl

/-- What the others may do to a transaction, they may do to one that holds fewer locks. -/
lemma Rely.mono (h : S.Rely σ σ') (hsub : τ.held ⊆ σ.held) :
    S.Rely (τ.advance σ) (τ.advance σ') := by
  cases h with
  | commit u r hinv hdb hhist hown hrow hcompat hinv' =>
    exact .commit u r hinv hdb hhist hown hrow (fun l hl l' hl' => hcompat l hl l' (hsub hl')) hinv'
  | refuse u e hinv hdb hinv' => exact .refuse u e hinv hdb hinv'

lemma Env.mono (h : S.Env σ σ') (hsub : τ.held ⊆ σ.held) : S.Env (τ.advance σ) (τ.advance σ') := by
  induction h with
  | refl => exact .refl
  | tail h' hr ih => exact ih.tail (hr.mono ((Env.keeps h').2 ▸ hsub))

/-! ### Programs that stay safe -/

variable (S)

/-- Run from `σ` with the savepoints `fs`, the program keeps its side at every moment,
returns only with `Q` and fails only with `X`, whatever the others commit meanwhile. -/
def Safe {α : Type} (X : E → Local V L E C R → Prop)
    (Q : α → Local V L E C R → List (Log V × List L) → Prop) :
    Prog V L E I A α → Local V L E C R → List (Log V × List L) → Prop
  | .ret a, σ, fs => ∀ τ, S.Env σ τ → S.Inv τ → S.own τ ∧ Q a τ fs
  | .raise e, σ, _ => ∀ τ, S.Env σ τ → S.Inv τ → S.own τ ∧ X e τ
  | .acquire l p, σ, fs => ∀ τ, S.Env σ τ → S.Inv τ → S.own τ ∧ Safe X Q p (τ.acquire [l]) fs
  | .look p, σ, fs => ∀ τ, S.Env σ τ → S.Inv τ → S.own τ ∧ Safe X Q (p τ.view) τ fs
  | .put ws p, σ, fs => ∀ τ, S.Env σ τ → S.Inv τ →
      S.own τ ∧ Safe X Q p ((τ.acquire (ws.keys.map S.rowLock)).put ws) fs
  | .ask _ p, σ, fs => ∀ τ, S.Env σ τ → S.Inv τ → S.own τ ∧ ∀ x a, Safe X Q (p x a) τ fs
  | .save p, σ, fs => ∀ τ, S.Env σ τ → S.Inv τ →
      S.own τ ∧ Safe X Q p τ ((τ.writes, τ.held) :: fs)
  | .rollback p, σ, fs => ∀ τ, S.Env σ τ → S.Inv τ →
      S.own τ ∧ ∃ fr rest, fs = fr :: rest ∧ Safe X Q p (τ.restore fr) rest
  | .release p, σ, fs => ∀ τ, S.Env σ τ → S.Inv τ →
      S.own τ ∧ ∃ fr rest, fs = fr :: rest ∧ Safe X Q p τ rest

variable {S}
variable {α β : Type} {X X' : E → Local V L E C R → Prop}
variable {Q Q' : α → Local V L E C R → List (Log V × List L) → Prop} {p : Prog V L E I A α}
  {f : β → Prog V L E I A α}

lemma Safe.env (h : S.Safe X Q p σ fs) (he : S.Env σ τ) : S.Safe X Q p τ fs := by
  cases p <;> exact fun τ' he' => h τ' (he.trans he')

/-- It is enough to be safe in the states the others can lead to. -/
lemma Safe.of_env (h : ∀ τ, S.Env σ τ → S.Inv τ → S.Safe X Q p τ fs) : S.Safe X Q p σ fs := by
  cases p <;> exact fun τ he hi => h τ he hi τ .refl hi

lemma Safe.own (h : S.Safe X Q p σ fs) (hi : S.Inv σ) : S.own σ := by
  cases p <;> exact (h σ .refl hi).1

/-- The second program takes over where the first one returns. -/
lemma Safe.then {Q : β → Local V L E C R → List (Log V × List L) → Prop} {p : Prog V L E I A β}
    (hX : ∀ e σ, S.Inv σ → X e σ → X' e σ)
    (hf : ∀ b σ fs, S.Safe X Q (.ret b) σ fs → S.Safe X' Q' (f b) σ fs) (h : S.Safe X Q p σ fs) :
    S.Safe X' Q' (p.bind f) σ fs := by
  induction p generalizing σ fs with
  | ret b => exact hf b σ fs h
  | raise e => exact fun τ he hi => ⟨(h τ he hi).1, hX _ _ hi (h τ he hi).2⟩
  | acquire l p ih => exact fun τ he hi => ⟨(h τ he hi).1, ih (h τ he hi).2⟩
  | look p ih => exact fun τ he hi => ⟨(h τ he hi).1, ih _ (h τ he hi).2⟩
  | put ws p ih => exact fun τ he hi => ⟨(h τ he hi).1, ih (h τ he hi).2⟩
  | ask u p ih => exact fun τ he hi => ⟨(h τ he hi).1, fun x a => ih x a ((h τ he hi).2 x a)⟩
  | save p ih => exact fun τ he hi => ⟨(h τ he hi).1, ih (h τ he hi).2⟩
  | rollback p ih | release p ih =>
    intro τ he hi
    obtain ⟨ho, fr, rest, rfl, hp⟩ := h τ he hi
    exact ⟨ho, fr, rest, rfl, ih hp⟩

/-- What a program ends with may be weakened, given the invariant there. -/
lemma Safe.mono (hQ : ∀ a σ fs, S.Inv σ → Q a σ fs → Q' a σ fs)
    (hX : ∀ e σ, S.Inv σ → X e σ → X' e σ) (h : S.Safe X Q p σ fs) : S.Safe X' Q' p σ fs :=
  p.bind_ret ▸ h.then hX fun _ _ _ hb τ he hi => ⟨(hb τ he hi).1, hQ _ _ _ hi (hb τ he hi).2⟩

lemma Safe.imp (hQ : ∀ a σ fs, Q a σ fs → Q' a σ fs) (h : S.Safe X Q p σ fs) : S.Safe X Q' p σ fs :=
  h.mono (fun a τ fs' _ => hQ a τ fs') fun _ _ _ hx => hx

lemma Safe.bind {p : Prog V L E I A β} (h : S.Safe X (fun b τ fs' => S.Safe X Q (f b) τ fs') p σ fs)
    : S.Safe X Q (p.bind f) σ fs :=
  h.then (fun _ _ _ hx => hx) fun _ _ _ hb => .of_env fun τ he hi => (hb τ he hi).2

end Setting

end ReadCommitted
