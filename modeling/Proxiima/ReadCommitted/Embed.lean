import Proxiima.ReadCommitted.Triple

/-!
# Verified programs inside a larger system

A system may grow by commands, answers and errors of its own while its transactions go on
using programs that were verified before. Where the larger system has the same locks and
rows, its transactions have the old side and its invariant implies the old one, every triple
of the smaller system holds in the larger one. The rows such a program can write are carried
along, so that a caller knows what it left alone.
-/

namespace ReadCommitted

variable {K : Type} {V : K → Type} {L E E' I A C C' R R' α β : Type} {n : ℕ}

namespace Prog

/-- The same program with its errors renamed. -/
def mapError (f : E → E') : Prog V L E I A α → Prog V L E' I A α
  | .ret a => .ret a
  | .raise e => .raise (f e)
  | .acquire l p => .acquire l (p.mapError f)
  | .look p => .look fun v => (p v).mapError f
  | .put ws p => .put ws (p.mapError f)
  | .ask u p => .ask u fun x a => (p x a).mapError f
  | .save p => .save (p.mapError f)
  | .rollback p => .rollback (p.mapError f)
  | .release p => .release (p.mapError f)

/-- The program writes rows of `W` only and, entered with `n` savepoints of its own open,
returns with `m`. -/
inductive Nested (W : K → Prop) : ℕ → ℕ → Prog V L E I A α → Prop where
  | ret {n : ℕ} (a : α) : Nested W n n (.ret a)
  | raise {n m : ℕ} (e : E) : Nested W n m (.raise e)
  | acquire {n m : ℕ} {l : L} {p : Prog V L E I A α} (h : Nested W n m p) :
      Nested W n m (.acquire l p)
  | look {n m : ℕ} {p : Log V → Prog V L E I A α} (h : ∀ v, Nested W n m (p v)) :
      Nested W n m (.look p)
  | put {n m : ℕ} {ws : Log V} {p : Prog V L E I A α} (hw : ∀ k ∈ ws.keys, W k)
      (h : Nested W n m p) : Nested W n m (.put ws p)
  | ask {n m : ℕ} {u : I → A → A} {p : I → A → Prog V L E I A α}
      (h : ∀ x a, Nested W n m (p x a)) : Nested W n m (.ask u p)
  | save {n m : ℕ} {p : Prog V L E I A α} (h : Nested W (n + 1) m p) : Nested W n m (.save p)
  | rollback {n m : ℕ} {p : Prog V L E I A α} (h : Nested W n m p) :
      Nested W (n + 1) m (.rollback p)
  | release {n m : ℕ} {p : Prog V L E I A α} (h : Nested W n m p) : Nested W (n + 1) m (.release p)

/-- The program writes rows of `W` only and closes the savepoints it sets. -/
abbrev Within (W : K → Prop) (p : Prog V L E I A α) : Prop := p.Nested W 0 0

variable {W : K → Prop} {p : Prog V L E I A α}

lemma Passive.within (h : p.Passive) : p.Within W := by
  induction h with
  | ret a => exact .ret a
  | raise e => exact .raise e
  | acquire _ ih => exact .acquire ih
  | look _ ih => exact .look ih
  | ask _ ih => exact .ask ih

variable {f : α → Prog V L E I A β}

lemma Nested.bind {m l : ℕ} (h : p.Nested W n m) (hf : ∀ a, (f a).Nested W m l) :
    (p >>= f).Nested W n l := by
  induction h with
  | ret a => exact hf a
  | raise e => exact .raise e
  | acquire _ ih => exact .acquire (ih hf)
  | look _ ih => exact .look fun v => ih v hf
  | put hw _ ih => exact .put hw (ih hf)
  | ask _ ih => exact .ask fun x a => ih x a hf
  | save _ ih => exact .save (ih hf)
  | rollback _ ih => exact .rollback (ih hf)
  | release _ ih => exact .release (ih hf)

lemma Within.bind (h : p.Within W) (hf : ∀ a, (f a).Within W) : (p >>= f).Within W :=
  Nested.bind h hf

lemma Nested.shift {m : ℕ} (h : p.Nested W n m) : p.Nested W (n + 1) (m + 1) := by
  induction h with
  | ret a => exact .ret a
  | raise e => exact .raise e
  | acquire _ ih => exact .acquire ih
  | look _ ih => exact .look ih
  | put hw _ ih => exact .put hw ih
  | ask _ ih => exact .ask ih
  | save _ ih => exact .save ih
  | rollback _ ih => exact .rollback ih
  | release _ ih => exact .release ih

lemma within_attempt {body : Prog V L E I A (Option α)} {retry : Prog V L E I A α}
    (hbody : body.Within W) (hretry : retry.Within W) : (attempt body retry).Within W := by
  refine .save (hbody.shift.bind fun o => ?_)
  cases o with
  | none => exact .rollback hretry
  | some a => exact .release (.ret a)

lemma within_write {k : K} (o : Option (V k)) (h : W k) :
    (write [⟨k, o⟩] : Prog V L E I A Unit).Within W :=
  .put (by simpa [List.keys] using h) (.ret ())

lemma within_forM {body : β → Prog V L E I A PUnit} {xs : List β}
    (h : ∀ x ∈ xs, (body x).Within W) : (xs.forM body).Within W := by
  induction xs with
  | nil => exact .ret _
  | cons x xs ih =>
    rw [List.forall_mem_cons] at h
    exact h.1.bind fun _ => ih h.2

end Prog

/-- An answer read as one of the smaller system. -/
def Entry.map (cmd : C' → C) (answer : R' → R) (error : E' → E) (e : Entry V E' C' R') :
    Entry V E C R where
  cmd := cmd e.cmd
  since := e.since
  before := e.before
  result := (e.result.mapError error).map answer

namespace Setting

/-- The larger system `S'` has the locks, rows and sides of `S`, and implies its invariant. -/
structure Embedding (S : Setting V L E I A C R) (S' : Setting V L E' I A C' R') where
  cmd : C' → C
  answer : R' → R
  error : E' → E
  conflict : ∀ l l', S'.conflict l l' = S.conflict l l'
  rowLock : ∀ k, S'.rowLock k = S.rowLock k
  own : ∀ σ : Local V L E' C' R', S'.own σ ↔
    S.own ⟨cmd σ.cmd, σ.since, σ.db, σ.hist.map (Entry.map cmd answer error), σ.writes, σ.held⟩
  inv : ∀ db hist, S'.inv db hist → S.inv db (hist.map (Entry.map cmd answer error))

variable {S : Setting V L E I A C R} {S' : Setting V L E' I A C' R'}

namespace Embedding

variable (M : Embedding S S') {σ σ' : Local V L E' C' R'}

/-- A transaction's side read in the smaller system. -/
def side (σ : Local V L E' C' R') : Local V L E C R :=
  ⟨M.cmd σ.cmd, σ.since, σ.db, σ.hist.map (Entry.map M.cmd M.answer M.error), σ.writes, σ.held⟩

lemma rely (h : S'.Rely σ σ') : S.Rely (M.side σ) (M.side σ') := by
  cases h with
  | commit u r hinv hdb hhist hown hrow hcompat hinv' =>
    refine .commit (M.side u) (M.answer r) (M.inv _ _ hinv) hdb ?_ ((M.own u).1 hown)
      (fun k hk => M.rowLock k ▸ hrow k hk) (fun l hl l' hl' => ?_) (M.inv _ _ hinv')
    · exact congrArg (List.map _) hhist
    · rw [← M.conflict]
      exact hcompat l hl l' hl'
  | refuse u e hinv hdb hinv' =>
    exact .refuse (M.side u) (M.error e) (M.inv _ _ hinv) hdb (M.inv _ _ hinv')

lemma env (h : S'.Env σ σ') : S.Env (M.side σ) (M.side σ') := by
  induction h with
  | refl => exact .refl
  | tail _ hr ih => exact ih.tail (M.rely hr)

lemma stable {P : Local V L E C R → Prop} (h : S.Stable P) : S'.Stable fun σ => P (M.side σ) where
  own σ hσ := (M.own σ).2 (h.own _ hσ)
  rely _ _ hσ hr := h.rely _ _ hσ (M.rely hr)

variable {P : Local V L E C R → Prop} {Q : α → Local V L E C R → Prop}
variable {X : E → Local V L E C R → Prop} {X' : E' → Local V L E' C' R' → Prop}
variable {W : K → Prop} {p : Prog V L E I A α}

/-- The induction is over the program. `σ₀` is where it started and `inner` are the savepoints
it has opened since, each with the locks of `σ₀`. -/
lemma safe (hp : p.Nested W n 0) (f : E → E') (hX : ∀ e τ, S'.Inv τ → X' e τ)
    {σ₀ : Local V L E' C' R'} {outer : List (Log V × List L)} (inner : List (Log V × List L))
    (hn : inner.length = n) (hinner : ∀ fr ∈ inner, σ₀.held ⊆ fr.2 ∧ ∀ k ∈ fr.1.keys, W k)
    (hev : S'.Evolves σ₀ σ) (hw : ∀ k ∈ σ.writes.keys, W k)
    (h : S.Safe X (fun a τ _ => Q a τ) p (M.side σ) (inner ++ outer)) :
    S'.Safe X' (fun a τ fs => (Q a (M.side τ) ∧ ∀ k ∈ τ.writes.keys, W k) ∧ fs = outer ∧
      S'.Evolves σ₀ τ) (p.mapError f) σ (inner ++ outer) := by
  have hstep : ∀ {p : Prog V L E I A α} {σ τ : Local V L E' C' R'} {fs : List (Log V × List L)},
      S.Safe X (fun a τ _ => Q a τ) p (M.side σ) fs → (∀ k ∈ σ.writes.keys, W k) →
      S'.Evolves σ₀ σ → S'.Env σ τ → S'.Inv τ →
      S.Env (M.side σ) (M.side τ) ∧ S.Inv (M.side τ) ∧ S'.own τ ∧ S'.Evolves σ₀ τ ∧
        ∀ k ∈ τ.writes.keys, W k := by
    intro p σ τ fs hs hw hev he hi
    have hi' : S.Inv (M.side τ) := M.inv _ _ hi
    refine ⟨M.env he, hi', (M.own τ).2 ((hs.env (M.env he)).own hi'), hev.trans (.of_env he), ?_⟩
    rwa [(Env.keeps he).1]
  generalize hm : 0 = m at hp
  -- every case starts where the others have led and keeps what `hstep` says there
  induction hp generalizing σ inner <;> intro τ he hi <;>
    obtain ⟨he', hi', hown, hev', hw'⟩ := hstep h hw hev he hi
  case ret a =>
    obtain rfl := List.eq_nil_of_length_eq_zero (hn.trans hm.symm)
    exact ⟨hown, ⟨(h _ he' hi').2, hw'⟩, rfl, hev'⟩
  case raise e =>
    exact ⟨hown, hX _ _ hi⟩
  case acquire ih =>
    exact ⟨hown, ih inner hn hinner (hev'.trans (.acquire τ _)) hw' (h _ he' hi').2 hm⟩
  case look ih =>
    exact ⟨hown, ih _ inner hn hinner hev' hw' (h _ he' hi').2 hm⟩
  case put ws p hws _ ih =>
    refine ⟨hown, ih inner hn hinner ((hev'.trans (.acquire τ _)).trans (.put _ ws))
      (fun k hk => ?_) ?_ hm⟩
    · rw [Local.keys_put, List.mem_append] at hk
      exact hk.elim (hws k) (hw' k)
    · have hlocks : ws.keys.map S'.rowLock = ws.keys.map S.rowLock :=
        List.map_congr_left fun k _ => M.rowLock k
      have hsafe := (h _ he' hi').2
      rw [← hlocks] at hsafe
      exact hsafe
  case ask ih =>
    exact ⟨hown, fun x a => ih x a inner hn hinner hev' hw' ((h _ he' hi').2 x a) hm⟩
  case save ih =>
    refine ⟨hown, ih ((τ.writes, τ.held) :: inner) (by simp [hn]) ?_ hev' hw' (h _ he' hi').2 hm⟩
    exact List.forall_mem_cons.2 ⟨⟨hev'.held, hw'⟩, hinner⟩
  case rollback ih =>
    obtain ⟨fr, inner, rfl⟩ := List.exists_cons_of_length_eq_add_one hn
    rw [List.forall_mem_cons] at hinner
    obtain ⟨-, fr', rest, heq, hsafe⟩ := h _ he' hi'
    obtain ⟨rfl, rfl⟩ := List.cons.inj heq
    exact ⟨hown, fr, inner ++ outer, rfl, ih inner (by simpa using hn) hinner.2
      ⟨hev'.env, hinner.1.1, hev'.cmd, hev'.since⟩ hinner.1.2 hsafe hm⟩
  case release ih =>
    obtain ⟨fr, inner, rfl⟩ := List.exists_cons_of_length_eq_add_one hn
    rw [List.forall_mem_cons] at hinner
    obtain ⟨-, fr', rest, heq, hsafe⟩ := h _ he' hi'
    obtain ⟨rfl, rfl⟩ := List.cons.inj heq
    exact ⟨hown, fr, inner ++ outer, rfl, ih inner (by simpa using hn) hinner.2 hev' hw' hsafe hm⟩

/-- **A verified program is verified in the larger system**, with what it can write. -/
theorem triple (hp : p.Within W) (f : E → E') (hX : ∀ e τ, S'.Inv τ → X' e τ)
    (h : S.Triple P p Q X) :
    S'.Triple (fun σ => P (M.side σ) ∧ ∀ k ∈ σ.writes.keys, W k) (p.mapError f)
      (fun a σ => Q a (M.side σ) ∧ ∀ k ∈ σ.writes.keys, W k) X' := by
  rintro σ fs ⟨hσ, hw⟩
  exact M.safe hp f hX [] rfl (by simp) (.of_env .refl) hw ((h _ fs hσ).imp fun _ _ _ hq => hq.1)

end Embedding

end Setting

end ReadCommitted
