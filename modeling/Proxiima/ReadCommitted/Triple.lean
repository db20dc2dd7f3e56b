import Proxiima.ReadCommitted.Logic

/-!
# Triples

`S.Triple P p Q X` says that from a state with `P` the program `p` returns only with `Q` and
fails only with `X`. Its assertions speak of one transaction's side of the machine; the
rules ask of each that it is stable, so that a proof follows the program from operation to
operation and never mentions the other transactions. Open savepoints belong to whoever
opened them: a program leaves them as it found them, so a rollback returns to the assertion
that held when the savepoint was set.
-/

namespace ReadCommitted

variable {K : Type} {V : K → Type} {L E I A C R : Type}

namespace Setting

variable (S : Setting V L E I A C R)

/-- From `σ` to `τ`, in one transaction, the committed part moved by the others only, and
locks were only added. -/
structure Evolves (σ τ : Local V L E C R) : Prop where
  env : S.Env σ (σ.advance τ)
  held : σ.held ⊆ τ.held
  cmd : τ.cmd = σ.cmd
  since : τ.since = σ.since

def Triple {α : Type} (P : Local V L E C R → Prop) (p : Prog V L E I A α)
    (Q : α → Local V L E C R → Prop) (X : E → Local V L E C R → Prop) : Prop :=
  ∀ σ fs, P σ → S.Safe X (fun a τ fs' => Q a τ ∧ fs' = fs ∧ S.Evolves σ τ) p σ fs

/-- An assertion that more locks do not break. -/
def Monotone (P : Local V L E C R → Prop) : Prop := ∀ σ ls, P σ → P (σ.acquire ls)

variable {S}
variable {σ τ υ : Local V L E C R}

lemma Evolves.of_env (h : S.Env σ τ) : S.Evolves σ τ := by
  have heq := Env.eq_advance h
  refine ⟨heq ▸ h, (Env.keeps h).2 ▸ List.Subset.refl _, ?_, ?_⟩ <;> rw [heq] <;> rfl

lemma Evolves.trans (h : S.Evolves σ τ) (h' : S.Evolves τ υ) : S.Evolves σ υ :=
  ⟨h.env.trans (h'.env.mono h.held), List.Subset.trans h.held h'.held, h'.cmd.trans h.cmd,
    h'.since.trans h.since⟩

lemma Evolves.acquire (σ : Local V L E C R) (ls : List L) : S.Evolves σ (σ.acquire ls) :=
  ⟨.refl, List.subset_append_right _ _, rfl, rfl⟩

lemma Evolves.put (σ : Local V L E C R) (ws : Log V) : S.Evolves σ (σ.put ws) :=
  ⟨.refl, List.Subset.refl _, rfl, rfl⟩

/-- A rollback to where `σ` was leaves only what the others committed. -/
lemma Evolves.restore (h : S.Evolves σ τ) : τ.restore (σ.writes, σ.held) = σ.advance τ := by
  obtain ⟨-, -, hcmd, hsince⟩ := h
  simp only [Local.restore, Local.advance, hcmd, hsince]

variable {α β : Type} {P P' : Local V L E C R → Prop} {Q Q' : α → Local V L E C R → Prop}
variable {X X' : E → Local V L E C R → Prop}

/-! ### Stable assertions -/

lemma Stable.and (h : S.Stable P)
    (h' : ∀ σ σ', P σ → P' σ → S.Rely σ σ' → P' σ') : S.Stable fun σ => P σ ∧ P' σ where
  own σ hσ := h.own σ hσ.1
  rely σ σ' hσ hr := ⟨h.rely σ σ' hσ.1 hr, h' σ σ' hσ.1 hσ.2 hr⟩

variable {φ : Prop} {ι : Type} {l : L} {p : Prog V L E I A α}

/-- Facts about values alone are stable. -/
lemma Stable.pure (h : S.Stable P) : S.Stable fun σ => P σ ∧ φ :=
  h.and fun _ _ _ hφ _ => hφ

lemma Stable.held (h : S.Stable P) (l : L) : S.Stable fun σ => P σ ∧ l ∈ σ.held :=
  h.and fun _ _ _ hl hr => hr.keeps.2 ▸ hl

lemma Monotone.held (h : Monotone P) (l : L) : Monotone fun σ => P σ ∧ l ∈ σ.held :=
  fun σ ls hσ => ⟨h σ ls hσ.1, List.mem_append_right _ hσ.2⟩

lemma Stable.exists {P : ι → Local V L E C R → Prop} (h : ∀ i, S.Stable (P i)) :
    S.Stable fun σ => ∃ i, P i σ where
  own σ := fun ⟨i, hσ⟩ => (h i).own σ hσ
  rely σ σ' := fun ⟨i, hσ⟩ hr => ⟨i, (h i).rely σ σ' hσ hr⟩

/-! ### Rules for each operation -/

section

variable (hP : S.Stable P)
include hP

theorem Triple.ret {a : α} (h : ∀ σ, S.Inv σ → P σ → Q a σ) : S.Triple P (pure a) Q X := by
  intro σ fs hσ τ he hi
  have hτ := hP.env hσ he
  exact ⟨hP.own _ hτ, h τ hi hτ, rfl, .of_env he⟩

theorem Triple.fail {e : E} (h : ∀ σ, S.Inv σ → P σ → X e σ) :
    S.Triple P (Prog.fail e : Prog V L E I A α) Q X := by
  intro σ fs hσ τ he hi
  have hτ := hP.env hσ he
  exact ⟨hP.own _ hτ, h τ hi hτ⟩

theorem Triple.failIf {c : Prop} [Decidable c] {e : E} (h : ∀ σ, S.Inv σ → P σ → c → X e σ) :
    S.Triple P (Prog.failIf c e) (fun _ σ => P σ ∧ ¬ c) X := by
  unfold Prog.failIf
  split
  · rename_i hc
    exact Triple.fail hP fun σ hi hσ => h σ hi hσ hc
  · rename_i hc
    exact Triple.ret hP fun σ _ hσ => ⟨hσ, hc⟩

theorem Triple.lock {Q : Unit → Local V L E C R → Prop} (hQ : S.Stable (Q ()))
    (h : ∀ σ, S.Inv σ → P σ → Q () (σ.acquire [l])) : S.Triple P (Prog.lock l) Q X := by
  intro σ fs hσ τ he hi
  have hτ := hP.env hσ he
  refine ⟨hP.own _ hτ, fun υ he' hi' => ?_⟩
  have hυ := hQ.env (h τ hi hτ) he'
  exact ⟨hQ.own _ hυ, hυ, rfl, ((Evolves.of_env he).trans (.acquire τ _)).trans (.of_env he')⟩

theorem Triple.lock_held (hm : Monotone P) :
    S.Triple P (Prog.lock l) (fun _ σ => P σ ∧ l ∈ σ.held) X :=
  Triple.lock hP (hP.held l) fun σ _ hσ => ⟨hm σ _ hσ, List.mem_cons_self⟩

theorem Triple.lock_keeps (hm : Monotone P) : S.Triple P (Prog.lock l) (fun _ => P) X :=
  Triple.lock hP hP fun σ _ hσ => hm σ _ hσ

theorem Triple.view {Q : Log V → Local V L E C R → Prop} (hQ : ∀ v, S.Stable (Q v))
    (h : ∀ σ, S.Inv σ → P σ → Q σ.view σ) : S.Triple P Prog.view Q X := by
  intro σ fs hσ τ he hi
  have hτ := hP.env hσ he
  refine ⟨hP.own _ hτ, fun υ he' hi' => ?_⟩
  have hυ := (hQ _).env (h τ hi hτ) he'
  exact ⟨(hQ _).own _ hυ, hυ, rfl, (Evolves.of_env he).trans (.of_env he')⟩

theorem Triple.look : S.Triple P Prog.view (fun _ => P) X :=
  Triple.view hP (fun _ => hP) fun _ _ hσ => hσ

theorem Triple.write {ws : Log V} {Q : Unit → Local V L E C R → Prop} (hQ : S.Stable (Q ()))
    (h : ∀ σ, S.Inv σ → P σ → Q () ((σ.acquire (ws.keys.map S.rowLock)).put ws)) :
    S.Triple P (Prog.write ws) Q X := by
  intro σ fs hσ τ he hi
  have hτ := hP.env hσ he
  refine ⟨hP.own _ hτ, fun υ he' hi' => ?_⟩
  have hυ := hQ.env (h τ hi hτ) he'
  refine ⟨hQ.own _ hυ, hυ, rfl, ?_⟩
  exact (((Evolves.of_env he).trans (.acquire τ _)).trans (.put _ ws)).trans (.of_env he')

theorem Triple.call {f : I → A → α × A} (hQ : ∀ b, S.Stable (Q b))
    (h : ∀ x a σ, S.Inv σ → P σ → Q (f x a).1 σ) : S.Triple P (Prog.call f) Q X := by
  intro σ fs hσ τ he hi
  have hτ := hP.env hσ he
  refine ⟨hP.own _ hτ, fun x a υ he' hi' => ?_⟩
  have hυ := (hQ _).env (h x a τ hi hτ) he'
  exact ⟨(hQ _).own _ hυ, hυ, rfl, (Evolves.of_env he).trans (.of_env he')⟩

end

/-! ### Rules for putting programs together -/

theorem Triple.bind {p : Prog V L E I A β} {f : β → Prog V L E I A α}
    {M : β → Local V L E C R → Prop} (hp : S.Triple P p M X)
    (hf : ∀ b, S.Triple (M b) (f b) Q X) : S.Triple P (p >>= f) Q X := by
  intro σ fs hσ
  refine Safe.bind ((hp σ fs hσ).imp ?_)
  rintro b τ fs' ⟨hM, rfl, hev⟩
  refine (hf b τ fs' hM).imp ?_
  rintro a υ fs' ⟨hQ, rfl, hev'⟩
  exact ⟨hQ, rfl, hev.trans hev'⟩

theorem Triple.conseq (h : S.Triple P' p Q' X) (hP : ∀ σ, P σ → P' σ) (hQ : ∀ a σ, Q' a σ → Q a σ) :
    S.Triple P p Q X :=
  fun σ fs hσ => (h σ fs (hP σ hσ)).imp fun a τ _ ⟨hq, he⟩ => ⟨hQ a τ hq, he⟩

theorem Triple.pre (h : S.Triple P' p Q X) (hP : ∀ σ, P σ → P' σ) : S.Triple P p Q X :=
  h.conseq hP fun _ _ hq => hq

theorem Triple.post (h : S.Triple P p Q' X) (hQ : ∀ a σ, Q' a σ → Q a σ) : S.Triple P p Q X :=
  h.conseq (fun _ h => h) hQ

/-- What a program ends with, seen together with the invariant. -/
theorem Triple.mono (h : S.Triple P p Q X) (hQ : ∀ a σ, S.Inv σ → Q a σ → Q' a σ)
    (hX : ∀ e σ, S.Inv σ → X e σ → X' e σ) : S.Triple P p Q' X' :=
  fun σ fs hσ => (h σ fs hσ).mono (fun a τ _ hi ⟨hq, he⟩ => ⟨hQ a τ hi hq, he⟩) hX

/-- What the others and more locks cannot break is there after any program. -/
theorem Triple.keeps {F : Local V L E C R → Prop} (h : S.Triple P p Q X)
    (hF : ∀ σ τ, F σ → S.Evolves σ τ → F τ) :
    S.Triple (fun σ => P σ ∧ F σ) p (fun a σ => Q a σ ∧ F σ) X :=
  fun σ fs ⟨hσ, hf⟩ => (h σ fs hσ).imp fun _ τ _ ⟨hq, hfs, hev⟩ => ⟨⟨hq, hF σ τ hf hev⟩, hfs, hev⟩

/-- A fact that does not depend on the state moves out of the precondition. -/
theorem Triple.of_pure (hφ : ∀ σ, P σ → φ) (h : φ → S.Triple P p Q X) : S.Triple P p Q X :=
  fun σ fs hσ => h (hφ σ hσ) σ fs hσ

/-- What something is before the program runs may be given a name. -/
theorem Triple.fix (f : Local V L E C R → ι) (h : ∀ i, S.Triple (fun σ => P σ ∧ f σ = i) p Q X) :
    S.Triple P p Q X :=
  fun σ fs hσ => h (f σ) σ fs ⟨hσ, rfl⟩

theorem Triple.of_exists {P : ι → Local V L E C R → Prop} (h : ∀ i, S.Triple (P i) p Q X) :
    S.Triple (fun σ => ∃ i, P i σ) p Q X :=
  fun σ fs ⟨i, hσ⟩ => h i σ fs hσ

/-- A loop over a list: `P xs` holds before the part `xs` of it. -/
theorem Triple.forM {body : β → Prog V L E I A PUnit} {P : List β → Local V L E C R → Prop}
    (hP : S.Stable (P [])) (h : ∀ x xs, S.Triple (P (x :: xs)) (body x) (fun _ => P xs) X)
    (xs : List β) : S.Triple (P xs) (xs.forM body) (fun _ => P []) X := by
  induction xs with
  | nil => exact Triple.ret hP fun _ _ hσ => hσ
  | cons x xs ih => exact (h x xs).bind fun _ => ih

/-- A program that writes nothing keeps what locks and the others cannot break. -/
theorem Triple.passive (hp : p.Passive) (hP : S.Stable P) (hm : Monotone P)
    (hX : ∀ e σ, S.Inv σ → P σ → X e σ) : S.Triple P p (fun _ => P) X := by
  induction hp with
  | ret a => exact Triple.ret hP fun _ _ hσ => hσ
  | raise e => exact Triple.fail hP (hX e)
  | acquire _ ih =>
    exact (Triple.lock_keeps hP hm).bind fun _ => ih
  | look _ ih =>
    exact (Triple.look hP).bind ih
  | @ask u p _ ih =>
    intro σ fs hσ τ he hi
    have hτ := hP.env hσ he
    refine ⟨hP.own _ hτ, fun x a => (ih x a τ fs hτ).imp ?_⟩
    rintro b υ fs' ⟨hυ, rfl, hev⟩
    exact ⟨hυ, rfl, (Evolves.of_env he).trans hev⟩

section

variable {M : Option α → Local V L E C R → Prop} {body : Prog V L E I A (Option α)}
  (hP : S.Stable P) (hM : ∀ r, S.Stable (M r)) (hbody : S.Triple P body M X)
  (hok : ∀ a σ, M (some a) σ → Q a σ)
include hP hM hbody hok

variable {retry : Prog V L E I A α}

/-- A savepoint: when `body` is rolled back, `retry` starts with the writes and locks `body`
started with, and with what `body` found out about the committed part. -/
theorem Triple.attempt_back {B : Local V L E C R → Prop}
    (hback : ∀ σ τ : Local V L E C R, P (σ.advance τ) → M none τ → τ.cmd = σ.cmd →
      τ.since = σ.since → B (σ.advance τ)) (hretry : S.Triple B retry Q X) :
    S.Triple P (Prog.attempt body retry) Q X := by
  intro σ fs hσ τ he hi
  have hτ := hP.env hσ he
  refine ⟨hP.own _ hτ, Safe.bind ((hbody τ _ hτ).imp ?_)⟩
  rintro (_ | a) υ fs' ⟨hm, rfl, hev⟩
  · -- rolled back: the committed part has moved on as the savepoint's state allows
    intro υ' he' _
    have hm' := (hM _).env hm he'
    refine ⟨(hM _).own _ hm', _, _, rfl, ?_⟩
    have hev' := hev.trans (.of_env he')
    rw [hev'.restore]
    have hback' := hback τ υ' (hP.env hτ hev'.env) hm' hev'.cmd hev'.since
    refine (hretry _ fs hback').imp ?_
    rintro a ω fs' ⟨hq, rfl, hev''⟩
    exact ⟨hq, rfl, (Evolves.of_env he).trans ((Evolves.of_env hev'.env).trans hev'')⟩
  · intro υ' he' hi'
    have hm' := (hM _).env hm he'
    refine ⟨(hM _).own _ hm', _, _, rfl, fun ω he'' hi'' => ?_⟩
    have hm'' := (hM _).env hm' he''
    refine ⟨(hM _).own _ hm'', hok a _ hm'', rfl, ?_⟩
    exact (((Evolves.of_env he).trans hev).trans (.of_env he')).trans (.of_env he'')

/-- A savepoint where, of what `body` found before it was rolled back, only facts about
values are used. -/
theorem Triple.attempt (hφ : ∀ σ, M none σ → φ) (hretry : φ → S.Triple P retry Q X) :
    S.Triple P (Prog.attempt body retry) Q X :=
  Triple.attempt_back (B := fun σ => P σ ∧ φ) hP hM hbody hok
    (fun _ τ hP hm _ _ => ⟨hP, hφ τ hm⟩)
    (Triple.of_pure (fun _ h => h.2) fun h => (hretry h).pre fun _ h => h.1)

end

end Setting

end ReadCommitted
