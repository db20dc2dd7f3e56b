import Proxiima.Memory.Locking
import Proxiima.Memory.NaturalKeys

/-!
# A memory transaction at work

The assertions a memory transaction is proved with: the command it runs, its writes so far
and its side of the store, and for a keyed request what it saw of the ledger. A transaction
that saw its request row missing may be refused by its own checks afterwards; before that, a
refusal has to say why. The first specifications are those of reading the ledger.
-/

namespace Proxiima.Memory

open ReadCommitted Prog Setting

/-- The transaction of `c` is at work and has written `ws`. -/
structure At (H : Hashes) (c : Command) (ws : Tables) (σ : Side) : Prop where
  cmd : σ.cmd = c
  since : σ.since ≤ σ.hist.length
  writes : σ.writes = ws
  own : Own H σ

/-- The refusal of a keyed request has a reason. -/
def Refused (H : Hashes) (c : Command) (e : StorageError) (σ : Side) : Prop :=
  σ.cmd = c ∧ ∀ r, c.request = some r → Refusal H σ.hist σ.db σ.since c r e

/-- The program of a command ends in the command's effect, or refuses it. -/
abbrev Meets (H : Hashes) (c : Command) (p : Tx Response) : Prop :=
  (setting H).Triple (At H c []) p (fun r σ => Effect H σ.hist (σ.ended (.ok r)) σ.view)
    (Refused H c)

/-- A keyed request saw its request row missing. -/
def Excused (H : Hashes) (c : Command) (σ : Side) : Prop :=
  ∀ r, c.request = some r →
    ∃ n, Saw σ.hist σ.db σ.since n fun v => requestRow H v c.owner r = none

/-- A keyed request saw the ledger rows that answer it. -/
def Answered (H : Hashes) (c : Command) (o : FactIngestOutcome) (σ : Side) : Prop :=
  ∀ r, c.request = some r → o.idempotentReplay = true ∧
    Judged H σ.hist σ.db σ.since c.owner r o true

/-- At work, and free to be refused. -/
def Calm (H : Hashes) (c : Command) (ws : Tables) (σ : Side) : Prop :=
  At H c ws σ ∧ Excused H c σ

variable {H : Hashes} {c : Command} {σ σ' : Side} {ws : Tables}

/-! ### Stability -/

lemma at_stable : (setting H).Stable (At H c ws) where
  own _ hσ := hσ.own
  rely σ σ' hσ hr := by
    refine ⟨hr.start.1.trans hσ.cmd, ?_, hr.keeps.1.trans hσ.writes, hσ.own.rely hr⟩
    rw [hr.start.2, hr.hist_length]
    exact hσ.since.trans (Nat.le_succ _)

lemma at_monotone : Setting.Monotone (At H c ws) :=
  fun _ ls hσ => ⟨hσ.cmd, hσ.since, hσ.writes, hσ.own.acquire ls⟩

/-- With nothing written, the rows seen are the committed ones. -/
lemma At.view_eq (h : At H c [] σ) : σ.view = σ.db := by
  rw [Local.view, h.writes, List.nil_append]

variable {lo n : ℕ} {P : Tables → Prop} {r : RequestKey}

lemma Saw.rely_after (hr : (setting H).Rely σ σ') (h : Saw σ.hist σ.db lo n P) :
    Saw σ'.hist σ'.db lo n P := by
  refine ⟨h.after, ?_, ?_⟩
  · rw [hr.hist_length]
    exact h.ended.trans (Nat.le_succ _)
  · rw [hr.stateAt h.ended]
    exact h.holds

lemma Saw.rely (hr : (setting H).Rely σ σ') (h : Saw σ.hist σ.db σ.since n P) :
    Saw σ'.hist σ'.db σ'.since n P :=
  hr.start.2 ▸ h.rely_after hr

lemma Saw.of_after {lo' : ℕ} (h : Saw σ.hist σ.db lo n P) (hle : lo' ≤ lo) :
    Saw σ.hist σ.db lo' n P :=
  ⟨hle.trans h.after, h.ended, h.holds⟩

lemma Saw.of_eq {v : Tables} (h : Saw σ.hist σ.db lo n (· = v)) (hv : P v) :
    Saw σ.hist σ.db lo n P :=
  ⟨h.after, h.ended, by rwa [h.holds]⟩

/-- The committed state a statement sees. -/
lemma saw_db (hlo : lo ≤ σ.hist.length) (hP : P σ.db) : Saw σ.hist σ.db lo σ.hist.length P := by
  refine ⟨hlo, le_rfl, ?_⟩
  rwa [stateAt_length]

lemma At.saw (h : At H c [] σ) (hP : P σ.view) : Saw σ.hist σ.db σ.since σ.hist.length P :=
  saw_db h.since (h.view_eq ▸ hP)

variable {o : FactIngestOutcome}

lemma Judged.rely {owner : Uuid} {equal : Bool} (hr : (setting H).Rely σ σ')
    (h : Judged H σ.hist σ.db σ.since owner r o equal) :
    Judged H σ'.hist σ'.db σ'.since owner r o equal := by
  obtain ⟨i, j, k, hij, hjk, h1, h2, h3⟩ := h
  exact ⟨i, j, k, hij, hjk, h1.rely hr, h2.rely hr, h3.rely hr⟩

lemma Excused.rely (hr : (setting H).Rely σ σ') (h : Excused H c σ) : Excused H c σ' := by
  intro r hreq
  obtain ⟨n, hn⟩ := h r hreq
  exact ⟨n, hn.rely hr⟩

lemma Answered.rely (hr : (setting H).Rely σ σ') (h : Answered H c o σ) : Answered H c o σ' :=
  fun r hreq => ⟨(h r hreq).1, (h r hreq).2.rely hr⟩

lemma calm_stable : (setting H).Stable (Calm H c ws) :=
  at_stable.and fun _ _ _ h hr => h.rely hr

lemma calm_monotone : Setting.Monotone (Calm H c ws) :=
  fun σ ls hσ => ⟨at_monotone σ ls hσ.1, hσ.2⟩

lemma Calm.refused (h : Calm H c ws σ) {e : StorageError} (he : e.ofAdmission = true) :
    Refused H c e σ := by
  refine ⟨h.1.cmd, fun r hr => ?_⟩
  obtain ⟨n, hn⟩ := h.2 r hr
  exact .unclaimed hn he

/-- A request without a key may be refused for any reason. -/
lemma At.unkeyed (h : At H c ws σ) (hr : c.request = none) (e : StorageError) : Refused H c e σ :=
  ⟨h.cmd, fun r hreq => by simp [hr] at hreq⟩

lemma At.calm (h : At H c ws σ) (hr : c.request = none) : Calm H c ws σ :=
  ⟨h, fun r hreq => by simp [hr] at hreq⟩

/-! ### Values -/

section Values

variable {P : Side → Prop} {X : StorageError → Side → Prop}

lemma liftExcept_spec {α : Type} (x : Except StorageError α) (hP : (setting H).Stable P)
    (hX : ∀ e σ, x = .error e → P σ → X e σ) :
    (setting H).Triple P (liftExcept x) (fun a σ => P σ ∧ x = .ok a) X := by
  cases x with
  | ok a => exact Triple.ret hP fun σ _ hσ => ⟨hσ, rfl⟩
  | error e => exact Triple.fail hP fun σ _ hσ => hX e σ rfl hσ

lemma mintMemoryUuid_spec (storeNumber : ℕ) (floor : Option Uuid) (hP : (setting H).Stable P) :
    (setting H).Triple P (mintMemoryUuid storeNumber floor) (fun o σ => P σ ∧
      ∀ id, o = some id → IsMinted id ∧ ∀ f, floor = some f → IsMinted f → f < id) X := by
  refine Triple.call hP (fun o => hP.pure) fun x g σ _ hσ => ⟨hσ, fun id hid => ?_⟩
  split at hid
  · rename_i id' g' hmint
    obtain rfl := Option.some.inj hid
    refine ⟨mint_isMinted hmint, fun f hf hfm => ?_⟩
    subst hf
    exact mint_above_floor hfm hmint
  · cases hid

lemma newMemoryUuid_spec (storeNumber : ℕ) (hP : (setting H).Stable P)
    (hX : ∀ message σ, P σ → X (.panicked message) σ) :
    (setting H).Triple P (newMemoryUuid storeNumber) (fun id σ => P σ ∧ IsMinted id) X := by
  refine (mintMemoryUuid_spec storeNumber none hP).bind fun o => ?_
  cases o with
  | some id => exact Triple.ret hP.pure fun σ _ hσ => ⟨hσ.1, (hσ.2 id rfl).1⟩
  | none => exact Triple.fail hP.pure fun σ _ hσ => hX _ σ hσ.1

lemma newMemoryUuidAfter_spec (storeNumber : ℕ) (floor : Uuid) (hP : (setting H).Stable P)
    (hX : ∀ message σ, P σ → X (.constraintViolation message) σ) :
    (setting H).Triple P (newMemoryUuidAfter storeNumber floor)
      (fun id σ => P σ ∧ IsMinted id ∧ (IsMinted floor → floor < id)) X := by
  refine (mintMemoryUuid_spec storeNumber (some floor) hP).bind fun o => ?_
  cases o with
  | some id =>
    exact Triple.ret hP.pure fun σ _ hσ =>
      ⟨hσ.1, (hσ.2 id rfl).1, (hσ.2 id rfl).2 floor rfl⟩
  | none => exact Triple.fail hP.pure fun σ _ hσ => hX _ σ hσ.1

/-- A set of advisory locks is taken. -/
lemma lockAdvisoryIds_spec (name : Uuid → LockName) (ids : List Uuid)
    (hP : (setting H).Stable P) (hm : Setting.Monotone P) :
    (setting H).Triple P (lockAdvisoryIds H name ids)
      (fun _ σ => P σ ∧ ∀ id ∈ ids, H.exclusive (name id) ∈ σ.held) X := by
  -- before the part `xs` of the loop, every id not in `xs` is locked
  have hstable : ∀ xs : List Uuid, (setting H).Stable fun σ =>
      P σ ∧ ∀ id ∈ ids, id ∈ xs ∨ H.exclusive (name id) ∈ σ.held := fun xs =>
    hP.and fun σ σ' _ h hr => hr.keeps.2 ▸ h
  refine ((Triple.forM (P := fun xs σ => P σ ∧
    ∀ id ∈ ids, id ∈ xs ∨ H.exclusive (name id) ∈ σ.held) (hstable []) (fun x xs => ?_)
    (ids.dedup.insertionSort (· ≤ ·))).pre fun σ hσ => ⟨hσ, fun id hid => .inl ?_⟩).post
      fun _ σ hσ => ⟨hσ.1, fun id hid => by simpa using hσ.2 id hid⟩
  · refine Triple.lock (hstable _) (hstable _) fun σ _ hσ =>
      ⟨hm σ _ hσ.1, fun id hid => ?_⟩
    rcases hσ.2 id hid with hmem | hheld
    · rcases List.mem_cons.1 hmem with rfl | hmem
      · exact .inr List.mem_cons_self
      · exact .inl hmem
    · exact .inr (List.mem_cons_of_mem _ hheld)
  · simpa using hid

lemma lockAdvisoryIds_keeps (name : Uuid → LockName) (ids : List Uuid)
    (hP : (setting H).Stable P) (hm : Setting.Monotone P) :
    (setting H).Triple P (lockAdvisoryIds H name ids) (fun _ => P) X :=
  (lockAdvisoryIds_spec name ids hP hm).post fun _ _ hσ => hσ.1

/-- The first of them is held from then on. -/
lemma lockAdvisoryIds_first (name : Uuid → LockName) (id : Uuid) (ids : List Uuid)
    (hP : (setting H).Stable P) (hm : Setting.Monotone P) :
    (setting H).Triple P (lockAdvisoryIds H name (id :: ids))
      (fun _ σ => P σ ∧ H.exclusive (name id) ∈ σ.held) X :=
  (lockAdvisoryIds_spec name _ hP hm).post fun _ _ hσ => ⟨hσ.1, hσ.2 _ List.mem_cons_self⟩

end Values

/-! ### The request ledger -/

/-- What a verdict of the ledger says. -/
def Verdict (H : Hashes) (c : Command) : KeyVerdict → Side → Prop
  | .fresh => Excused H c
  | .replay o => Answered H c o

lemma Verdict.rely {v : KeyVerdict} (hr : (setting H).Rely σ σ') (h : Verdict H c v σ) :
    Verdict H c v σ' := by
  cases v with
  | fresh => exact Excused.rely hr h
  | replay o => exact Answered.rely hr h

/-- The views were read one after another, the last one no later than at `hi`. -/
def Looked (lo : ℕ) (σ : Side) : List Tables → ℕ → Prop
  | [], _ => True
  | v :: vs, hi => ∃ i ≤ hi, Saw σ.hist σ.db lo i (· = v) ∧ Looked lo σ vs i

lemma Looked.rely {vs : List Tables} {hi hi' : ℕ} (h : Looked lo σ vs hi)
    (hr : (setting H).Rely σ σ') (hle : hi ≤ hi') : Looked lo σ' vs hi' := by
  induction vs generalizing hi hi' with
  | nil => trivial
  | cons v vs ih =>
    obtain ⟨i, hi, hsaw, h⟩ := h
    exact ⟨i, hi.trans hle, hsaw.rely_after hr, ih h le_rfl⟩

section Judge

variable {P : Side → Prop} (hP : (setting H).Stable P) (hat : ∀ σ, P σ → At H c [] σ)

include hP hat

omit hat in
lemma stable_looked (vs : List Tables) :
    (setting H).Stable fun σ => P σ ∧ Looked lo σ vs σ.hist.length :=
  hP.and fun _ _ _ h hr => h.rely hr (by rw [hr.hist_length]; exact Nat.le_succ _)

variable (hlo : ∀ σ, P σ → σ.since ≤ lo ∧ lo ≤ σ.hist.length)
include hlo

lemma view_looked {X : StorageError → Side → Prop} (vs : List Tables) :
    (setting H).Triple (fun σ => P σ ∧ Looked lo σ vs σ.hist.length) Prog.view
      (fun v σ => P σ ∧ Looked lo σ (v :: vs) σ.hist.length) X :=
  Triple.view (stable_looked hP vs) (fun v => stable_looked hP (v :: vs)) fun σ _ ⟨hσ, h⟩ =>
    ⟨hσ, _, le_rfl, saw_db (hlo σ hσ).2 (hat σ hσ).view_eq.symm, h⟩

/-- The ledger is read no earlier than at `lo`. -/
theorem judgeRequest_after (hreq : c.request = some r) :
    (setting H).Triple P (judgeRequest H c.owner r) (fun v σ => (P σ ∧ Verdict H c v σ) ∧
      (v = .fresh → ∃ n, Saw σ.hist σ.db lo n fun v => requestRow H v c.owner r = none))
      (Refused H c) := by
  have honly : ∀ r', c.request = some r' → r' = r := fun r' hr' =>
    Option.mem_unique hr' hreq
  refine ((view_looked hP hat hlo []).pre fun σ hσ => ⟨hσ, trivial⟩).bind fun v => ?_
  cases hrow : keyOf v c.owner (.ledger r.scope) (r.requestRowKey H.blake3) with
  | none =>
    refine Triple.ret (stable_looked hP [v]) fun σ _ hσ => ?_
    obtain ⟨hσ, i, -, hi, -⟩ := hσ
    refine ⟨⟨hσ, fun r' hr' => ?_⟩, fun _ => ⟨i, hi.of_eq hrow⟩⟩
    obtain rfl := honly r' hr'
    exact ⟨i, (hi.of_eq hrow).of_after (hlo σ hσ).1⟩
  | some t =>
    -- the version the request row names
    refine (view_looked hP hat hlo [v]).bind fun w => ?_
    cases hm : ownedMemory w c.owner t with
    | none =>
      refine Triple.fail (stable_looked hP [w, v]) fun σ _ hσ =>
        ⟨(hat σ hσ.1).cmd, fun r' hr' => ?_⟩
      obtain ⟨hσ, j, -, hj, i, hij, hi, -⟩ := hσ
      obtain rfl := honly r' hr'
      have hle := (hlo σ hσ).1
      exact .dangling hij ((hi.of_eq hrow).of_after hle) ((hj.of_eq hm).of_after hle)
    | some m =>
      refine (view_looked hP hat hlo [w, v]).bind fun u => ?_
      have hjudged : ∀ σ : Side, (P σ ∧ Looked lo σ [u, w, v] σ.hist.length) →
          Judged H σ.hist σ.db σ.since c.owner r ⟨t, m.handle, true, m.forgotten⟩
            (decide (keyOf u c.owner (.ledger r.scope)
              (r.fingerprintRowKey H.blake3) = some t)) := by
        rintro σ ⟨hσ, k, -, hk, j, hjk, hj, i, hij, hi, -⟩
        have hle := (hlo σ hσ).1
        exact ⟨i, j, k, hij, hjk, (hi.of_eq hrow).of_after hle,
          (hj.of_eq ⟨m, hm, rfl, rfl⟩).of_after hle, (hk.of_after hle).of_eq rfl⟩
      generalize hb : decide (keyOf u c.owner (.ledger r.scope) (r.fingerprintRowKey H.blake3) =
        some t) = b at hjudged ⊢
      cases b with
      | true =>
        refine Triple.ret (stable_looked hP [u, w, v]) fun σ _ hσ =>
          ⟨⟨hσ.1, fun r' hr' => ⟨rfl, ?_⟩⟩, fun h => by cases h⟩
        obtain rfl := honly r' hr'
        exact hjudged σ hσ
      | false =>
        refine Triple.fail (stable_looked hP [u, w, v]) fun σ _ hσ =>
          ⟨(hat σ hσ.1).cmd, fun r' hr' => ?_⟩
        obtain rfl := honly r' hr'
        exact .conflict (hjudged σ hσ)

omit hlo in
theorem judgeRequest_spec (hreq : c.request = some r) :
    (setting H).Triple P (judgeRequest H c.owner r) (fun v σ => P σ ∧ Verdict H c v σ)
      (Refused H c) := by
  refine Triple.fix (fun σ => σ.since) fun lo => ?_
  have hP1 : (setting H).Stable fun σ => P σ ∧ σ.since = lo :=
    hP.and fun σ σ' _ h hr => hr.start.2.trans h
  have hlo : ∀ σ : Side, (P σ ∧ σ.since = lo) → σ.since ≤ lo ∧ lo ≤ σ.hist.length :=
    fun σ hσ => ⟨hσ.2.le, hσ.2 ▸ (hat σ hσ.1).since⟩
  exact (judgeRequest_after hP1 (fun σ hσ => hat σ hσ.1) hlo hreq).post
    fun v σ hσ => ⟨hσ.1.1.1, hσ.1.2⟩

end Judge

end Proxiima.Memory
