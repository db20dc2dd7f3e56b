import Proxiima.Memory.Preparing

/-!
# The materialization of an admission

From a prepared admission to the rows it leaves. Under the lock of the handle the head it was
prepared against is checked once more; the keys it claims are inserted where they are free,
and otherwise the ledger is judged again; then the head and the version are written. At each
point the rows written so far are known, and what they rely on in the committed rows is
under a lock, so the whole is the one step `Admits` describes when the transaction commits.
-/

namespace Proxiima.Memory

open ReadCommitted Prog Setting

variable {H : Hashes} {c : Command} {p : Prepared} {σ σ' τ : Side} {P : Side → Prop}
variable {X : StorageError → Side → Prop} {ws : Tables} {ks : List (SourceId × String)}

/-! ### Under the handle lock -/

/-- The transaction of a prepared admission, with the lock of its handle. -/
structure Holding (H : Hashes) (c : Command) (p : Prepared) (ws : Tables) (σ : Side) : Prop where
  calm : Calm H c ws σ
  ready : Ready H c p σ
  handle : H.exclusive (.memoryHandle p.handle) ∈ σ.held

lemma holding_stable : (setting H).Stable (Holding H c p ws) where
  own _ hσ := hσ.calm.1.own
  rely σ σ' hσ hr :=
    ⟨calm_stable.rely σ σ' hσ.calm hr, hσ.ready.rely hr, hr.keeps.2 ▸ hσ.handle⟩

lemma holding_monotone : Setting.Monotone (Holding H c p ws) := fun σ ls hσ =>
  ⟨calm_monotone σ ls hσ.calm, hσ.ready.mono rfl rfl (List.subset_append_right _ _),
    List.mem_append_right _ hσ.handle⟩

variable {k : Key} {source : SourceId} {key : String} {r : RequestKey} {o : Option (Row k)}

section

variable (h : Holding H c p ws σ)
include h

lemma Holding.written (ho : Own H (written σ k o)) :
    Holding H c p (⟨k, o⟩ :: ws) (written σ k o) where
  calm := ⟨⟨h.calm.1.cmd, h.calm.1.since, by rw [written_writes, h.calm.1.writes], ho⟩, h.calm.2⟩
  ready := h.ready.mono rfl rfl (List.subset_cons_self _ _)
  handle := List.mem_cons_of_mem _ h.handle

lemma Holding.view_eq : σ.view = ws ++ σ.db := by
  rw [Local.view, h.calm.1.writes]

lemma Holding.headOf_rely (hr : (setting H).Rely σ σ') :
    headOf σ'.db p.handle = headOf σ.db p.handle :=
  (sameSeries_of_rely hr h.handle).head

lemma Holding.counterOf_rely (hr : (setting H).Rely σ σ') :
    counterOf σ'.db p.handle = counterOf σ.db p.handle :=
  (sameSeries_of_rely hr h.handle).counter

/-- A row the transaction wrote stays as it is in the committed rows. -/
lemma Holding.get_rely (hr : (setting H).Rely σ σ') (hk : k ∈ ws.keys) : get σ'.db k = get σ.db k :=
  get_db_of_row hr (h.calm.1.own.row k (h.calm.1.writes ▸ hk))

end

theorem lockPreparedMemoryTargets_spec (hP : (setting H).Stable P) (hm : Setting.Monotone P) :
    (setting H).Triple P (lockPreparedMemoryTargets H p)
      (fun _ σ => P σ ∧ H.exclusive (.memoryHandle p.handle) ∈ σ.held) X := by
  have hfence : (setting H).Triple P (lockOwnerFenceShared H p.owner) (fun _ => P) X :=
    Triple.lock_keeps hP hm
  have hsources : (setting H).Triple P
      (p.draft.sourceId.toList.forM fun source => lockSourceFenceShared H p.owner (.named source))
      (fun _ => P) X :=
    Triple.forM (P := fun _ => P) hP (fun source _ => Triple.lock_keeps hP hm) _
  refine hfence.bind fun _ => hsources.bind fun _ => ?_
  refine (lockAdvisoryIds_first .memoryHandle p.handle [] hP hm).bind fun _ => ?_
  exact lockAdvisoryIds_keeps .lifecycle p.targets (hP.held _) (hm.held _)

theorem validatePreparedMemoryHead_spec (hP : (setting H).Stable P) (hm : Setting.Monotone P)
    (hold : ∀ σ, P σ → Holding H c p ws σ)
    (hws : ∀ v, headOf (ws ++ v) p.handle = headOf v p.handle) :
    (setting H).Triple P (validatePreparedMemoryHead p)
      (fun _ σ => P σ ∧ (headOf σ.db p.handle).map (·.t) = p.expectedHeadT) (Refused H c) := by
  -- the head cannot change any more: name it
  refine Triple.fix (fun σ => headOf σ.db p.handle) fun o => ?_
  have hP1 : (setting H).Stable fun σ => P σ ∧ headOf σ.db p.handle = o :=
    hP.and fun σ σ' hσ h hr => ((hold σ hσ).headOf_rely hr).trans h
  have hm1 : Setting.Monotone fun σ : Side => P σ ∧ headOf σ.db p.handle = o :=
    fun σ ls hσ => ⟨hm σ ls hσ.1, hσ.2⟩
  have hview : ∀ σ : Side, (P σ ∧ headOf σ.db p.handle = o) → headOf σ.view p.handle = o := by
    rintro σ ⟨hσ, ho⟩
    rw [(hold σ hσ).view_eq, hws, ho]
  refine (Triple.lockRow_protected hP1 hm1 hview).bind fun o' => ?_
  refine (Triple.failIf hP1.pure fun σ _ hσ _ => (hold σ hσ.1.1).calm.refused rfl).post ?_
  rintro _ σ ⟨⟨⟨hσ, ho⟩, rfl⟩, hmatch⟩
  exact ⟨hσ, by rw [ho]; exact not_not.1 hmatch⟩

/-! ### Claiming keys -/

def Prepared.keyRows (p : Prepared) (ks : List (SourceId × String)) : Tables :=
  ks.map fun k => ⟨.ingestKey p.owner k.1 k.2, some p.t⟩

section KeyRows

variable (p) (ks) (v : Tables)

@[simp] lemma headOf_keyRows : headOf (p.keyRows ks ++ v) = headOf v := by
  induction ks with
  | nil => rfl
  | cons k ks ih => exact (headOf_cons_key ..).trans ih

@[simp] lemma memoryOf_keyRows : memoryOf (p.keyRows ks ++ v) = memoryOf v := by
  induction ks with
  | nil => rfl
  | cons k ks ih => exact (memoryOf_cons_key ..).trans ih

@[simp] lemma counterOf_keyRows : counterOf (p.keyRows ks ++ v) = counterOf v := by
  induction ks with
  | nil => rfl
  | cons k ks ih => exact (counterOf_cons_key ..).trans ih

lemma keyOf_keyRows_of_mem (h : (source, key) ∈ ks) :
    keyOf (p.keyRows ks ++ v) p.owner source key = some p.t := by
  induction ks with
  | nil => cases h
  | cons k ks ih =>
    by_cases hk : k = (source, key)
    · subst hk
      exact get_cons_self _ _ _
    · refine (get_cons_ne _ _ fun heq => hk ?_).trans (ih ((List.mem_cons.1 h).resolve_left
        fun heq => hk heq.symm))
      obtain ⟨-, h1, h2⟩ := Key.ingestKey.inj heq
      exact Prod.ext h1.symm h2.symm

lemma keyOf_keyRows_of_notMem {o : Uuid} (h : o = p.owner → (source, key) ∉ ks) :
    keyOf (p.keyRows ks ++ v) o source key = keyOf v o source key := by
  refine get_append_of_notMem fun hmem => ?_
  obtain ⟨w, hw, heq⟩ := List.mem_map.1 hmem
  obtain ⟨k, hk, rfl⟩ := List.mem_map.1 hw
  obtain ⟨h1, h2, h3⟩ := Key.ingestKey.inj heq
  exact h h1.symm (h2 ▸ h3 ▸ hk)

end KeyRows

/-- The keys `ks` were free, and their rows are the transaction's. -/
structure Taken (p : Prepared) (ks : List (SourceId × String)) (σ : Side) : Prop where
  held : ∀ k ∈ ks, Lock.row (.ingestKey p.owner k.1 k.2) ∈ σ.held
  free : ∀ k ∈ ks, keyOf σ.db p.owner k.1 k.2 = none

lemma taken_nil : Taken p [] σ := ⟨by simp, by simp⟩

lemma Taken.rely (h : Taken p ks σ) (hr : (setting H).Rely σ σ') : Taken p ks σ' where
  held k hk := hr.keeps.2 ▸ h.held k hk
  free k hk := (get_db_of_row hr (h.held k hk)).trans (h.free k hk)

lemma Taken.mono (h : Taken p ks σ) (hdb : τ.db = σ.db) (hheld : σ.held ⊆ τ.held) :
    Taken p ks τ where
  held k hk := hheld (h.held k hk)
  free k hk := hdb ▸ h.free k hk

/-- At work on the claims: the keys `ks` are claimed, and nothing else is written. -/
def Claiming (H : Hashes) (c : Command) (p : Prepared) (ks : List (SourceId × String)) (σ : Side) :
    Prop :=
  Holding H c p (p.keyRows ks) σ ∧ Taken p ks σ

lemma claiming_stable : (setting H).Stable (Claiming H c p ks) :=
  holding_stable.and fun _ _ _ h hr => h.rely hr

lemma claiming_monotone : Setting.Monotone (Claiming H c p ks) := fun σ ls hσ =>
  ⟨holding_monotone σ ls hσ.1, hσ.2.mono rfl (List.subset_append_right _ _)⟩

/-- A key is claimed, or it is there already. -/
lemma insertIngestKey_spec (hnew : (source, key) ∉ ks) {N : Side → Prop} (hN : (setting H).Stable N)
    (hseen : ∀ σ, Claiming H c p ks σ → keyOf σ.db p.owner source key ≠ none → N σ) :
    (setting H).Triple (Claiming H c p ks) (insertIngestKey p.owner source key p.t)
      (fun b σ => if b then Claiming H c p ((source, key) :: ks) σ else N σ) X := by
  have hview : ∀ σ, Claiming H c p ks σ →
      keyOf σ.view p.owner source key = keyOf σ.db p.owner source key := by
    intro σ hσ
    rw [hσ.1.view_eq]
    exact keyOf_keyRows_of_notMem p ks _ fun _ => hnew
  refine Triple.insertRow_seen claiming_stable claiming_monotone
    ((system H).row_conflict _) claiming_stable hN (fun σ _ hσ _ hnone => ?_)
    fun σ τ hσ hτ hdb _ hne => hseen τ hτ ?_
  · have hfree : keyOf σ.db p.owner source key = none := (hview σ hσ).symm.trans hnone
    refine ⟨hσ.1.written (hσ.1.calm.1.own.written_key _ _ _ _), fun k hk => ?_, fun k hk => ?_⟩
    · rcases List.mem_cons.1 hk with rfl | hk
      · exact List.mem_cons_self
      · exact List.mem_cons_of_mem _ (hσ.2.held k hk)
    · rcases List.mem_cons.1 hk with rfl | hk
      · exact hfree
      · exact hσ.2.free k hk
  · rw [← hdb, ← hview σ hσ]
    exact hne

/-- How the ledger stands for a keyed request whose claim came out fresh. -/
inductive Ledger (H : Hashes) (c : Command) (r : RequestKey) (ks : List (SourceId × String))
    (σ : Side) : Prop where
  | claimed (hrow : (.ledger r.scope, r.requestRowKey H.blake3) ∈ ks)
      (hfingerprint : (.ledger r.scope, r.fingerprintRowKey H.blake3) ∈ ks ∨
        ∃ n, Saw σ.hist σ.db σ.since n fun v => fingerprintRow H v c.owner r ≠ none)
  | lost {i j : ℕ} (hij : i ≤ j)
      (hseen : Saw σ.hist σ.db σ.since i fun v => requestRow H v c.owner r ≠ none)
      (hgone : Saw σ.hist σ.db σ.since j fun v => requestRow H v c.owner r = none)

lemma Ledger.rely (hr : (setting H).Rely σ σ') (h : Ledger H c r ks σ) : Ledger H c r ks σ' := by
  cases h with
  | claimed hrow hf => exact .claimed hrow (hf.imp_right fun ⟨n, hn⟩ => ⟨n, hn.rely hr⟩)
  | lost hij h1 h2 => exact .lost hij (h1.rely hr) (h2.rely hr)

lemma Ledger.mono (h : Ledger H c r ks σ) (hdb : τ.db = σ.db) (hhist : τ.hist = σ.hist)
    (hsince : τ.since = σ.since) : Ledger H c r ks τ := by
  cases h with
  | claimed hrow hf => exact .claimed hrow (by rw [hdb, hhist, hsince]; exact hf)
  | lost hij h1 h2 =>
    exact .lost hij (by rw [hdb, hhist, hsince]; exact h1) (by rw [hdb, hhist, hsince]; exact h2)

lemma requestRowKey_ne_fingerprintRowKey (blake3 : List UInt8 → String) (r r' : RequestKey) :
    r.requestRowKey blake3 ≠ r'.fingerprintRowKey blake3 := by
  intro h
  have := congrArg String.toList h
  simp [RequestKey.requestRowKey, RequestKey.fingerprintRowKey] at this

theorem claimRequest_spec (hreq : c.request = some r) (howner : p.owner = c.owner) :
    (setting H).Triple (Claiming H c p []) (claimRequest H p.owner r p.t)
      (fun v σ => match v with
        | .fresh => ∃ ks, (∀ k ∈ ks, k = (.ledger r.scope, r.requestRowKey H.blake3) ∨
            k = (.ledger r.scope, r.fingerprintRowKey H.blake3)) ∧
            Claiming H c p ks σ ∧ Ledger H c r ks σ
        | .replay o => Claiming H c p [] σ ∧ Answered H c o σ) (Refused H c) := by
  have hseen_stable : (setting H).Stable fun σ => Claiming H c p [] σ ∧
      ∃ i, Saw σ.hist σ.db σ.since i fun v => requestRow H v c.owner r ≠ none :=
    claiming_stable.and fun σ σ' _ ⟨i, hi⟩ hr => ⟨i, hi.rely hr⟩
  refine (Triple.lock_keeps claiming_stable claiming_monotone).bind fun _ => ?_
  refine (insertIngestKey_spec (List.not_mem_nil) hseen_stable
    fun σ hσ hne => ⟨hσ, _, saw_db hσ.1.calm.1.since (howner ▸ hne)⟩).bind fun b => ?_
  cases b with
  | true =>
    have hfp_stable : (setting H).Stable fun σ =>
        Claiming H c p [(.ledger r.scope, r.requestRowKey H.blake3)] σ ∧
        ∃ i, Saw σ.hist σ.db σ.since i fun v => fingerprintRow H v c.owner r ≠ none :=
      claiming_stable.and fun σ σ' _ ⟨i, hi⟩ hr => ⟨i, hi.rely hr⟩
    refine (insertIngestKey_spec ?_ hfp_stable
      fun σ hσ hne => ⟨hσ, _, saw_db hσ.1.calm.1.since (howner ▸ hne)⟩).bind fun b => ?_
    · simpa using (requestRowKey_ne_fingerprintRowKey H.blake3 r r).symm
    cases b with
    | true =>
      refine Triple.ret claiming_stable fun σ _ hσ => ⟨_, ?_, hσ, .claimed ?_ (.inl ?_)⟩
      all_goals simp
    | false =>
      refine Triple.ret hfp_stable fun σ _ hσ => ⟨_, ?_, hσ.1, .claimed ?_ (.inr hσ.2)⟩
      all_goals simp
  | false =>
    -- the row found may have gone when the ledger is read again
    refine Triple.fix (fun σ => σ.hist.length) fun lo => ?_
    have hlost : (setting H).Stable fun σ => Claiming H c p [] σ ∧ σ.since ≤ lo ∧
        lo ≤ σ.hist.length ∧ ∃ i, i ≤ lo ∧
          Saw σ.hist σ.db σ.since i fun v => requestRow H v c.owner r ≠ none := by
      refine claiming_stable.and fun σ σ' _ ⟨h1, h2, i, hi, hsaw⟩ hr =>
        ⟨hr.start.2 ▸ h1, ?_, i, hi, hsaw.rely hr⟩
      rw [hr.hist_length]
      exact h2.trans (Nat.le_succ _)
    rw [howner]
    refine ((judgeRequest_after hlost (fun σ hσ => hσ.1.1.calm.1)
      (fun σ hσ => ⟨hσ.2.1, hσ.2.2.1⟩) hreq).pre ?_).post ?_
    · rintro σ ⟨⟨hσ, i, hi⟩, rfl⟩
      exact ⟨hσ, hσ.1.calm.1.since, le_rfl, i, hi.ended, hi⟩
    · rintro v σ ⟨⟨⟨hσ, hle, -, i, hi, hsaw⟩, hv⟩, hfresh⟩
      cases v with
      | replay o => exact ⟨hσ, hv⟩
      | fresh =>
        obtain ⟨n, hn⟩ := hfresh rfl
        exact ⟨[], by simp, hσ, .lost (hi.trans hn.after) hsaw (hn.of_after hle)⟩

/-- An admission past its claim, with the rows `ws` and the keys `ks` written. -/
structure Claimed (H : Hashes) (c : Command) (p : Prepared) (ks : List (SourceId × String))
    (ws : Tables) (σ : Side) : Prop where
  holding : Holding H c p (ws ++ p.keyRows ks) σ
  taken : Taken p ks σ
  claims : ∀ k ∈ ks, k ∈ p.claims H
  ledger : ∀ r, c.request = some r → Ledger H c r ks σ

lemma claimed_stable : (setting H).Stable (Claimed H c p ks ws) where
  own _ hσ := hσ.holding.calm.1.own
  rely σ σ' hσ hr := ⟨holding_stable.rely σ σ' hσ.holding hr, hσ.taken.rely hr, hσ.claims,
    fun r hreq => (hσ.ledger r hreq).rely hr⟩

lemma claimed_monotone : Setting.Monotone (Claimed H c p ks ws) := fun σ ls hσ =>
  ⟨holding_monotone σ ls hσ.holding, hσ.taken.mono rfl (List.subset_append_right _ _), hσ.claims,
    fun r hreq => (hσ.ledger r hreq).mono rfl rfl rfl⟩

lemma Claimed.written (h : Claimed H c p ks ws σ) (ho : Own H (written σ k o)) :
    Claimed H c p ks (⟨k, o⟩ :: ws) (written σ k o) where
  holding := h.holding.written ho
  taken := h.taken.mono rfl (List.subset_cons_self _ _)
  claims := h.claims
  ledger r hreq := (h.ledger r hreq).mono rfl rfl rfl

theorem claimPreparedMemoryAdmission_spec :
    (setting H).Triple (Holding H c p []) (claimPreparedMemoryAdmission H p)
      (fun o σ => match o with
        | none => ∃ ks, Claimed H c p ks [] σ
        | some outcome => Holding H c p [] σ ∧ Answered H c outcome σ) (Refused H c) := by
  -- the request is the command's, and nothing is claimed yet
  refine Triple.of_pure (fun σ hσ => And.intro hσ.ready.request hσ.ready.owner) ?_
  rintro ⟨hrequest, howner⟩
  have hstart : ∀ σ, Holding H c p [] σ → Claiming H c p [] σ := fun σ hσ => ⟨hσ, taken_nil⟩
  unfold claimPreparedMemoryAdmission
  split
  · rename_i r hr
    have hreq : c.request = some r := hrequest.symm.trans hr
    have hclaims : p.claims H = [(.ledger r.scope, r.requestRowKey H.blake3),
        (.ledger r.scope, r.fingerprintRowKey H.blake3)] := by simp [Prepared.claims, hr]
    have hclaimed : ∀ ks, (setting H).Stable fun σ =>
        (∀ k ∈ ks, k = (.ledger r.scope, r.requestRowKey H.blake3) ∨
          k = (.ledger r.scope, r.fingerprintRowKey H.blake3)) ∧
        Claiming H c p ks σ ∧ Ledger H c r ks σ := fun ks =>
      ⟨fun σ hσ => claiming_stable.own σ hσ.2.1, fun σ σ' hσ hrel =>
        ⟨hσ.1, claiming_stable.rely σ σ' hσ.2.1 hrel, hσ.2.2.rely hrel⟩⟩
    refine ((claimRequest_spec hreq howner).pre hstart).bind fun v => ?_
    cases v with
    | fresh =>
      refine Triple.ret (Setting.Stable.exists hclaimed) ?_
      rintro σ - ⟨ks, hks, hσ, hledger⟩
      refine ⟨ks, hσ.1, hσ.2, fun k hk => ?_, fun r' hr' => ?_⟩
      · simpa [hclaims] using hks k hk
      · obtain rfl := Option.mem_unique hr' hreq
        exact hledger
    | replay o =>
      have hstable : (setting H).Stable fun σ => Claiming H c p [] σ ∧ Answered H c o σ :=
        claiming_stable.and fun _ _ _ h hr => h.rely hr
      exact Triple.ret hstable fun σ _ hσ => ⟨hσ.1.1, hσ.2⟩
  · rename_i hr
    have hnone : c.request = none := hrequest.symm.trans hr
    have hanswered : ∀ o σ, Answered H c o σ := fun o σ r hreq => by simp [hnone] at hreq
    have hledger : ∀ ks σ r, c.request = some r → Ledger H c r ks σ := fun ks σ r hreq => by
      simp [hnone] at hreq
    split
    · rename_i source key hsource hkey
      have hclaims : p.claims H = [(.named source, key)] := by
        simp [Prepared.claims, hr, hsource, hkey]
      refine ((insertIngestKey_spec List.not_mem_nil claiming_stable
        fun σ hσ _ => hσ).pre hstart).bind fun b => ?_
      cases b with
      | true =>
        refine Triple.ret claiming_stable fun σ _ hσ =>
          ⟨[(.named source, key)], hσ.1, hσ.2, fun k hk => ?_, hledger _ _⟩
        rwa [hclaims]
      | false =>
        refine (Triple.passive (loadIngestReplay_passive _ _ _ _ _)
          claiming_stable claiming_monotone fun e σ _ hσ => hσ.1.calm.1.unkeyed hnone e).bind
            fun o => ?_
        cases o with
        | some replay =>
          exact Triple.ret claiming_stable fun σ _ hσ => ⟨hσ.1, hanswered _ _⟩
        | none => exact Triple.fail claiming_stable fun σ _ hσ => hσ.1.calm.1.unkeyed hnone _
    · exact Triple.ret holding_stable fun σ _ hσ =>
        ⟨[], hσ, taken_nil, by simp, hledger _ _⟩

/-! ### The head and the version -/

/-- The head an admission finds is the one it was prepared against. -/
structure Fits (p : Prepared) (head : Option Head) : Prop where
  expected : head.map (·.t) = p.expectedHeadT
  agrees : ∀ h, head = some h → h.agrees p.head
  fresh : p.freshHandle = true → head = none

lemma Head.agrees.moved {head : Head} (h : head.agrees p.head) :
    { head with t := p.t } = p.head := by
  obtain ⟨h1, h2, h3⟩ := h
  simp only [Prepared.head] at h1 h2 h3 ⊢
  rw [h1, h2, h3]

theorem advanceMemoryHead_spec :
    (setting H).Triple
      (fun σ => Claimed H c p ks [] σ ∧ (headOf σ.db p.handle).map (·.t) = p.expectedHeadT)
      (advanceMemoryHead p)
      (fun b σ => if b then Claimed H c p ks [⟨.head p.handle, some p.head⟩] σ ∧
          Fits p (headOf σ.db p.handle)
        else Claimed H c p ks [] σ) (Refused H c) := by
  refine Triple.fix (fun σ => headOf σ.db p.handle) fun o => ?_
  have hP : ∀ ws, (setting H).Stable fun σ => Claimed H c p ks ws σ ∧ headOf σ.db p.handle = o :=
    fun ws => claimed_stable.and fun σ σ' hσ h hr => (hσ.holding.headOf_rely hr).trans h
  have hm : Setting.Monotone fun σ : Side => Claimed H c p ks [] σ ∧ headOf σ.db p.handle = o :=
    fun σ ls hσ => ⟨claimed_monotone σ ls hσ.1, hσ.2⟩
  have hview : ∀ σ, Claimed H c p ks [] σ → headOf σ.view p.handle = headOf σ.db p.handle := by
    intro σ hσ
    rw [hσ.holding.view_eq, List.nil_append, headOf_keyRows]
  have hwrite : ∀ σ, Claimed H c p ks [] σ →
      Claimed H c p ks [⟨.head p.handle, some p.head⟩]
        (written σ (.head p.handle) (some p.head)) := fun σ hσ =>
    hσ.written (hσ.holding.calm.1.own.written_head hσ.holding.handle _)
  have hpre : ∀ σ : Side, ((Claimed H c p ks [] σ ∧
      (headOf σ.db p.handle).map (·.t) = p.expectedHeadT) ∧ headOf σ.db p.handle = o) →
      (Claimed H c p ks [] σ ∧ headOf σ.db p.handle = o) ∧ o.map (·.t) = p.expectedHeadT :=
    fun σ hσ => ⟨⟨hσ.1.1, hσ.2⟩, hσ.2 ▸ hσ.1.2⟩
  refine Triple.pre (Triple.of_pure (fun σ hσ => hσ.2) fun hexp => ?_) hpre
  refine Triple.pre ?_ fun σ hσ => hσ.1
  unfold advanceMemoryHead
  split
  · -- a new handle: its head row must not be there
    refine (Triple.insertRow (Q := fun σ => (Claimed H c p ks
      [⟨.head p.handle, some p.head⟩] σ ∧ headOf σ.db p.handle = o) ∧ o = none) (hP []) hm
      ((system H).row_conflict _) (hP _).pure ?_).post ?_
    · intro σ _ hσ _ hnone
      exact ⟨⟨hwrite σ hσ.1, hσ.2⟩, hσ.2.symm.trans ((hview σ hσ.1).symm.trans hnone)⟩
    · intro b σ hσ
      cases b with
      | false => exact hσ.1
      | true =>
        obtain ⟨⟨hσ, ho⟩, hnone⟩ := hσ
        refine ⟨hσ, ho ▸ ⟨hexp, fun h hh => ?_, fun _ => hnone⟩⟩
        rw [hnone] at hh
        cases hh
  · rename_i hold
    refine (Triple.lock_keeps (hP []) hm).bind fun _ => ?_
    refine (Triple.view (Q := fun v σ =>
      (Claimed H c p ks [] σ ∧ headOf σ.db p.handle = o) ∧ headOf v p.handle = o) (hP [])
      (fun _ => (hP []).pure) fun σ _ hσ => ⟨hσ, (hview σ hσ.1).trans hσ.2⟩).bind fun v => ?_
    refine Triple.of_pure (fun σ hσ => hσ.2) fun hv => ?_
    rw [hv]
    refine Triple.pre ?_ fun σ hσ => hσ.1
    have hdone : ∀ σ, (Claimed H c p ks [⟨.head p.handle, some p.head⟩] σ ∧
        headOf σ.db p.handle = o) → (∀ h, o = some h → h.agrees p.head) →
        Claimed H c p ks [⟨.head p.handle, some p.head⟩] σ ∧ Fits p (headOf σ.db p.handle) :=
      fun σ hσ hagrees => ⟨hσ.1, hσ.2 ▸ ⟨hexp, hagrees, fun h => absurd h hold⟩⟩
    cases o with
    | none =>
      refine (Triple.write (Q := fun _ σ =>
        Claimed H c p ks [⟨.head p.handle, some p.head⟩] σ ∧ headOf σ.db p.handle = none)
        (hP []) (hP _) fun σ _ hσ => ⟨hwrite σ hσ.1, hσ.2⟩).bind fun _ => ?_
      exact Triple.ret (hP _) fun σ _ hσ => hdone σ hσ fun h hh => by cases hh
    | some head =>
      refine (Triple.failIf (hP []) fun σ _ hσ _ =>
        hσ.1.holding.calm.refused rfl).bind fun _ => ?_
      refine Triple.of_pure (fun σ hσ => not_not.1 hσ.2) fun hagrees => ?_
      rw [hagrees.moved]
      refine (Triple.write (Q := fun _ σ =>
        Claimed H c p ks [⟨.head p.handle, some p.head⟩] σ ∧ headOf σ.db p.handle = some head)
        (hP []).pure (hP _) fun σ _ hσ => ⟨hwrite σ hσ.1.1, hσ.1.2⟩).bind fun _ => ?_
      refine Triple.ret (hP _) fun σ _ hσ => hdone σ hσ fun h hh => ?_
      obtain rfl := Option.some.inj hh
      exact hagrees

/-- A new version may be written under the locks of its admission. -/
lemma Holding.mayWrite (h : Holding H c p ws σ) (hnone : memoryOf σ.db p.t = none) :
    MayWrite H σ p.t (some p.row) where
  old m hm := by simp [hnone] at hm
  new m' hm' := by
    obtain rfl := Option.some.inj hm'
    exact h.handle
  both m m' hm := by simp [hnone] at hm
  added m' key _ hm' hkey hnames := by
    obtain rfl := Option.some.inj hm'
    rw [h.calm.1.cmd] at hnames
    rcases h.ready.placed with hc | ⟨a, publish, rfl, -, hschema, hsidecar, hloc⟩
    · simp [hnames] at hc
    obtain ⟨k, hk, rfl⟩ := Option.map_eq_some_iff.1 (hsidecar.symm.trans hkey)
    have hl := (hloc.keyed k hk).1
    rwa [show p.row.ownerId = a.owner from h.ready.owner,
      show p.row.schemaId = a.draft.schemaId from hschema]

/-- The rows of an admission beside its keys, with the counter when it was published. -/
def Prepared.rows (p : Prepared) : Option Counter → Tables
  | none => [⟨.memory p.t, some p.row⟩, ⟨.head p.handle, some p.head⟩]
  | some n => [⟨.counter p.handle, some n⟩, ⟨.memory p.t, some p.row⟩,
      ⟨.head p.handle, some p.head⟩]

/-- An admission with all its rows written. -/
structure Materialized (H : Hashes) (c : Command) (p : Prepared) (ks : List (SourceId × String))
    (published : Option Counter) (σ : Side) : Prop where
  claimed : Claimed H c p ks (p.rows published) σ
  fits : Fits p (headOf σ.db p.handle)
  unused : memoryOf σ.db p.t = none
  next : ∀ n, published = some n → n = nextCounter p.owner (counterOf σ.db p.handle)

variable {published : Option Counter}

lemma materialized_stable : (setting H).Stable (Materialized H c p ks published) where
  own _ hσ := hσ.claimed.holding.calm.1.own
  rely σ σ' hσ hr := by
    have hold := hσ.claimed.holding
    refine ⟨claimed_stable.rely σ σ' hσ.claimed hr, hold.headOf_rely hr ▸ hσ.fits, ?_, ?_⟩
    · refine (hold.get_rely hr (k := .memory p.t) ?_).trans hσ.unused
      cases published <;> simp [Prepared.rows, List.keys]
    · rw [hold.counterOf_rely hr]
      exact hσ.next

theorem insertMemoryRevision_spec :
    (setting H).Triple (fun σ => Claimed H c p ks [⟨.head p.handle, some p.head⟩] σ ∧
        Fits p (headOf σ.db p.handle))
      (insertMemoryRevision p)
      (fun b σ => if b then Materialized H c p ks none σ
        else Claimed H c p ks [⟨.head p.handle, some p.head⟩] σ) (Refused H c) := by
  have hP : (setting H).Stable fun σ => Claimed H c p ks [⟨.head p.handle, some p.head⟩] σ ∧
      Fits p (headOf σ.db p.handle) :=
    claimed_stable.and fun σ σ' hσ h hr => hσ.holding.headOf_rely hr ▸ h
  have hm : Setting.Monotone fun σ : Side =>
      Claimed H c p ks [⟨.head p.handle, some p.head⟩] σ ∧ Fits p (headOf σ.db p.handle) :=
    fun σ ls hσ => ⟨claimed_monotone σ ls hσ.1, hσ.2⟩
  refine (Triple.look hP).bind fun v => ?_
  refine (Triple.failIf hP fun σ _ hσ _ =>
    hσ.1.holding.calm.refused rfl).bind fun _ => ?_
  refine (Triple.insertRow (Q := Materialized H c p ks none) hP hm
    ((system H).row_conflict _) materialized_stable fun σ _ hσ _ hnone => ?_).conseq
    (fun _ h => h.1) ?_
  · have hold := hσ.1.holding
    have hunused : memoryOf σ.db p.t = none := by
      have : memoryOf σ.view p.t = none := hnone
      rwa [hold.view_eq, List.append_assoc, List.singleton_append, memoryOf_cons_head,
        memoryOf_keyRows] at this
    exact ⟨hσ.1.written (hold.calm.1.own.written_memory (hold.mayWrite hunused)), hσ.2, hunused,
      fun n hn => by cases hn⟩
  · intro b σ hσ
    cases b with
    | false => exact hσ.1
    | true => exact hσ

/-! ### Answers -/

/-- What an admission answers before its publication, with what it has written. -/
def Done (H : Hashes) (c : Command) : Response → Side → Prop
  | .admitted o expectedHeadT position, σ => ∃ p ks, Materialized H c p ks none σ ∧
      o = ⟨p.t, p.handle, false, false⟩ ∧ expectedHeadT = p.expectedHeadT ∧ position = none
  | .replayed o, σ => At H c [] σ ∧ Answered H c o σ
  | _, _ => False

/-- One attempt: an answer, or a collision of ids, which is rolled back. -/
def Attempted (H : Hashes) (c : Command) : Option Response → Side → Prop
  | none, σ => ∃ ws, Calm H c ws σ
  | some r, σ => Done H c r σ

lemma done_stable (r : Response) : (setting H).Stable (Done H c r) := by
  cases r with
  | admitted o e position =>
    exact Setting.Stable.exists fun p => .exists fun ks => materialized_stable.pure
  | replayed o => exact at_stable.and fun _ _ _ h hr => h.rely hr
  | done | erased => exact ⟨fun _ h => h.elim, fun _ _ h _ => h⟩

lemma attempted_stable (o : Option Response) : (setting H).Stable (Attempted H c o) := by
  cases o with
  | none => exact Setting.Stable.exists fun ws => calm_stable
  | some r => exact done_stable r

/-- The version of the prepared admission is written, or an id collided. -/
theorem materializeAfterLocks_stores :
    (setting H).Triple (Claimed H c p ks []) (materializeAfterLocks p)
      (fun o σ => match o with
        | none => ∃ ws, Calm H c ws σ
        | some r => Materialized H c p ks none σ ∧
            r = .admitted ⟨p.t, p.handle, false, false⟩ p.expectedHeadT none)
      (Refused H c) := by
  refine (validatePreparedMemoryHead_spec claimed_stable
    claimed_monotone (fun σ (hσ : Claimed H c p ks [] σ) => hσ.holding) fun v => by
      rw [List.nil_append, headOf_keyRows]).bind fun _ => ?_
  refine advanceMemoryHead_spec.bind fun b => ?_
  cases b with
  | false =>
    exact Triple.ret claimed_stable fun σ _ hσ => ⟨_, hσ.holding.calm⟩
  | true =>
    refine insertMemoryRevision_spec.bind fun b => ?_
    cases b with
    | false => exact Triple.ret claimed_stable fun σ _ hσ => ⟨_, hσ.holding.calm⟩
    | true =>
      exact Triple.ret materialized_stable fun σ _ hσ => ⟨hσ, rfl⟩

theorem materializeAfterLocks_spec :
    (setting H).Triple (Claimed H c p ks []) (materializeAfterLocks p) (Attempted H c)
      (Refused H c) := by
  refine materializeAfterLocks_stores.post fun o σ hσ => ?_
  cases o with
  | none => exact hσ
  | some r =>
    obtain ⟨hm, rfl⟩ := hσ
    exact ⟨p, ks, hm, rfl, rfl, rfl⟩

theorem claimAndMaterialize_spec (again : Bool) :
    (setting H).Triple (Holding H c p []) (claimAndMaterialize H p again) (Attempted H c)
      (Refused H c) := by
  refine claimPreparedMemoryAdmission_spec.bind fun o => ?_
  cases o with
  | some outcome =>
    have hstable : (setting H).Stable fun σ => Holding H c p [] σ ∧ Answered H c outcome σ :=
      holding_stable.and fun _ _ _ h hr => h.rely hr
    exact Triple.ret hstable fun σ _ hσ => ⟨hσ.1.calm.1, hσ.2⟩
  | none =>
    refine Triple.of_exists fun ks => ?_
    cases again with
    | false => exact materializeAfterLocks_spec
    | true =>
      refine (lockPreparedMemoryTargets_spec claimed_stable claimed_monotone).bind fun _ => ?_
      exact materializeAfterLocks_spec.pre fun σ hσ => hσ.1

theorem lockAndValidatePreparedMemory_spec :
    (setting H).Triple (fun σ => Calm H c [] σ ∧ Ready H c p σ) (lockAndValidatePreparedMemory H p)
      (fun _ => Holding H c p []) (Refused H c) := by
  have hP : (setting H).Stable fun σ => Calm H c [] σ ∧ Ready H c p σ :=
    calm_stable.and fun _ _ _ h hr => h.rely hr
  have hm : Setting.Monotone fun σ : Side => Calm H c [] σ ∧ Ready H c p σ := fun σ ls hσ =>
    ⟨calm_monotone σ ls hσ.1, hσ.2.mono rfl rfl (List.subset_append_right _ _)⟩
  refine (lockPreparedMemoryTargets_spec hP hm).bind fun _ => ?_
  refine ((validatePreparedMemoryHead_spec holding_stable holding_monotone (fun σ hσ => hσ)
    fun v => rfl).pre fun σ hσ => ⟨hσ.1.1, hσ.1.2, hσ.2⟩).post ?_
  exact fun _ σ hσ => hσ.1

end Proxiima.Memory
