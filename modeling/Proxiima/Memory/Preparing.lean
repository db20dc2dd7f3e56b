import Proxiima.Memory.Judging

/-!
# The preparation of an admission

What holds when an admission is prepared: its id is minted, and above the head it read
unless the handle is new; its owner is fenced; and when it looked its series up by natural
key, the lock of the key is held, and what the lookup found still stands as long as no
admission names its series itself.
-/

namespace Proxiima.Memory

open ReadCommitted Prog Setting

variable {H : Hashes} {c : Command} {σ σ' : Side} {P : Side → Prop}

/-! ### The replay lookup -/

lemma loadIngestReplay_passive (owner : Uuid) (source key : String) (refs goalRefs : List Uuid) :
    (loadIngestReplay owner source key refs goalRefs).Passive := by
  refine passive_view.bind fun v => ?_
  split
  · exact passive_pure _
  · refine passive_view.bind fun w => ?_
    split
    · exact passive_fail _
    · exact (passive_failIf _ _).bind fun _ => passive_pure _

lemma latestObservation_passive (owner : Uuid) (source key : String) (refs goalRefs : List Uuid)
    (rounds n : ℕ) (latest : FactIngestOutcome) :
    (latestObservation H owner source key refs goalRefs rounds n latest).Passive := by
  induction rounds generalizing n latest with
  | zero => exact passive_fail _
  | succ rounds ih =>
    refine (loadIngestReplay_passive _ _ _ _ _).bind fun o => ?_
    cases o with
    | some outcome => exact ih _ _
    | none =>
      refine passive_view.bind fun v => ?_
      split <;> exact passive_pure _

lemma replayDecision_passive (a : MemoryAdmissionDraft) (pins : Pins) :
    (replayDecision H a pins).Passive := by
  unfold replayDecision
  split
  · refine (loadIngestReplay_passive _ _ _ _ _).bind fun o => ?_
    split
    · exact passive_pure _
    split
    · exact (passive_call _).bind fun rounds => latestObservation_passive _ _ _ _ _ _ _ _
    · exact passive_pure _
  · exact passive_pure _

/-- What a replay decision says. -/
def Decided (H : Hashes) (c : Command) : AdmissionReplay → Side → Prop
  | .replay o => Answered H c o
  | _ => Excused H c

lemma Decided.rely {d : AdmissionReplay} (hr : (setting H).Rely σ σ') (h : Decided H c d σ) :
    Decided H c d σ' := by
  cases d with
  | replay o => exact Answered.rely hr h
  | admitNew | reobserve => exact Excused.rely hr h

/-- Without a request key every decision is fine. -/
lemma decided_of_unkeyed (hreq : c.request = none) (d : AdmissionReplay) (σ : Side) :
    Decided H c d σ := by
  cases d <;> exact fun r hr => by simp [hreq] at hr

theorem decideAdmissionReplay_spec (hP : (setting H).Stable P) (hm : Setting.Monotone P)
    (hat : ∀ σ, P σ → At H c [] σ) {a : MemoryAdmissionDraft} (howner : a.owner = c.owner)
    (hreq : a.draft.request = c.request) (pins : Pins) :
    (setting H).Triple P (decideAdmissionReplay H a pins) (fun d σ => P σ ∧ Decided H c d σ)
      (Refused H c) := by
  unfold decideAdmissionReplay
  split
  · rename_i r hr
    rw [howner]
    have hstable : ∀ v, (setting H).Stable fun σ => P σ ∧ Verdict H c v σ := fun v =>
      hP.and fun _ _ _ h hr => h.rely hr
    refine (judgeRequest_spec hP hat (hreq.symm.trans hr)).bind fun v => ?_
    cases v with
    | fresh => exact Triple.ret (hstable .fresh) fun σ _ hσ => hσ
    | replay o => exact Triple.ret (hstable (.replay o)) fun σ _ hσ => hσ
  · rename_i hr
    have hnone : c.request = none := hreq.symm.trans hr
    refine (Triple.passive (replayDecision_passive a pins) hP hm fun e σ _ hσ => ?_).post
      fun d σ hσ => ⟨hσ, decided_of_unkeyed hnone d σ⟩
    exact (hat σ hσ).unkeyed hnone e

/-! ### The series of a natural key -/

/-- What a lookup of the series of a natural key found, as long as no admission names its
series itself: no version carries the key, or a version of the found series does. -/
def Lookup (a : MemoryAdmissionDraft) (key : NaturalKey) (found : Option Uuid) (σ : Side) : Prop :=
  Plain σ.hist →
    match found with
    | none => ∀ t, ¬ Carried σ.db a.owner a.draft.schemaId key.value t
    | some handle => ∃ t m, memoryOf σ.db t = some m ∧ m.handle = handle ∧
        m.carries a.owner a.draft.schemaId key.value

lemma Plain.past (hr : (setting H).Rely σ σ') (h : Plain σ'.hist) : Plain σ.hist :=
  fun e he => h e (hr.hist_suffix.subset he)

variable {a : MemoryAdmissionDraft} {key : NaturalKey} {found : Option Uuid}

lemma Lookup.rely (hr : (setting H).Rely σ σ') (hf : Fenced H a.owner σ)
    (hn : H.exclusive (.naturalSeries a.owner a.draft.schemaId key.value) ∈ σ.held)
    (h : Lookup a key found σ) : Lookup a key found σ' := by
  intro hplain
  have h := h (hplain.past hr)
  cases found with
  | none => exact fun t hc => h t (carried_of_natural hr hf hn hplain hc)
  | some handle =>
    obtain ⟨t, m, hm, hh, ho, hs, hk⟩ := h
    obtain ⟨m', hm', h1, h2, h3, h4⟩ := version_of_fenced hr hf hm ho
    exact ⟨t, m', hm', h2.trans hh, h1, h3.trans hs, h4.trans hk⟩

/-- The lookup answers for the rows it reads. -/
lemma lookup_of_run (hrun : Run (Effect H) σ.db σ.hist)
    (hsome : ∀ h, found = some h → h ∈ ownedHeads σ.db a.owner a.draft.schemaId key.value)
    (hnone : found = none → ownedHeads σ.db a.owner a.draft.schemaId key.value = []) :
    Lookup a key found σ := by
  intro hplain
  cases found with
  | some handle =>
    obtain ⟨head, m, -, hm, hh, hcar⟩ := mem_ownedHeads.1 (hsome handle rfl)
    exact ⟨head.t, m, hm, hh, hcar⟩
  | none =>
    rintro t ⟨m, hm, hc⟩
    have hmem := mem_ownedHeads_of_version (sound_of_run hrun) (uniform_of_run hrun hplain) hm hc
    simp [hnone rfl] at hmem

theorem resolveNaturalSeriesHandle_spec (hP : (setting H).Stable P) (hm : Setting.Monotone P)
    (hcalm : ∀ σ, P σ → Calm H c [] σ) (hfence : ∀ σ, P σ → Fenced H a.owner σ) :
    (setting H).Triple P (resolveNaturalSeriesHandle H a.owner a.draft.schemaId key)
      (fun found σ => (P σ ∧
        H.exclusive (.naturalSeries a.owner a.draft.schemaId key.value) ∈ σ.held) ∧
        Lookup a key found σ) (Refused H c) := by
  have hlocked := hP.held (H.exclusive (.naturalSeries a.owner a.draft.schemaId key.value))
  -- every way to pick from the heads found is a lookup
  have hknown : ∀ v : Tables, (setting H).Stable fun σ => (P σ ∧
      H.exclusive (.naturalSeries a.owner a.draft.schemaId key.value) ∈ σ.held) ∧
      ∀ found : Option Uuid,
        (∀ h, found = some h → h ∈ ownedHeads v a.owner a.draft.schemaId key.value) →
        (found = none → ownedHeads v a.owner a.draft.schemaId key.value = []) →
        Lookup a key found σ := fun v =>
    hlocked.and fun σ σ' hσ h hr found h1 h2 => (h found h1 h2).rely hr (hfence σ hσ.1) hσ.2
  refine (Triple.lock_held hP hm).bind fun _ => ?_
  refine (Triple.failIf hlocked fun σ _ hσ _ =>
    (hcalm σ hσ.1).refused rfl).bind fun _ => ?_
  refine (Triple.view hlocked.pure hknown fun σ hi hσ =>
    ⟨hσ.1, fun found h1 h2 => ?_⟩).bind fun v => ?_
  · have hv := (hcalm σ hσ.1.1).1.view_eq
    rw [hv] at h1 h2
    exact lookup_of_run hi h1 h2
  refine (Triple.call (hknown v) (fun _ => hknown v) fun _ _ σ _ hσ => hσ).bind fun choice => ?_
  refine Triple.ret (hknown v) fun σ _ hσ => ⟨hσ.1, hσ.2 _ (fun h hh => ?_) fun hh => ?_⟩
  · exact List.mem_of_getElem? hh
  · by_contra hne
    have hlen := List.length_pos_of_ne_nil hne
    rw [List.getElem?_eq_none_iff] at hh
    exact absurd (Nat.mod_lt choice hlen) (Nat.not_lt.2 hh)

/-! ### The handle -/

/-- How an admission that names no series came by its handle. -/
structure Located (H : Hashes) (a : MemoryAdmissionDraft) (handle : Uuid × Bool) (σ : Side) :
    Prop where
  keyless : a.naturalKey = none → handle.2 = true
  keyed : ∀ key, a.naturalKey = some key →
    H.exclusive (.naturalSeries a.owner a.draft.schemaId key.value) ∈ σ.held ∧
    ((handle.2 = true ∧ Lookup a key none σ) ∨ Lookup a key (some handle.1) σ)

lemma Located.rely {handle : Uuid × Bool} (hr : (setting H).Rely σ σ') (hf : Fenced H a.owner σ)
    (h : Located H a handle σ) : Located H a handle σ' where
  keyless := h.keyless
  keyed key hkey := by
    obtain ⟨hl, hcases⟩ := h.keyed key hkey
    refine ⟨hr.keeps.2 ▸ hl, hcases.imp (fun hn => ⟨hn.1, hn.2.rely hr hf hl⟩) fun hs => ?_⟩
    exact hs.rely hr hf hl

theorem admissionHandle_spec (hP : (setting H).Stable P) (hm : Setting.Monotone P)
    (hcalm : ∀ σ, P σ → Calm H c [] σ) (hfence : ∀ σ, P σ → Fenced H a.owner σ)
    (reserved : Option (Uuid × Uuid)) :
    (setting H).Triple P (admissionHandle H a reserved)
      (fun handle σ => P σ ∧ (∀ id, reserved = some id → handle = (id.1, true)) ∧
        (reserved = none → a.draft.handle = none → Located H a handle σ)) (Refused H c) := by
  unfold admissionHandle
  split
  · rename_i handle hsome
    refine Triple.ret hP fun σ _ hσ => ⟨hσ, fun id hid => ?_, fun h1 h2 => ?_⟩
    · subst hid
      simpa using hsome.symm
    · simp [h1, h2] at hsome
  · rename_i hnone
    have hres : reserved = none := by
      cases reserved with
      | none => rfl
      | some r => simp at hnone
    subst hres
    have hfresh : ∀ {Q : Side → Prop}, (setting H).Stable Q → (∀ σ, Q σ → Calm H c [] σ) →
        (setting H).Triple Q (newMemoryUuid a.storeNumber) (fun id σ => Q σ ∧ IsMinted id)
          (Refused H c) := fun hQ hQc =>
      newMemoryUuid_spec a.storeNumber hQ fun message σ hσ => (hQc σ hσ).refused rfl
    split
    · rename_i hkey
      refine (hfresh hP hcalm).bind fun id => ?_
      refine Triple.ret hP.pure fun σ _ hσ =>
        ⟨hσ.1, by simp, fun _ _ => ⟨fun _ => rfl, fun key hk => ?_⟩⟩
      simp [hkey] at hk
    · rename_i key hkey
      have hstable : ∀ found, (setting H).Stable fun σ => (P σ ∧
          H.exclusive (.naturalSeries a.owner a.draft.schemaId key.value) ∈ σ.held) ∧
          Lookup a key found σ := fun found =>
        (hP.held _).and fun σ σ' hσ h hr => h.rely hr (hfence σ hσ.1) hσ.2
      have honly : ∀ key', a.naturalKey = some key' → key' = key := fun key' hk =>
        Option.mem_unique hk hkey
      refine (resolveNaturalSeriesHandle_spec hP hm hcalm hfence).bind fun found => ?_
      cases found with
      | some handle =>
        refine Triple.ret (hstable _) fun σ _ hσ => ⟨hσ.1.1, by simp, fun _ _ => ?_⟩
        refine ⟨fun hk => by simp [hkey] at hk, fun key' hk => ?_⟩
        obtain rfl := honly key' hk
        exact ⟨hσ.1.2, .inr hσ.2⟩
      | none =>
        refine (hfresh (hstable none) fun σ hσ => hcalm σ hσ.1.1).bind fun id => ?_
        refine Triple.ret (hstable none).pure fun σ _ hσ =>
          ⟨hσ.1.1.1, by simp, fun _ _ => ⟨fun _ => rfl, fun key' hk => ?_⟩⟩
        obtain rfl := honly key' hk
        exact ⟨hσ.1.1.2, .inl ⟨rfl, hσ.1.2⟩⟩

/-! ### The prepared admission -/

/-- What is known of a prepared admission until it is materialized. -/
structure Ready (H : Hashes) (c : Command) (p : Prepared) (σ : Side) : Prop where
  owner : p.owner = c.owner
  request : p.draft.request = c.request
  minted : IsMinted p.t
  above : p.freshHandle = false → ∀ t, p.expectedHeadT = some t → IsMinted t → t < p.t
  fenced : Fenced H p.owner σ
  placed : c.namesHandle = true ∨ ∃ a publish, c = .ingest a publish ∧ a.draft.handle = none ∧
    p.draft.schemaId = a.draft.schemaId ∧ p.sidecar = a.naturalKey.map NaturalKey.value ∧
    Located H a (p.handle, p.freshHandle) σ

lemma Ready.rely {p : Prepared} (hr : (setting H).Rely σ σ') (h : Ready H c p σ) :
    Ready H c p σ' where
  owner := h.owner
  request := h.request
  minted := h.minted
  above := h.above
  fenced := by
    unfold Fenced
    rw [hr.keeps.2]
    exact h.fenced
  placed := by
    refine h.placed.imp_right ?_
    rintro ⟨a, publish, hc, hh, hs, hk, hloc⟩
    have howner : p.owner = a.owner := h.owner.trans (hc ▸ rfl)
    exact ⟨a, publish, hc, hh, hs, hk, hloc.rely hr (howner ▸ h.fenced)⟩

/-- What is ready stays so while the transaction takes locks and writes. -/
lemma Ready.mono {p : Prepared} {τ : Side} (h : Ready H c p σ) (hdb : τ.db = σ.db)
    (hhist : τ.hist = σ.hist) (hheld : σ.held ⊆ τ.held) : Ready H c p τ where
  owner := h.owner
  request := h.request
  minted := h.minted
  above := h.above
  fenced := h.fenced.imp (fun hl => hheld hl) fun hl => hheld hl
  placed := by
    refine h.placed.imp_right ?_
    rintro ⟨a, publish, hc, hh, hs, hk, hloc⟩
    refine ⟨a, publish, hc, hh, hs, hk, hloc.keyless, fun key hkey => ?_⟩
    obtain ⟨hl, hfound⟩ := hloc.keyed key hkey
    have hsame : ∀ found, Lookup a key found τ ↔ Lookup a key found σ := fun found => by
      unfold Lookup
      rw [hdb, hhist]
    exact ⟨hheld hl, hfound.imp (fun hn => ⟨hn.1, (hsame none).2 hn.2⟩) (hsame _).2⟩

lemma inheritedForkSource_spec (hP : (setting H).Stable P) (source prior : Option Uuid) :
    (setting H).Triple P (inheritedForkSource source prior) (fun _ => P) (Refused H c) := by
  unfold inheritedForkSource
  split
  · exact Triple.ret hP fun _ _ hσ => hσ
  · exact (Triple.look hP).bind fun v => Triple.ret hP fun _ _ hσ => hσ
  · exact Triple.ret hP fun _ _ hσ => hσ

lemma admissionT_spec (hP : (setting H).Stable P) (hcalm : ∀ σ, P σ → Calm H c [] σ)
    (storeNumber : ℕ) {identity : Option (Uuid × Uuid)}
    (hid : ∀ id, identity = some id → IsMinted id.2) (expectedHeadT : Option Uuid) :
    (setting H).Triple P (admissionT storeNumber identity expectedHeadT)
      (fun t σ => P σ ∧ IsMinted t ∧ (identity = none → ∀ head, expectedHeadT = some head →
        IsMinted head → head < t)) (Refused H c) := by
  unfold admissionT
  split
  · rename_i reserved
    exact Triple.ret hP fun σ _ hσ => ⟨hσ, hid _ rfl, fun h => by cases h⟩
  · rename_i head
    refine (newMemoryUuidAfter_spec storeNumber head hP fun _ σ hσ =>
      (hcalm σ hσ).refused rfl).post fun t σ hσ => ⟨hσ.1, hσ.2.1, ?_⟩
    intro _ head' hh
    obtain rfl := Option.some.inj hh
    exact hσ.2.2
  · refine (newMemoryUuid_spec storeNumber hP fun message σ hσ =>
      (hcalm σ hσ).refused rfl).post fun t σ hσ => ⟨hσ.1, hσ.2, ?_⟩
    intro _ head hh
    cases hh

lemma fenceDeclaredScopes_spec (hP : (setting H).Stable P) (hm : Setting.Monotone P)
    (hcalm : ∀ σ, P σ → Calm H c [] σ) (owner : Uuid) (scopes : List (String × Uuid)) :
    (setting H).Triple P (fenceDeclaredScopes H owner scopes) (fun _ => P) (Refused H c) := by
  refine Triple.forM (P := fun _ => P) hP (fun scope _ => ?_) scopes
  refine (Triple.lock_keeps hP hm).bind fun _ => ?_
  refine (Triple.call hP (fun _ => hP) fun _ _ _ _ hσ => hσ).bind fun registered => ?_
  exact (Triple.failIf hP fun σ _ hσ _ => (hcalm σ hσ).refused rfl).post fun _ _ hσ => hσ.1

variable {options : PreparationOptions}

theorem prepareNew_spec (hP : (setting H).Stable P) (hm : Setting.Monotone P)
    (hcalm : ∀ σ, P σ → Calm H c [] σ) (howner : a.owner = c.owner)
    (hreq : a.draft.request = c.request) (hid : ∀ id, options.identity = some id → IsMinted id.2)
    (hcmd : c.namesHandle = true ∨ ∃ publish, c = .ingest a publish ∧ a.draft.handle = none ∧
      options.identity = none) (pins : Pins) (reobservationKey : Option String) :
    (setting H).Triple P (prepareNew H a options pins reobservationKey)
      (fun q σ => P σ ∧ ∃ p, q = .new p ∧ Ready H c p σ ∧
        ∀ id, options.identity = some id → p.handle = id.1) (Refused H c) := by
  have hP1 := hP.held (H.shared (.ownerFence a.owner))
  have hm1 := hm.held (H.shared (.ownerFence a.owner))
  refine (Triple.lock_held hP hm).bind fun _ => ?_
  refine (Triple.forM (P := fun _ => _) hP1
    (fun _ _ => Triple.lock_keeps hP1 hm1) _).bind fun _ => ?_
  refine (fenceDeclaredScopes_spec hP1 hm1 (fun σ hσ => hcalm σ hσ.1) _ _).bind fun _ => ?_
  refine (admissionHandle_spec hP1 hm1 (fun σ hσ => hcalm σ hσ.1)
    (fun σ hσ => .inl hσ.2) options.identity).bind fun handle => ?_
  have hP2 : (setting H).Stable fun σ => (P σ ∧ H.shared (.ownerFence a.owner) ∈ σ.held) ∧
      (∀ id, options.identity = some id → handle = (id.1, true)) ∧
      (options.identity = none → a.draft.handle = none → Located H a handle σ) :=
    hP1.and fun σ σ' hσ h hr => ⟨h.1, fun h1 h2 => (h.2 h1 h2).rely hr (.inl hσ.2)⟩
  refine (Triple.look hP2).bind fun v => ?_
  refine (inheritedForkSource_spec hP2 _ _).bind fun forkedFrom => ?_
  refine (admissionT_spec hP2 (fun σ hσ => hcalm σ hσ.1.1) a.storeNumber hid _).bind fun t => ?_
  refine Triple.ret hP2.pure fun σ _ ⟨⟨⟨hσ, hfence⟩, hres, hloc⟩, ht, habove⟩ =>
    ⟨hσ, _, rfl, ?_, fun id hi => congrArg Prod.fst (hres id hi)⟩
  refine ⟨howner, hreq, ht, fun hnew head hhead => ?_, .inl hfence, ?_⟩
  · have hid' : options.identity = none := by
      cases hi : options.identity with
      | none => rfl
      | some id =>
        have hnew : handle.2 = false := hnew
        simp [hres id hi] at hnew
    exact habove hid' head hhead
  · refine hcmd.imp_right ?_
    rintro ⟨publish, hc, hh, hi⟩
    exact ⟨a, publish, hc, hh, rfl, rfl, hloc hi hh⟩

/-- What a preparation answers. -/
def PreparedFor (H : Hashes) (c : Command) (options : PreparationOptions) :
    PreparedMemoryAdmission → Side → Prop
  | .new p, σ => Calm H c [] σ ∧ Ready H c p σ ∧
      ∀ id, options.identity = some id → p.handle = id.1
  | .replay o, σ => Answered H c o σ

lemma PreparedFor.rely {q : PreparedMemoryAdmission} (hr : (setting H).Rely σ σ')
    (h : PreparedFor H c options q σ) : PreparedFor H c options q σ' := by
  cases q with
  | new p => exact ⟨calm_stable.rely σ σ' h.1 hr, h.2.1.rely hr, h.2.2⟩
  | replay o => exact Answered.rely hr h

theorem prepareMemoryAdmissionAt_spec (hP : (setting H).Stable P) (hm : Setting.Monotone P)
    (hat : ∀ σ, P σ → At H c [] σ) (howner : a.owner = c.owner) (hreq : a.draft.request = c.request)
    (hid : ∀ id, options.identity = some id → IsMinted id.2)
    (hcmd : c.namesHandle = true ∨ ∃ publish, c = .ingest a publish ∧ a.draft.handle = none ∧
      options.identity = none) (hpins : ∀ e σ, a.pins = .error e → P σ → Refused H c e σ) :
    (setting H).Triple P (prepareMemoryAdmissionAt H a options)
      (fun q σ => P σ ∧ PreparedFor H c options q σ) (Refused H c) := by
  have hP1 : ∀ d, (setting H).Stable fun σ => P σ ∧ Decided H c d σ := fun d =>
    hP.and fun _ _ _ h hr => h.rely hr
  have hP2 : (setting H).Stable fun σ => P σ ∧ Excused H c σ :=
    hP.and fun _ _ _ h hr => h.rely hr
  have hm2 : Setting.Monotone fun σ : Side => P σ ∧ Excused H c σ :=
    fun σ ls hσ => ⟨hm σ ls hσ.1, hσ.2⟩
  have hnew : ∀ pins key, (setting H).Triple (fun σ => P σ ∧ Excused H c σ)
      (prepareNew H a options pins key) (fun q σ => P σ ∧ PreparedFor H c options q σ)
      (Refused H c) := by
    intro pins key
    refine (prepareNew_spec hP2 hm2 (fun σ hσ => ⟨hat σ hσ.1, hσ.2⟩) howner hreq hid hcmd pins
      key).post ?_
    rintro _ σ ⟨⟨hσ, hex⟩, p, rfl, hready, hid⟩
    exact ⟨hσ, ⟨hat σ hσ, hex⟩, hready, hid⟩
  refine (liftExcept_spec a.pins hP hpins).bind fun pins => ?_
  refine ((decideAdmissionReplay_spec hP hm hat howner hreq pins).pre
    fun σ hσ => hσ.1).bind fun d => ?_
  cases d with
  | replay o => exact Triple.ret (hP1 (.replay o)) fun σ _ hσ => hσ
  | admitNew => exact hnew pins none
  | reobserve key => exact hnew pins (some key)

end Proxiima.Memory
