import Proxiima.Memory.Admitting

/-!
# The admitting commands

Facts with their publication, derived versions, forks and lifecycle Facts. Each prepares,
locks, claims and materializes as before; what differs is what they look at first, and what
they may be refused for before the ledger is read.
-/

namespace Proxiima.Memory

open ReadCommitted Prog Setting

variable {H : Hashes} {c : Command} {p : Prepared} {σ σ' : Side} {P : Side → Prop}
variable {ks : List (SourceId × String)} {published : Option Counter}

/-! ### What a materialized admission commits -/

namespace Materialized

variable (h : Materialized H c p ks published σ)

include h

lemma view_eq : σ.view = p.rows published ++ (p.keyRows ks ++ σ.db) := by
  rw [h.claimed.holding.view_eq, List.append_assoc]

lemma keyOf_view : keyOf σ.view = keyOf (p.keyRows ks ++ σ.db) := by
  rw [h.view_eq]
  cases published <;> simp [Prepared.rows]

lemma admits : Admits H (store σ.db) p (published.map (·.sequence)) (store σ.view) where
  expected := h.fits.expected
  agrees := h.fits.agrees
  unused := h.unused
  minted := h.claimed.holding.ready.minted
  above t ht hmint := by
    cases hfresh : p.freshHandle with
    | false => exact h.claimed.holding.ready.above hfresh t ht hmint
    | true =>
      have hexp := h.fits.expected
      rw [h.fits.fresh hfresh, ht] at hexp
      cases hexp
  head := by
    change headOf σ.view = _
    rw [h.view_eq]
    cases published <;> simp [Prepared.rows, store]
  memory := by
    change memoryOf σ.view = _
    rw [h.view_eq]
    cases published <;> simp [Prepared.rows, store]
  key o source k := by
    have hview : (store σ.view).key o source k = keyOf (p.keyRows ks ++ σ.db) o source k :=
      congrFun (congrFun (congrFun h.keyOf_view o) source) k
    rw [hview]
    by_cases hmem : o = p.owner ∧ (source, k) ∈ ks
    · obtain ⟨rfl, hk⟩ := hmem
      exact .inr ⟨h.claimed.taken.free _ hk, keyOf_keyRows_of_mem p ks _ hk, rfl,
        h.claimed.claims _ hk⟩
    · exact .inl (keyOf_keyRows_of_notMem p ks _ fun ho hk => hmem ⟨ho, hk⟩)
  counter := by
    have hnext := h.next
    cases published with
    | none =>
      change counterOf σ.view = _
      rw [h.view_eq]
      simp [Prepared.rows, store]
    | some n =>
      obtain rfl := hnext n rfl
      refine ⟨rfl, ?_⟩
      change counterOf σ.view = _
      rw [h.view_eq]
      simp [Prepared.rows, store]

/-- The claim of the ledger rows, as it is committed. -/
lemma claim {r : RequestKey} (hreq : c.request = some r) :
    Claim H σ.hist σ.db σ.since c.owner r p.t σ.view := by
  have howner : p.owner = c.owner := h.claimed.holding.ready.owner
  have hwritten : ∀ {source key}, (source, key) ∈ ks →
      keyOf σ.view c.owner source key = some p.t := fun hk => by
    rw [h.keyOf_view, ← howner]
    exact keyOf_keyRows_of_mem p ks _ hk
  cases h.claimed.ledger r hreq with
  | claimed hrow hf =>
    refine .claimed ?_ (hwritten hrow) (hf.imp_left fun hk => hwritten hk)
    rw [← howner]
    exact h.claimed.taken.free _ hrow
  | lost hij h1 h2 => exact .lost hij h1 h2

lemma placed : c.namesHandle = true ∨ ∃ a publish, c = .ingest a publish ∧
    a.draft.handle = none ∧ Placed σ.hist (store σ.db) a p := by
  refine h.claimed.holding.ready.placed.imp_right ?_
  rintro ⟨a, publish, hc, hh, hschema, hsidecar, hloc⟩
  refine ⟨a, publish, hc, hh, hschema, hsidecar, fun hk => ?_, fun key hkey hplain => ?_⟩
  · exact h.fits.fresh (hloc.keyless hk)
  · rcases (hloc.keyed key hkey).2 with ⟨hfresh, hnone⟩ | hsome
    · exact .inl ⟨h.fits.fresh hfresh, fun t m hm hcar => hnone hplain t ⟨m, hm, hcar⟩⟩
    · exact .inr (hsome hplain)

lemma effect : Effect H σ.hist (σ.ended (.ok (.admitted ⟨p.t, p.handle, false, false⟩
    p.expectedHeadT (published.map (·.sequence))))) σ.view := by
  have hready := h.claimed.holding.ready
  have hcmd := h.claimed.holding.calm.1.cmd
  subst hcmd
  exact .admitted hready.owner hready.request h.admits (fun r hr => h.claim hr) h.placed

end Materialized

lemma replayed_effect {o : FactIngestOutcome} (hat : At H c [] σ) (h : Answered H c o σ) :
    Effect H σ.hist (σ.ended (.ok (.replayed o))) σ.view := by
  obtain rfl := hat.cmd
  rw [hat.view_eq]
  exact .replayed h

lemma Done.effect {r : Response} (h : Done H c r σ) : Effect H σ.hist (σ.ended (.ok r)) σ.view := by
  cases r with
  | admitted o e position =>
    obtain ⟨p, ks, hm, rfl, rfl, rfl⟩ := h
    exact hm.effect
  | replayed o => exact replayed_effect h.1 h.2
  | done | erased => exact h.elim

/-! ### Attempts -/

theorem retryCollision_spec {body : Tx (Option Response)}
    (hbody : (setting H).Triple (At H c []) body (Attempted H c) (Refused H c)) :
    (setting H).Triple (At H c []) (retryCollision body) (Done H c) (Refused H c) := by
  -- a rolled back attempt has judged the ledger
  have hback : ∀ σ τ : Side, At H c [] (σ.advance τ) → Attempted H c none τ →
      τ.cmd = σ.cmd → τ.since = σ.since → Calm H c [] (σ.advance τ) := by
    rintro σ τ hat ⟨ws, hcalm⟩ - hsince
    refine ⟨hat, fun r hr => ?_⟩
    obtain ⟨n, hn⟩ := hcalm.2 r hr
    exact ⟨n, hsince ▸ hn⟩
  refine Triple.attempt_back at_stable attempted_stable hbody (fun _ _ h => h) hback ?_
  refine Triple.attempt_back calm_stable attempted_stable (hbody.pre fun σ hσ => hσ.1)
    (fun _ _ h => h) (fun σ τ hcalm => hback σ τ hcalm.1) ?_
  exact Triple.fail calm_stable fun σ _ hσ => hσ.refused rfl

/-! ### Facts -/

variable {a : MemoryAdmissionDraft} {publish : Bool}

theorem admitFact_spec :
    (setting H).Triple (At H (.ingest a publish) []) (admitFact H a)
      (Attempted H (.ingest a publish)) (Refused H (.ingest a publish)) := by
  refine (prepareMemoryAdmissionAt_spec at_stable at_monotone
    (fun σ hσ => hσ) rfl rfl (by simp) ?_ ?_).bind fun q => ?_
  · rcases Option.eq_none_or_eq_some a.draft.handle with hh | ⟨handle, hh⟩
    · exact .inr ⟨publish, rfl, hh, rfl⟩
    · exact .inl (by simp [Command.namesHandle, hh])
  · intro e σ he hσ
    exact ⟨hσ.cmd, fun r _ => .malformed (by simp [Command.malformed, he])⟩
  cases q with
  | replay o =>
    exact Triple.ret (at_stable.and fun _ _ _ h hr => PreparedFor.rely hr h) fun σ _ hσ => hσ
  | new p =>
    refine (lockAndValidatePreparedMemory_spec.pre fun σ hσ =>
      ⟨hσ.2.1, hσ.2.2.1⟩).bind fun _ => claimAndMaterialize_spec true

theorem nextSeriesPosition_spec :
    (setting H).Triple (Materialized H c p ks none) (nextSeriesPosition p.handle)
      (fun n σ => ∃ counter, Materialized H c p ks (some counter) σ ∧ n = counter.sequence)
      (Refused H c) := by
  refine (Triple.view (Q := fun v σ =>
    Materialized H c p ks none σ ∧ headOf v p.handle = some p.head) materialized_stable
    (fun _ => materialized_stable.pure) fun σ _ hσ => ⟨hσ, ?_⟩).bind fun v => ?_
  · rw [hσ.view_eq]
    simp [Prepared.rows]
  refine Triple.of_pure (fun σ hσ => hσ.2) fun hhead => ?_
  rw [hhead]
  refine Triple.pre ?_ fun σ hσ => hσ.1
  -- the counter stands still under the handle lock: name it
  refine Triple.fix (fun σ => counterOf σ.db p.handle) fun o => ?_
  have hP : (setting H).Stable fun σ =>
      Materialized H c p ks none σ ∧ counterOf σ.db p.handle = o :=
    materialized_stable.and fun σ σ' hσ h hr => (hσ.claimed.holding.counterOf_rely hr).trans h
  refine Triple.bind (M := fun _ σ =>
    Materialized H c p ks none σ ∧ counterOf σ.db p.handle = o) ?_ fun _ => ?_
  · refine Triple.lock hP hP fun σ _ hσ => ⟨?_, hσ.2⟩
    exact ⟨claimed_monotone σ _ hσ.1.claimed, hσ.1.fits, hσ.1.unused, hσ.1.next⟩
  refine (Triple.view (Q := fun v σ =>
    (Materialized H c p ks none σ ∧ counterOf σ.db p.handle = o) ∧ counterOf v p.handle = o) hP
    (fun _ => hP.pure) fun σ _ hσ => ⟨hσ, ?_⟩).bind fun v => ?_
  · rw [hσ.1.view_eq, ← hσ.2]
    simp [Prepared.rows]
  refine Triple.of_pure (fun σ hσ => hσ.2) fun hcounter => ?_
  rw [hcounter]
  refine (Triple.write (Q := fun _ =>
    Materialized H c p ks (some (nextCounter p.owner o))) hP.pure materialized_stable ?_).bind
    fun _ => Triple.ret materialized_stable fun σ _ hσ => ⟨_, hσ, rfl⟩
  rintro σ _ ⟨⟨hσ, ho⟩, -⟩
  have hold := hσ.claimed.holding
  refine ⟨hσ.claimed.written (hold.calm.1.own.written_counter hold.handle _), hσ.fits, hσ.unused,
    fun n hn => ?_⟩
  rw [← Option.some.inj hn, ← ho]
  rfl

theorem ingestCore_spec : Meets H (.ingest a publish) (ingestCore H a publish) := by
  refine (retryCollision_spec admitFact_spec).bind fun r => ?_
  cases r with
  | admitted o e position =>
    cases publish with
    | false =>
      refine Triple.ret (done_stable _) fun σ _ hσ => ?_
      obtain ⟨p, ks, hm, rfl, rfl, rfl⟩ := hσ
      exact hm.effect
    | true =>
      refine Triple.of_exists fun p => Triple.of_exists fun ks => ?_
      refine Triple.of_pure (fun σ hσ => hσ.2) ?_
      rintro ⟨rfl, rfl, rfl⟩
      refine (nextSeriesPosition_spec.pre fun σ hσ => hσ.1).bind fun n => ?_
      refine Triple.of_exists fun counter => ?_
      refine Triple.ret materialized_stable.pure fun σ _ hσ => ?_
      obtain ⟨hm, rfl⟩ := hσ
      exact hm.effect
  | replayed o => exact Triple.ret (done_stable _) fun σ _ hσ => Done.effect hσ
  | done | erased => exact Triple.ret (done_stable _) fun σ _ hσ => hσ.elim

/-! ### Derived versions -/

lemma sameDerivedPins_passive (d : DerivedDraft) (t handle : Uuid) (forgotten : Bool) :
    (sameDerivedPins d t handle forgotten).Passive := by
  have hload : ∀ column : MemoryRow → List Uuid, (loadPinIds t column).Passive := fun column =>
    passive_view.bind fun v => passive_pure _
  refine (hload _).bind fun _ => (hload _).bind fun _ => (hload _).bind fun _ => ?_
  refine (passive_failIf _ _).bind fun _ => ?_
  split <;> exact passive_pure _

lemma forgottenReplay_passive (handle : Uuid) (d : DerivedDraft) (kind : MemoryKind) :
    (forgottenReplay handle d kind).Passive := by
  refine passive_view.bind fun v => ?_
  split
  · exact sameDerivedPins_passive d _ _ _
  · exact passive_pure _

lemma tryDerivedReplay_passive (handle : Uuid) (d : DerivedDraft) (kind : MemoryKind) :
    (tryDerivedReplay handle d kind).Passive := by
  unfold tryDerivedReplay
  split
  · exact passive_pure _
  refine passive_view.bind fun v => ?_
  split
  · refine (passive_view.bind fun w => passive_pure _).bind fun origins => ?_
    split
    · exact sameDerivedPins_passive d _ _ _
    · exact forgottenReplay_passive handle d kind
  · exact forgottenReplay_passive handle d kind

variable {d : DerivedDraft}

/-- Before its first write, the command has seen the state `v`. -/
def Viewed (H : Hashes) (c : Command) (v : Tables) (σ : Side) : Prop :=
  At H c [] σ ∧ ∃ i, Saw σ.hist σ.db σ.since i (· = v)

lemma viewed_stable (v : Tables) : (setting H).Stable (Viewed H c v) :=
  at_stable.and fun _ _ _ ⟨i, hi⟩ hr => ⟨i, hi.rely hr⟩

lemma view_spec : (setting H).Triple (At H c []) view (Viewed H c) (Refused H c) :=
  Triple.view at_stable viewed_stable fun _ _ hσ => ⟨hσ, _, hσ.saw rfl⟩

/-- A superseded version that is not there for the owner is a reason to refuse. -/
lemma derivedHandle_spec :
    (setting H).Triple (At H (.derive d) []) (derivedHandle d) (fun _ => At H (.derive d) [])
      (Refused H (.derive d)) := by
  unfold derivedHandle
  split
  · exact Triple.ret at_stable fun σ _ hσ => hσ
  · rename_i prior hprior
    refine view_spec.bind fun v => ?_
    split
    · exact Triple.ret (viewed_stable v) fun σ _ hσ => hσ.1
    · rename_i hnone
      refine Triple.fail (viewed_stable v) fun σ _ ⟨hσ, i, hi⟩ => ⟨hσ.cmd, fun r _ => ?_⟩
      refine .base (n := i) (hi.of_eq ?_)
      cases hm : ownedMemory v d.owner prior with
      | none => simp [Command.baseReady, hprior, hm]
      | some m =>
        simp only [hm, Option.filter_eq_none_iff] at hnone
        simpa [Command.baseReady, hprior, hm] using hnone m rfl

lemma derivedReplay_spec (handle : Uuid) (kind : MemoryKind) :
    (setting H).Triple (At H (.derive d) []) (derivedReplay H handle d kind)
      (fun o σ => At H (.derive d) [] σ ∧ match o with
        | some outcome => Answered H (.derive d) outcome σ
        | none => Excused H (.derive d) σ) (Refused H (.derive d)) := by
  unfold derivedReplay
  split
  · rename_i r hr
    have hstable : ∀ v, (setting H).Stable fun σ => At H (.derive d) [] σ ∧
        Verdict H (.derive d) v σ := fun v => at_stable.and fun _ _ _ h hr => h.rely hr
    refine (judgeRequest_spec (c := .derive d) at_stable (fun σ hσ => hσ) hr).bind fun v => ?_
    cases v with
    | fresh => exact Triple.ret (hstable .fresh) fun σ _ hσ => hσ
    | replay o => exact Triple.ret (hstable (.replay o)) fun σ _ hσ => hσ
  · rename_i hr
    have hnone : Command.request (.derive d) = none := hr
    refine (Triple.passive (tryDerivedReplay_passive handle d kind) at_stable at_monotone
      fun e σ _ hσ => hσ.unkeyed hnone e).post fun o σ hσ => ⟨hσ, ?_⟩
    cases o with
    | some | none => exact fun r hr => by simp [hnone] at hr

/-- Under the locks only a request without a key is probed again. -/
lemma recheckDerivedReplay_spec (handle : Uuid) (kind : MemoryKind) :
    (setting H).Triple (Holding H (.derive d) p []) (recheckDerivedReplay handle d kind)
      (fun o σ => Holding H (.derive d) p [] σ ∧
        ∀ outcome, o = some outcome → Answered H (.derive d) outcome σ)
          (Refused H (.derive d)) := by
  unfold recheckDerivedReplay
  split
  · rename_i hr
    have hnone : Command.request (.derive d) = none := Option.isNone_iff_eq_none.1 hr
    refine (Triple.passive (tryDerivedReplay_passive handle d kind) holding_stable
      holding_monotone fun e σ _ hσ => hσ.calm.1.unkeyed hnone e).post
        fun o σ hσ => ⟨hσ, fun outcome _ r hr => ?_⟩
    simp [hnone] at hr
  · exact Triple.ret holding_stable fun σ _ hσ => ⟨hσ, fun _ h => by cases h⟩

/-- Pins are refused for their form alone. -/
lemma pins_error {e : StorageError} (h : a.pins = .error e) : e.ofAdmission = true := by
  have hids : ∀ pins, pinMemoryIds pins = .error e → e.ofAdmission = true := by
    intro pins
    unfold pinMemoryIds
    generalize [] = ids
    induction pins generalizing ids with
    | nil => simp [pure, Except.pure]
    | cons pin pins ih =>
      rw [List.foldlM_cons]
      cases pin with
      | memory id => exact ih _
      | goal id =>
        rintro ⟨⟩
        rfl
  unfold MemoryAdmissionDraft.pins validatedAdmissionKind at h
  split_ifs at h
  · cases h; rfl
  · cases h; rfl
  · cases h; rfl
  · rcases hpins : pinMemoryIds a.origins with err | ids <;> rw [hpins] at h
    · cases h
      exact hids _ hpins
    · change (if a.draft.kind = .fact then .ok _ else .ok _ : Except StorageError Pins) = _ at h
      split at h <;> cases h

theorem admitDerived_spec :
    (setting H).Triple (At H (.derive d) []) (admitDerived H d) (Attempted H (.derive d))
      (Refused H (.derive d)) := by
  refine (liftExcept_spec (derivedKind d) at_stable fun e σ he hσ =>
    ⟨hσ.cmd, fun r _ => .malformed (by simp [Command.malformed, he])⟩).bind fun kind => ?_
  refine (derivedHandle_spec.pre fun σ hσ => hσ.1).bind fun handle => ?_
  refine (derivedReplay_spec handle kind).bind fun o => ?_
  cases o with
  | some replay =>
    exact Triple.ret (at_stable.and fun _ _ _ h hr => Answered.rely hr h) fun σ _ hσ => hσ
  | none =>
    refine (prepareMemoryAdmissionAt_spec (P := Calm H (.derive d) [])
      calm_stable calm_monotone (fun σ hσ => hσ.1) rfl rfl (by simp) (.inl rfl)
      fun e σ he hσ => hσ.refused (pins_error he)).bind fun q => ?_
    cases q with
    | replay o =>
      exact Triple.ret (calm_stable.and fun _ _ _ h hr => PreparedFor.rely hr h)
        fun σ _ hσ => ⟨hσ.1.1, hσ.2⟩
    | new p =>
      refine (lockAndValidatePreparedMemory_spec.pre fun σ hσ =>
        ⟨hσ.2.1, hσ.2.2.1⟩).bind fun _ => ?_
      refine (recheckDerivedReplay_spec handle kind).bind fun o => ?_
      cases o with
      | some replay =>
        exact Triple.ret (holding_stable.and fun _ _ _ h hr o ho => (h o ho).rely hr)
          fun σ _ hσ => ⟨hσ.1.calm.1, hσ.2 replay rfl⟩
      | none => exact (claimAndMaterialize_spec true).pre fun σ hσ => hσ.1

/-! ### Forks -/

/-- The copied pins are the memories they name, and are refused when the row of one is gone. -/
lemma copiedMemoryEndpoints_cases (v : Tables) (ids : List Uuid) :
    copiedMemoryEndpoints v ids = .ok (ids.map .memory) ∨
      copiedMemoryEndpoints v ids = .error .notFound ∧ ∃ id ∈ ids, memoryOf v id = none := by
  induction ids with
  | nil => exact .inl rfl
  | cons id ids ih =>
    simp only [copiedMemoryEndpoints, List.mapM_cons] at ih ⊢
    split
    · rcases ih with h | ⟨h, id', hmem, hnone⟩
      · rw [h]
        exact .inl rfl
      · rw [h]
        exact .inr ⟨rfl, id', List.mem_cons_of_mem _ hmem, hnone⟩
    · rename_i hnone
      exact .inr ⟨rfl, id, List.mem_cons_self, by simpa using hnone⟩

variable {ids : List Uuid}

lemma pinMemoryIds_memories (ids : List Uuid) :
    pinMemoryIds (ids.map .memory) = .ok (ids.foldl pushNew []) := by
  suffices ∀ (f : List Uuid → Endpoint → Except StorageError (List Uuid)),
      (∀ ids id, f ids (.memory id) = .ok (pushNew ids id)) →
      ∀ acc, (ids.map Endpoint.memory).foldlM f acc = .ok (ids.foldl pushNew acc) from
    this _ (fun _ _ => rfl) []
  intro f hf acc
  induction ids generalizing acc with
  | nil => rfl
  | cons id ids ih =>
    rw [List.map_cons, List.foldlM_cons, hf]
    exact ih (pushNew acc id)

variable {q : ForkMemoryRequest}

/-- The pins of a fork are well formed. -/
lemma fork_pins (m : MemoryRow) (origins : List Uuid) (references : List Endpoint)
    (e : StorageError) : (q.admission m (origins.map .memory) references).pins ≠ .error e := by
  intro h
  simp only [MemoryAdmissionDraft.pins, ForkMemoryRequest.admission, validatedAdmissionKind,
    pinMemoryIds_memories, Option.isSome_none, ne_eq, not_true_eq_false, if_false,
    Bool.false_eq_true, or_self, and_false, Bind.bind, Except.bind] at h
  split at h <;> cases h

/-- What a fork saw of its source. -/
def SawSource (q : ForkMemoryRequest) (m : MemoryRow) (σ : Side) : Prop :=
  ∃ i, Saw σ.hist σ.db σ.since i fun v => memoryOf v q.source = some m

lemma SawSource.rely {m : MemoryRow} (hr : (setting H).Rely σ σ') (h : SawSource q m σ) :
    SawSource q m σ' :=
  h.imp fun _ hi => hi.rely hr

lemma loadForkSource_spec :
    (setting H).Triple (At H (.fork q) []) (loadForkSource q)
      (fun m σ => At H (.fork q) [] σ ∧ SawSource q m σ) (Refused H (.fork q)) := by
  -- a source that is not as the request needs it was seen so
  have hbase : ∀ v e σ, Viewed H (.fork q) v σ →
      Command.baseReady v (.fork q) = false → Refused H (.fork q) e σ := by
    rintro v e σ ⟨hσ, i, hi⟩ hno
    exact ⟨hσ.cmd, fun r _ => .base (n := i) (hi.of_eq hno)⟩
  refine view_spec.bind fun v => ?_
  split
  · rename_i hnone
    refine Triple.fail (viewed_stable v) fun σ _ hσ => hbase v _ σ hσ ?_
    cases hm : memoryOf v q.source with
    | none => simp [Command.baseReady, hm]
    | some m =>
      simp only [hm, Option.filter_eq_none_iff] at hnone
      have := hnone m rfl
      simp_all [Command.baseReady]
  · rename_i m hsome
    obtain ⟨hm, hlive⟩ := Option.filter_eq_some_iff.1 hsome
    refine (Triple.failIf (viewed_stable v) fun σ _ hσ hne =>
      hbase v _ σ hσ (by simp [Command.baseReady, hm, hne])).bind fun _ => ?_
    refine (Triple.failIf (viewed_stable v).pure fun σ _ hσ hfact =>
      hbase v _ σ hσ.1 (by simp [Command.baseReady, hm, hfact])).bind fun _ => ?_
    refine Triple.ret (viewed_stable v).pure.pure fun σ _ hσ => ⟨hσ.1.1.1, ?_⟩
    obtain ⟨i, hi⟩ := hσ.1.1.2
    exact ⟨i, hi.of_eq hm⟩

/-- A fork saw its source, and after it the state `v`. -/
def SawPins (H : Hashes) (q : ForkMemoryRequest) (m : MemoryRow) (v : Tables) (σ : Side) : Prop :=
  (At H (.fork q) [] σ ∧ SawSource q m σ) ∧ ∃ i j, i ≤ j ∧
    Saw σ.hist σ.db σ.since i (fun v => memoryOf v q.source = some m) ∧
    Saw σ.hist σ.db σ.since j (· = v)

lemma sawSource_stable (m : MemoryRow) :
    (setting H).Stable fun σ => At H (.fork q) [] σ ∧ SawSource q m σ :=
  at_stable.and fun _ _ _ h hr => h.rely hr

lemma sawPins_stable (m : MemoryRow) (v : Tables) : (setting H).Stable (SawPins H q m v) :=
  (sawSource_stable m).and fun _ _ _ ⟨i, j, hij, hi, hj⟩ hr =>
    ⟨i, j, hij, hi.rely hr, hj.rely hr⟩

lemma viewPins_spec (m : MemoryRow) :
    (setting H).Triple (fun σ => At H (.fork q) [] σ ∧ SawSource q m σ) view (SawPins H q m)
      (Refused H (.fork q)) := by
  refine Triple.view (sawSource_stable m) (sawPins_stable m) ?_
  rintro σ _ ⟨hσ, i, hi⟩
  exact ⟨⟨hσ, i, hi⟩, i, _, hi.ended, hi, hσ.saw rfl⟩

/-- The pins a fork copies are there; a missing one is a reason to refuse. -/
lemma copyPins_spec {m : MemoryRow} (hids : ids ⊆ m.origins ++ m.refs) (v : Tables) :
    (setting H).Triple (SawPins H q m v) (liftExcept (copiedMemoryEndpoints v ids))
      (fun es σ => (At H (.fork q) [] σ ∧ SawSource q m σ) ∧ es = ids.map .memory)
      (Refused H (.fork q)) := by
  rcases copiedMemoryEndpoints_cases v ids with hok | ⟨herr, id, hmem, hnone⟩
  · rw [hok]
    exact Triple.ret (sawPins_stable m v) fun σ _ hσ => ⟨hσ.1, rfl⟩
  · rw [herr]
    refine Triple.fail (sawPins_stable m v) ?_
    rintro σ _ ⟨⟨hσ, -⟩, i, j, hij, hi, hj⟩
    refine ⟨hσ.cmd, fun r _ => .copied hij (t := id) ⟨hi.after, hi.ended, ?_⟩ (hj.of_eq hnone)⟩
    simpa [Command.copiedPins, hi.holds] using hids hmem

theorem admitFork_spec (m : MemoryRow) (origins : List Uuid) (references : List Endpoint) :
    (setting H).Triple (At H (.fork q) []) (admitFork H q m (origins.map .memory) references)
      (Attempted H (.fork q)) (Refused H (.fork q)) := by
  refine (newMemoryUuid_spec q.storeNumber at_stable fun message σ hσ =>
    ⟨hσ.cmd, fun r _ => .panicked⟩).bind fun identity => ?_
  refine Triple.of_pure (fun σ hσ => hσ.2) fun hminted => ?_
  refine Triple.pre ?_ fun σ hσ => hσ.1
  refine Triple.bind (prepareMemoryAdmissionAt_spec at_stable at_monotone
    (fun σ hσ => hσ) rfl rfl (fun id hid => Option.some.inj hid ▸ hminted) (.inl rfl)
    fun e σ he _ => absurd he (fork_pins m origins references e)) fun q => ?_
  cases q with
  | replay o =>
    exact Triple.ret (at_stable.and fun _ _ _ h hr => PreparedFor.rely hr h) fun σ _ hσ => hσ
  | new p =>
    exact (lockAndValidatePreparedMemory_spec.pre fun σ hσ =>
      ⟨hσ.2.1, hσ.2.2.1⟩).bind fun _ => claimAndMaterialize_spec false

theorem forkMemory_spec :
    (setting H).Triple (At H (.fork q) []) (forkMemory H q) (Done H (.fork q))
      (Refused H (.fork q)) := by
  refine loadForkSource_spec.bind fun m => ?_
  refine (viewPins_spec m).bind fun v => ?_
  refine (copyPins_spec (List.subset_append_left _ _) v).bind fun origins => ?_
  refine Triple.of_pure (fun σ hσ => hσ.2) fun horigins => ?_
  subst horigins
  refine Triple.pre ?_ fun σ hσ => hσ.1
  refine (viewPins_spec m).bind fun w => ?_
  refine (copyPins_spec (List.subset_append_right _ _) w).bind fun references => ?_
  refine ((admitFork_spec m m.origins references).pre fun σ hσ => hσ.1.1).bind fun o => ?_
  cases o with
  | some answer => exact Triple.ret (done_stable answer) fun σ _ hσ => hσ
  | none =>
    exact Triple.fail (attempted_stable none) fun σ _ ⟨ws, hσ⟩ => hσ.refused rfl

/-! ### Lifecycle Facts -/

theorem ingestUnpinnedFactAt_spec (storeNumber : ℕ) (owner : Uuid) (schemaId : String) :
    (setting H).Triple (At H (.lifecycleFact storeNumber owner schemaId) [])
      (ingestUnpinnedFactAt H storeNumber owner schemaId)
      (Attempted H (.lifecycleFact storeNumber owner schemaId))
      (Refused H (.lifecycleFact storeNumber owner schemaId)) := by
  -- the command has no request key, so it may be refused at any point
  have hcalm : ∀ σ, At H (.lifecycleFact storeNumber owner schemaId) [] σ →
      Calm H (.lifecycleFact storeNumber owner schemaId) [] σ := fun σ hσ => hσ.calm rfl
  refine Triple.pre ?_ hcalm
  refine (newMemoryUuid_spec storeNumber calm_stable fun message σ hσ =>
    hσ.refused rfl).bind fun t => ?_
  refine Triple.of_pure (fun σ hσ => hσ.2) fun ht => ?_
  refine Triple.pre ?_ fun σ hσ => hσ.1
  refine (newMemoryUuid_spec storeNumber calm_stable fun message σ hσ =>
    hσ.refused rfl).bind fun handle => ?_
  refine Triple.pre ?_ fun σ hσ => hσ.1
  refine (Triple.lock_keeps calm_stable calm_monotone).bind fun _ => ?_
  have hP := (@calm_stable H (.lifecycleFact storeNumber owner schemaId) []).held
    (H.exclusive (.memoryHandle handle))
  have hm := (@calm_monotone H (.lifecycleFact storeNumber owner schemaId) []).held
    (H.exclusive (.memoryHandle handle))
  refine (lockAdvisoryIds_first .memoryHandle handle [] calm_stable calm_monotone).bind fun _ => ?_
  refine (lockAdvisoryIds_keeps .lifecycle [t] hP hm).bind fun _ => ?_
  refine Triple.bind (prepareMemoryAdmissionAt_spec hP hm (fun σ hσ => hσ.1.1) rfl rfl
    (fun id hid => Option.some.inj hid ▸ ht) (.inl rfl) fun e σ _ hσ => hσ.1.1.unkeyed rfl e)
    fun q => ?_
  cases q with
  | replay o =>
    exact Triple.ret (hP.and fun _ _ _ h hr => PreparedFor.rely hr h) fun σ _ hσ => ⟨hσ.1.1.1, hσ.2⟩
  | new p =>
    refine (claimAndMaterialize_spec false).pre fun σ hσ => ⟨hσ.2.1, hσ.2.2.1, ?_⟩
    rw [hσ.2.2.2 _ rfl]
    exact hσ.1.2

end Proxiima.Memory
