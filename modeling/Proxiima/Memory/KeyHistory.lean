import Proxiima.Memory.SeriesHistory

/-!
# The history of a key

Natural keys and request keys over whole histories. An admission that looks its series up by
natural key finds the one series of the key, as long as no transfer brought a second one. A
request key is claimed at most once, and what a later request under the key is answered was
read from the rows of that claim.
-/

namespace Proxiima.Memory

open ReadCommitted

variable {H : Hashes} {hist : List Answer} {e : Answer} {db : Tables}

/-! ### Natural keys -/

/-- At most one series of an owner and schema has a natural key on its head. -/
def OneSeriesPerKey (v : Tables) : Prop :=
  ∀ owner schemaId key, ∀ x ∈ ownedHeads v owner schemaId key,
    ∀ y ∈ ownedHeads v owner schemaId key, x = y

lemma oneSeriesPerKey (h : (store db).Unique) : OneSeriesPerKey db := by
  intro owner schemaId key x hx y hy
  obtain ⟨head, m, -, hm, rfl, hc⟩ := mem_ownedHeads.1 hx
  obtain ⟨head', m', -, hm', rfl, hc'⟩ := mem_ownedHeads.1 hy
  exact h owner schemaId key head.t head'.t m m' hm hm' hc hc'

variable {older : List Answer} {r' : RequestKey} {owner : Uuid}

lemma Plain.mono (h : Plain hist) (hsuf : older <:+ hist) : Plain older :=
  fun e he => h e (hsuf.subset he)

/-- A committed transfer that is not clean leaves two series for a key. -/
lemma Effect.cleanTransfer (h : Effect H hist e db) (hs : (store e.before).Sound)
    (hs' : (store db).Sound) (hu : (store db).Uniform) (hone : OneSeriesPerKey db) :
    cleanTransfer e = true := by
  cases h with
  | @transferred fromOwner toOwner t handle since before _ h =>
    obtain ⟨m, hm, -, -⟩ := h.requested
    refine (cleanTransfer_iff (e := ⟨.transfer fromOwner toOwner t, since, before, .ok .done⟩)
      rfl rfl hm).2 fun t' m' key hm' hc hk => ?_
    obtain ⟨x, hx, y, hy, hne⟩ := h.collides hm hs hs' hu hm' hc hk
    exact hne (hone _ _ _ x hx y hy)
  | @refused c | @replayed c | @admitted c => cases c <;> rfl
  | forgotten | restored | live | erased | erasedSeries => rfl

/-- **One series for a natural key**: when no admission names its series itself, in every
committed state of a history an owner has at most one series for a schema and natural key,
exactly when every transfer that committed was clean; and then every admission with a natural
key goes to the series that has the key. -/
theorem natural_key_series (H : Hashes) {processes : Processes} {s : Machine}
    (h : Reachable (system H) processes s) (hplain : Plain s.hist) :
    ((∀ n ≤ s.hist.length, OneSeriesPerKey (stateAt s.hist s.db n)) ↔
      ∀ e ∈ s.hist, cleanTransfer e = true) ∧
    ((∀ e ∈ s.hist, cleanTransfer e = true) →
      ∀ e ∈ s.hist, ∀ a publish key o expected position, e.cmd = .ingest a publish →
        a.naturalKey = some key → e.result = .ok (.admitted o expected position) →
        ∀ x ∈ ownedHeads e.before a.owner a.draft.schemaId key.value, o.handle = x) := by
  have hrun := run_of_reachable H h
  have hstate : ∀ n ≤ s.hist.length, (∀ e ∈ s.hist, cleanTransfer e = true) →
      (store (stateAt s.hist s.db n)).Unique := by
    intro n hn hclean
    obtain ⟨older, -, hsuf, hold⟩ := hrun.at_state hn
    exact unique_of_run hold (hplain.mono hsuf) fun e he => hclean e (hsuf.subset he)
  refine ⟨⟨fun hone e he => ?_, fun hclean n hn => oneSeriesPerKey (hstate n hn hclean)⟩, ?_⟩
  · obtain ⟨n, hn⟩ := exists_answer_of_mem he
    obtain ⟨older, -, -, -, hold, heff⟩ := hrun.effect_of_answer hn
    obtain ⟨newer, -, hsuf, hnew⟩ := hrun.at_state (answer_lt hn)
    exact heff.cleanTransfer (sound_of_run hold) (sound_of_run hnew)
      (uniform_of_run hnew (hplain.mono hsuf)) (hone _ (answer_lt hn))
  · rintro hclean e he a publish key o expected position hcmd hkey hres x hx
    obtain ⟨n, hn⟩ := exists_answer_of_mem he
    obtain ⟨older, -, hsuf, hbefore, hold, heff⟩ := hrun.effect_of_answer hn
    have hunique := hstate n (answer_lt hn).le hclean
    rw [← hbefore] at hunique
    obtain ⟨head, m, -, hm, rfl, hc⟩ := mem_ownedHeads.1 hx
    cases heff with
    | @admitted c since before _ p position howner hrequest h hclaim hplaced =>
      obtain rfl : c = .ingest a publish := hcmd
      obtain ⟨rfl, -, -⟩ : _ ∧ _ ∧ _ := by simpa using hres
      rcases hplaced with hnames | ⟨a', publish', hc', -, hp⟩
      · exact absurd hnames (by simp [hplain _ he])
      · obtain ⟨rfl, rfl⟩ := Command.ingest.inj hc'
        rcases hp.keyed key hkey ((hplain.mono hsuf).mono (List.suffix_cons _ _)) with
          ⟨-, hnone⟩ | ⟨t, m', hm', hh, hc''⟩
        · exact absurd hc (hnone _ _ hm)
        · exact hh.symm.trans (hunique _ _ _ t head.t m' m hm' hm hc'' hc)
    | refused | replayed => cases hres
    | forgotten | restored | live | erased | erasedSeries | transferred => cases hcmd

/-- A Fact of the owner under one natural key. -/
def namedFact (owner : Uuid) : MemoryAdmissionDraft :=
  ⟨0, some ⟨"k", "memory_id", [("name", .text "a")], false⟩, owner,
    ⟨"s", none, none, none, none, .fact, none⟩, [], [], []⟩

def nameKey : SidecarKey := ⟨"k", "memory_id", [("name", .text "a")]⟩

/-- A series moves to an owner without one of its key, who then admits the key. -/
def movedSeries : List (Command × Input) :=
  [(.ingest (namedFact 1) false, { clockMillis := 100 }),
    (.transfer 1 2 (layout 100 1 0 0), { found := false }),
    (.ingest (namedFact 2) false, { clockMillis := 200 })]

/-- The admission goes to the series. -/
theorem natural_key_series_moved :
    ∃ s, inTurn oneLock movedSeries = some s ∧
      OneSeriesPerKey s.db ∧ ∃ e ∈ s.hist, e.cmd = .ingest (namedFact 2) false ∧
        ∀ x ∈ ownedHeads e.before 2 "s" nameKey, x = layout 100 0 0 0 := by
  have hrun : (inTurn oneLock movedSeries).map
      (fun s => ((s.hist.all fun e => !e.cmd.namesHandle) && s.hist.all cleanTransfer,
        (answer s.hist 2).map Entry.cmd, (answer s.hist 2).map Entry.result)) =
      some (true, some (.ingest (namedFact 2) false), some (.ok (.admitted
        ⟨layout 200 0 0 0, layout 100 0 0 0, false, false⟩
        (some (layout 100 1 0 0)) none))) := by decide +kernel
  obtain ⟨s, hs, heq⟩ := Option.map_eq_some_iff.1 hrun
  obtain ⟨hall, heq⟩ := Prod.mk.inj heq
  obtain ⟨hcmd, hres⟩ := Prod.mk.inj heq
  obtain ⟨e, he, hcmd⟩ := Option.map_eq_some_iff.1 hcmd
  rw [he] at hres
  rw [Bool.and_eq_true, List.all_eq_true, List.all_eq_true] at hall
  have hplain : Plain s.hist := fun e he => by simpa using hall.1 e he
  obtain ⟨hone, hseries⟩ := natural_key_series oneLock (Reachable.serial .init hs) hplain
  have hlast := hone.2 hall.2 _ le_rfl
  rw [stateAt_length] at hlast
  refine ⟨s, hs, hlast, e, mem_of_answer he, hcmd, ?_⟩
  exact fun x hx => (hseries hall.2 e (mem_of_answer he) _ _ _ _ _ _ hcmd rfl
    (Option.some.inj hres) x hx).symm

/-- A transfer brings the owner of a series a second one of the same schema and natural
key. -/
theorem natural_key_second_series :
    ∃ s, Reachable (system oneLock) (fun _ => {}) s ∧ Plain s.hist ∧
      ¬ OneSeriesPerKey s.db := by
  have hrun : (inTurn oneLock [(.ingest (namedFact 1) false, { clockMillis := 100 }),
          (.ingest (namedFact 2) false, { clockMillis := 200 }),
          (.transfer 1 2 (layout 100 1 0 0), { found := false })]).map
      (fun s => (s.hist.all fun e => !e.cmd.namesHandle, ownedHeads s.db 2 "s" nameKey)) =
      some (true, [layout 200 0 0 0, layout 100 0 0 0]) := by
    decide +kernel
  obtain ⟨s, hs, heq⟩ := Option.map_eq_some_iff.1 hrun
  obtain ⟨hall, hheads⟩ := Prod.mk.inj heq
  rw [List.all_eq_true] at hall
  refine ⟨s, Reachable.serial .init hs, fun e he => by simpa using hall e he, fun hone => ?_⟩
  have := hone 2 "s" nameKey _ (hheads ▸ List.mem_cons_self) _
    (hheads ▸ List.mem_cons_of_mem _ List.mem_cons_self)
  exact absurd this (by decide)

/-! ### Request keys -/

/-- What the digest of a fingerprint row is taken of. -/
def RequestKey.digested (r : RequestKey) : List UInt8 :=
  lengthBytes r.key.length ++ r.key ++ r.fingerprint.1

/-- The requests of a history have their keys among these. -/
def Keyed (keys : Set RequestKey) (hist : List Answer) : Prop :=
  ∀ d ∈ hist, ∀ r, d.cmd.request = some r → r ∈ keys

/-- No two requests under these keys collide in the digests of their fingerprint rows. -/
def NoCollision (H : Hashes) (keys : Set RequestKey) : Prop :=
  Set.InjOn H.blake3 (RequestKey.digested '' keys)

variable {keys : Set RequestKey}

/-- The digest of a fingerprint row takes the key apart from the fingerprint. -/
lemma NoCollision.fingerprintRowKey_inj (hb : NoCollision H keys) {r : RequestKey} (hr : r ∈ keys)
    (hr' : r' ∈ keys) (h : r.fingerprintRowKey H.blake3 = r'.fingerprintRowKey H.blake3) :
    r.key = r'.key ∧ r.fingerprint = r'.fingerprint := by
  have hbytes := hb ⟨r, hr, rfl⟩ ⟨r', hr', rfl⟩ (String.append_right_inj _ |>.1 h)
  have hlen : r.key.length = r'.key.length := by
    have := congrArg List.length hbytes
    simp only [RequestKey.digested, List.length_append, r.fingerprint.2, r'.fingerprint.2,
      lengthBytes, List.length_map, List.length_range] at this
    omega
  obtain ⟨hkey, hfp⟩ := List.append_inj hbytes (by simp [lengthBytes, hlen])
  exact ⟨(List.append_inj hkey (by simp [lengthBytes])).2, Subtype.ext hfp⟩

/-- The two rows of a request key: a fingerprint row names the version of the request row,
and a key has one fingerprint. -/
structure KeysAgree (H : Hashes) (keys : Set RequestKey) (v : Tables) : Prop where
  request : ∀ owner, ∀ r ∈ keys, ∀ t, fingerprintRow H v owner r = some t →
    requestRow H v owner r = some t
  fingerprint : ∀ owner, ∀ r ∈ keys, ∀ r' ∈ keys, ∀ t t', r'.scope = r.scope → r'.key = r.key →
    fingerprintRow H v owner r = some t → fingerprintRow H v owner r' = some t' →
    r'.fingerprint = r.fingerprint

lemma requestRow_congr {v : Tables} {r : RequestKey} (hscope : r'.scope = r.scope)
    (hkey : r'.key = r.key) : requestRow H v owner r' = requestRow H v owner r := by
  rw [requestRow, requestRow, RequestKey.requestRowKey, RequestKey.requestRowKey, hscope, hkey]

/-- No receipt goes under the commands that keep versions. -/
lemma Effect.kept_key (h : Effect H hist e db) (hc : e.cmd.keeps = true) {t : Uuid}
    {source : SourceId} {k : String} (hk : keyOf e.before owner source k = some t) :
    keyOf db owner source k = some t := by
  cases h with
  | refused | replayed | live => exact hk
  | admitted _ _ h =>
    rcases h.key owner source k with hsame | ⟨hnone, -⟩
    · exact hsame.trans hk
    · exact absurd (hnone.symm.trans hk) (by simp)
  | forgotten h | restored h =>
    obtain ⟨-, -, -, -, hkeys⟩ := h
    exact (congrFun (congrFun (congrFun hkeys owner) source) k).trans hk
  | erased | erasedSeries | transferred => cases hc

variable {since n : ℕ}

section Kept

variable {owner t : Uuid} {r r' : RequestKey} {i j : ℕ} {db' : Tables}

section

variable (h : Run (Effect H) db hist) (hkeeps : ∀ e ∈ hist, e.cmd.keeps = true)
include h hkeeps

lemma Run.kept_key (hij : i ≤ j) (hj : j ≤ hist.length) {source : SourceId} {k : String}
    (hk : keyOf (stateAt hist db i) owner source k = some t) :
    keyOf (stateAt hist db j) owner source k = some t :=
  h.persist (fun _ e _ hsuf _ hk heff => heff.kept_key (hkeeps e (hsuf.subset List.mem_cons_self))
    hk) hij hj hk

lemma Run.kept_version (hij : i ≤ j) (hj : j ≤ hist.length) {handle : Uuid}
    (hm : ∃ m, memoryOf (stateAt hist db i) t = some m ∧ m.handle = handle ∧ m.ownerId = owner) :
    ∃ m, memoryOf (stateAt hist db j) t = some m ∧ m.handle = handle ∧ m.ownerId = owner := by
  refine h.persist (Q := fun v => ∃ m, memoryOf v t = some m ∧ m.handle = handle ∧
    m.ownerId = owner) ?_ hij hj hm
  rintro older e db' hsuf - ⟨m, hmem, rfl, rfl⟩ heff
  exact heff.kept_version (hkeeps e (hsuf.subset List.mem_cons_self)) hmem

/-- Where receipts are kept, an admission claims a key that was free. -/
lemma Claim.free (hclaim : Claim H hist db since owner r t db') :
    requestRow H db owner r = none ∧ requestRow H db' owner r = some t ∧
      (fingerprintRow H db' owner r = some t ∨
        ∃ n ≤ hist.length, fingerprintRow H (stateAt hist db n) owner r ≠ none) := by
  cases hclaim with
  | claimed hfree hrow hfingerprint =>
    refine ⟨hfree, hrow, hfingerprint.imp_right ?_⟩
    rintro ⟨n, hsaw⟩
    exact ⟨n, hsaw.ended, hsaw.holds⟩
  | lost hij hseen hgone =>
    obtain ⟨u, hu⟩ := Option.ne_none_iff_exists'.1 hseen.holds
    exact absurd (hgone.holds.symm.trans (Run.kept_key h hkeeps hij hgone.ended hu)) (by simp)

end

variable {position : Option ℕ}

/-- A row of the ledger is left alone, or claimed as one of the rows of the admission's
request key. -/
lemma Admits.ledger_key {s s' : Store} {p : Prepared} (h : Admits H s p position s') (owner : Uuid)
    (scope : KeyScope) (k : String) :
    s'.key owner (.ledger scope) k = s.key owner (.ledger scope) k ∨
      (s'.key owner (.ledger scope) k = some p.t ∧ owner = p.owner ∧
        ∃ r, p.draft.request = some r ∧ scope = r.scope ∧
          (k = r.requestRowKey H.blake3 ∨ k = r.fingerprintRowKey H.blake3)) := by
  rcases h.key owner (.ledger scope) k with hsame | ⟨-, hnew, ho, hmem⟩
  · exact .inl hsame
  refine .inr ⟨hnew, ho, ?_⟩
  rcases hr : p.draft.request with _ | r
  · simp only [Prepared.claims, hr] at hmem
    split at hmem <;> simp_all
  · simp only [Prepared.claims, hr, List.mem_cons, Prod.mk.injEq, SourceId.ledger.injEq,
      List.not_mem_nil, or_false] at hmem
    rcases hmem with ⟨hs, hk⟩ | ⟨hs, hk⟩
    · exact ⟨r, rfl, hs, .inl hk⟩
    · exact ⟨r, rfl, hs, .inr hk⟩

/-- A fingerprint row is left alone, or it is the one of the admission's request. -/
lemma Admits.fingerprintRow {p : Prepared} (h : Admits H (store db) p position (store db'))
    (hb : NoCollision H keys) (hp : ∀ q, p.draft.request = some q → q ∈ keys) (owner : Uuid)
    {r : RequestKey} (hr : r ∈ keys) :
    fingerprintRow H db' owner r = fingerprintRow H db owner r ∨
      (fingerprintRow H db' owner r = some p.t ∧ owner = p.owner ∧
        ∃ q, p.draft.request = some q ∧ r.scope = q.scope ∧ r.key = q.key ∧
          r.fingerprint = q.fingerprint) := by
  rcases h.ledger_key owner r.scope (r.fingerprintRowKey H.blake3) with
    hsame | ⟨hnew, ho, q, hq, hs, hk | hk⟩
  · exact .inl hsame
  · exact absurd hk.symm (requestRowKey_ne_fingerprintRowKey _ _ _)
  · obtain ⟨hkey, hfp⟩ := hb.fingerprintRowKey_inj hr (hp q hq) hk
    exact .inr ⟨hnew, ho, q, hq, hs, hkey, hfp⟩

lemma Effect.keysAgree (h : Effect H hist e db) (hb : NoCollision H keys)
    (hrun : Run (Effect H) e.before hist) (hkeeps : ∀ d ∈ e :: hist, d.cmd.keeps = true)
    (hkeyed : ∀ r, e.cmd.request = some r → r ∈ keys) (ha : KeysAgree H keys e.before) :
    KeysAgree H keys db := by
  obtain ⟨hc, hpast⟩ := List.forall_mem_cons.1 hkeeps
  have hkept : ∀ {owner source k t}, keyOf e.before owner source k = some t →
      keyOf db owner source k = some t := fun hk => h.kept_key hc hk
  have hsame : (store db).key = (store e.before).key → KeysAgree H keys db := by
    intro heq
    have hrow : ∀ owner r, fingerprintRow H db owner r = fingerprintRow H e.before owner r :=
      fun owner r => congrFun (congrFun (congrFun heq owner) _) _
    refine ⟨fun owner r hr t ht => hkept (ha.request owner r hr t (hrow owner r ▸ ht)), ?_⟩
    intro owner r hr r' hr' t t' hs hk ht ht'
    exact ha.fingerprint owner r hr r' hr' t t' hs hk (hrow owner r ▸ ht) (hrow owner r' ▸ ht')
  cases h with
  | refused | replayed | live => exact ha
  | forgotten h | restored h =>
    obtain ⟨-, -, -, -, hkeys⟩ := h
    exact hsame hkeys
  | erased | erasedSeries | transferred => cases hc
  | @admitted c since before _ p position howner hrequest h hclaim hplaced =>
    -- before the claim, no fingerprint row of the claimed key was there
    have hnone : ∀ {q : RequestKey}, p.draft.request = some q → ∀ r ∈ keys,
        r.scope = q.scope → r.key = q.key → ∀ t, fingerprintRow H before p.owner r ≠ some t := by
      intro q hq r hr hs hk t ht
      have hfree := (Claim.free hrun hpast (hclaim q (hrequest ▸ hq))).1
      have := ha.request p.owner r hr t ht
      rw [requestRow_congr hs hk, howner] at this
      exact absurd (hfree.symm.trans this) (by simp)
    have hfp := h.fingerprintRow hb fun q hq => hkeyed q (hrequest ▸ hq)
    constructor
    · intro owner r hr t ht
      rcases hfp owner hr with hrow | ⟨hnew, rfl, q, hq, hs, hk, -⟩
      · exact hkept (ha.request owner r hr t (hrow ▸ ht))
      · rw [requestRow_congr hs hk, howner]
        have hclaimed := (Claim.free hrun hpast (hclaim q (hrequest ▸ hq))).2.1
        rw [hclaimed, ← hnew, ht]
    · intro owner r hr r' hr' t t' hs hk ht ht'
      rcases hfp owner hr with hrow | ⟨hnew, rfl, q, hq, hqs, hqk, hqf⟩ <;>
        rcases hfp _ hr' with hrow' | ⟨hnew', ho', q', hq', hqs', hqk', hqf'⟩
      · exact ha.fingerprint owner r hr r' hr' t t' hs hk (hrow ▸ ht) (hrow' ▸ ht')
      · subst ho'
        exact absurd (hrow ▸ ht) (hnone hq' r hr (hs.symm.trans hqs') (hk.symm.trans hqk') t)
      · exact absurd (hrow' ▸ ht') (hnone hq r' hr' (hs.trans hqs) (hk.trans hqk) t')
      · obtain rfl := Option.mem_unique hq hq'
        exact hqf'.trans hqf.symm

/-- A run that keeps its receipts, with no collision on the keys it uses. -/
structure KeyedRun (H : Hashes) (keys : Set RequestKey) (db : Tables) (hist : List Answer) : Prop
    where
  run : Run (Effect H) db hist
  keeps : ∀ e ∈ hist, e.cmd.keeps = true
  noCollision : NoCollision H keys
  keyed : Keyed keys hist

lemma KeyedRun.of_suffix (h : KeyedRun H keys db hist) (hsuf : older <:+ hist)
    (hrun : Run (Effect H) db' older) : KeyedRun H keys db' older :=
  ⟨hrun, fun d hd => h.keeps d (hsuf.subset hd), h.noCollision,
    fun d hd => h.keyed d (hsuf.subset hd)⟩

lemma KeyedRun.keysAgree (h : KeyedRun H keys db hist) : KeysAgree H keys db := by
  obtain ⟨hrun, hkeeps, hb, hkeyed⟩ := h
  induction hrun with
  | nil => exact ⟨fun _ _ _ _ h => by simp [fingerprintRow, keyOf] at h,
      fun _ _ _ _ _ _ _ _ _ h => by simp [fingerprintRow, keyOf] at h⟩
  | step hrun hbefore heff ih =>
    subst hbefore
    exact heff.keysAgree hb hrun hkeeps (hkeyed _ List.mem_cons_self)
      (ih (fun d hd => hkeeps d (List.mem_cons_of_mem _ hd))
        fun d hd => hkeyed d (List.mem_cons_of_mem _ hd))

/-- Answer `i` claimed the key of a request for the version `o`: the key was free, and from
the answer on its rows name the version. -/
structure KeyClaimed (H : Hashes) (hist : List Answer) (db : Tables) (i : ℕ) (owner : Uuid)
    (r : RequestKey) (o : FactIngestOutcome) : Prop where
  free : requestRow H (stateAt hist db i) owner r = none
  request : ∀ n, i < n → n ≤ hist.length →
    requestRow H (stateAt hist db n) owner r = some o.memoryId
  fingerprint : ∀ n, i < n → n ≤ hist.length →
    fingerprintRow H (stateAt hist db n) owner r = some o.memoryId
  version : ∀ n, i < n → n ≤ hist.length → ∃ m,
    memoryOf (stateAt hist db n) o.memoryId = some m ∧ m.handle = o.handle ∧ m.ownerId = owner

lemma KeyedRun.claimed (h : KeyedRun H keys db hist)
    (hi : answer hist i = some e) (hr : e.cmd.request = some r) {o : FactIngestOutcome}
    {expected : Option Uuid} (hres : e.result = .ok (.admitted o expected position)) :
    KeyClaimed H hist db i e.cmd.owner r o := by
  obtain ⟨older, -, hsuf, hbefore, hold, heff⟩ := h.run.effect_of_answer hi
  have hpast := h.of_suffix ((List.suffix_cons _ _).trans hsuf) hold
  generalize hdb : stateAt hist db (i + 1) = db' at heff
  cases heff with
  | @admitted c since before _ p position howner hrequest hadm hclaim hplaced =>
    obtain ⟨rfl, -, -⟩ : _ ∧ _ ∧ _ := by simpa using hres
    obtain ⟨hfree, hrow, hfp⟩ := Claim.free hold hpast.keeps (hclaim r hr)
    have hfp' : fingerprintRow H db' c.owner r = some p.t := by
      rcases hfp with hfp | ⟨k, hk, hseen⟩
      · exact hfp
      -- a fingerprint row that was there before means a request row that was
      · obtain ⟨u, hu⟩ := Option.ne_none_iff_exists'.1 hseen
        obtain ⟨first, -, hsuf', hrun'⟩ := hold.at_state hk
        have hreq := (hpast.of_suffix hsuf' hrun').keysAgree.request c.owner r
          (h.keyed _ (mem_of_answer hi) r hr) u hu
        have hlast := Run.kept_key hold hpast.keeps hk le_rfl hreq
        rw [stateAt_length] at hlast
        exact absurd (hfree.symm.trans hlast) (by simp)
    refine ⟨hbefore ▸ hfree, fun n hin hn => Run.kept_key h.run h.keeps hin hn (hdb ▸ hrow),
      fun n hin hn => Run.kept_key h.run h.keeps hin hn (hdb ▸ hfp'),
      fun n hin hn => Run.kept_version h.run h.keeps hin hn ⟨p.row, ?_, rfl, howner⟩⟩
    rw [hdb]
    exact (congrFun hadm.memory p.t).trans (Function.update_self ..)
  | refused | replayed => cases hres
  | forgotten | restored | live | erased | erasedSeries | transferred => cases hr

end Kept

lemma Saw.at_run (db : Tables) {P : Tables → Prop} (h : Saw older e.before since n P)
    (hsuf : (e :: older) <:+ hist) : since ≤ n ∧ n ≤ older.length ∧ P (stateAt hist db n) :=
  ⟨h.after, h.ended, stateAt_of_suffix db hsuf h.ended ▸ h.holds⟩

/-- The version a request builds on is ready for it, with the pins a fork copies. -/
def Command.grounded (v : Tables) (c : Command) : Bool :=
  c.baseReady v && (c.copiedPins v).all fun t => (memoryOf v t).isSome

section Claimed

variable {owner : Uuid} {r r' : RequestKey} {o : FactIngestOutcome} {i j : ℕ}
variable {e' : Answer} {older : List Answer}

/-- The request row of the key is seen only after the claim, with its version. -/
lemma KeyClaimed.seen (hk : KeyClaimed H hist db i owner r o) (h : KeyedRun H keys db hist)
    (hi : i ≤ hist.length) (hn : n ≤ hist.length)
    {u : Uuid} (hu : requestRow H (stateAt hist db n) owner r = some u) :
    i < n ∧ u = o.memoryId := by
  have hin : i < n := by
    by_contra hle
    have hlate := Run.kept_key h.run h.keeps (Nat.le_of_not_lt hle) hi hu
    exact absurd (hk.free.symm.trans hlate) (by simp)
  exact ⟨hin, Option.some.inj (hu.symm.trans (hk.request n hin hn))⟩

variable {o' : FactIngestOutcome}

/-- What a later look at the rows of a claimed key finds. -/
lemma KeyClaimed.judged (hk : KeyClaimed H hist db i owner r o) (h : KeyedRun H keys db hist)
    (hr : r ∈ keys) (hr' : r' ∈ keys) (hi : i ≤ hist.length) (hsuf : (e' :: older) <:+ hist)
    (hscope : r'.scope = r.scope) (hkey : r'.key = r.key) {equal : Bool}
    (hj : Judged H older e'.before e'.since owner r' o' equal) :
    o'.memoryId = o.memoryId ∧ o'.handle = o.handle ∧
      equal = decide (r'.fingerprint = r.fingerprint) ∧
      ∃ n, i < n ∧ e'.since ≤ n ∧ n ≤ older.length ∧
        (memoryOf (stateAt hist db n) o.memoryId).map (·.forgotten) = some o'.forgotten := by
  obtain ⟨n₁, n₂, n₃, h12, h23, hrow, hver, hfp⟩ := hj
  obtain ⟨-, hn₁, hrow⟩ := hrow.at_run db hsuf
  obtain ⟨hafter, hn₂, m, hm, hhandle, hforgotten⟩ := hver.at_run db hsuf
  obtain ⟨-, hn₃, hfp⟩ := hfp.at_run db hsuf
  have hlen : older.length ≤ hist.length :=
    ((List.suffix_cons e' older).trans hsuf).length_le
  rw [requestRow_congr hscope hkey] at hrow
  obtain ⟨hin, hid⟩ := hk.seen h hi (hn₁.trans hlen) hrow
  rw [hid] at hm hfp
  have hin₂ : i < n₂ := hin.trans_le h12
  obtain ⟨hm, -⟩ := Option.filter_eq_some_iff.1 hm
  obtain ⟨m', hm', hhandle', -⟩ := hk.version n₂ hin₂ (hn₂.trans hlen)
  obtain rfl := Option.mem_unique hm hm'
  refine ⟨hid, hhandle.symm.trans hhandle', ?_, n₂, hin₂, hafter, hn₂, ?_⟩
  · rw [hfp, decide_eq_decide]
    obtain ⟨first, -, hsuf', hrun'⟩ := h.run.at_state (hn₃.trans hlen)
    have hagree := (h.of_suffix hsuf' hrun').keysAgree
    have hfp' := hk.fingerprint n₃ (hin₂.trans_le h23) (hn₃.trans hlen)
    refine ⟨hagree.fingerprint _ r hr r' hr' _ _ hscope hkey hfp', fun heq => ?_⟩
    rwa [fingerprintRow, RequestKey.fingerprintRowKey, hscope, hkey, heq]
  · rw [hm, Option.map_some, hforgotten]

/-- Why a request under a claimed key is refused. -/
lemma KeyClaimed.refused {c : Command} {before : Tables} {err : StorageError}
    (hk : KeyClaimed H hist db i c.owner r o) (h : KeyedRun H keys db hist) (hr : r ∈ keys)
    (hr' : r' ∈ keys) (hi : i ≤ hist.length)
    (hsuf : (⟨c, since, before, .error err⟩ :: older) <:+ hist) (hscope : r'.scope = r.scope)
    (hkey : r'.key = r.key) (hrefused : Refusal H older before since c r' err) :
    (r'.fingerprint ≠ r.fingerprint ∧ err = .idempotencyConflict r'.key o.memoryId) ∨
      c.malformed = some err ∨
      (∃ n, since ≤ n ∧ n ≤ older.length ∧ c.grounded (stateAt hist db n) = false) ∨
      (∃ message, err = .panicked message) ∨ since ≤ i ∧ err.ofAdmission = true := by
  have hlen : older.length ≤ hist.length :=
    ((List.suffix_cons _ older).trans hsuf).length_le
  have hrow' : ∀ v, requestRow H v c.owner r' = requestRow H v c.owner r := fun _ =>
    requestRow_congr hscope hkey
  cases hrefused with
  | malformed hbad => exact .inr (.inl hbad)
  | @base _ n hsaw =>
    obtain ⟨hsince, hn, hno⟩ := hsaw.at_run db hsuf
    exact .inr (.inr (.inl ⟨n, hsince, hn, by simp [Command.grounded, hno]⟩))
  | @copied _ n₁ n₂ u h12 hpin hno =>
    obtain ⟨hsince, hn₁, hpin⟩ := hpin.at_run db hsuf
    obtain ⟨-, hn₂, hno⟩ := hno.at_run db hsuf
    refine .inr (.inr (.inl ⟨n₁, hsince, hn₁, ?_⟩))
    -- a pin that is stored when it is read stays stored
    have hgone : memoryOf (stateAt hist db n₁) u = none := by
      by_contra hsome
      obtain ⟨m, hm⟩ := Option.ne_none_iff_exists'.1 hsome
      obtain ⟨m', hm', -⟩ := Run.kept_version h.run h.keeps h12 (hn₂.trans hlen) ⟨m, hm, rfl, rfl⟩
      exact absurd (hno.symm.trans hm') (by simp)
    rw [Command.grounded, Bool.and_eq_false_iff, List.all_eq_false]
    exact .inr ⟨u, hpin, by simp [hgone]⟩
  | @unclaimed _ n hsaw hown =>
    obtain ⟨hsince, hn, hnone⟩ := hsaw.at_run db hsuf
    refine .inr (.inr (.inr (.inr ⟨?_, hown⟩)))
    by_contra hlt
    have hin : i < n := Nat.lt_of_lt_of_le (Nat.lt_of_not_le hlt) hsince
    exact absurd (hnone.symm.trans ((hrow' _).trans (hk.request n hin (hn.trans hlen)))) (by simp)
  | @dangling _ n₁ n₂ u h12 hrow hno =>
    obtain ⟨-, hn₁, hrow⟩ := hrow.at_run db hsuf
    obtain ⟨-, hn₂, hno⟩ := hno.at_run db hsuf
    obtain ⟨hin, rfl⟩ := hk.seen h hi (hn₁.trans hlen) ((hrow' _).symm.trans hrow)
    obtain ⟨m, hm, -, ho⟩ := hk.version n₂ (hin.trans_le h12) (hn₂.trans hlen)
    simp [ownedMemory, hm, ho] at hno
  | panicked => exact .inr (.inr (.inr (.inl ⟨_, rfl⟩)))
  | @conflict o' hconflict =>
    obtain ⟨hid, -, hfp, -⟩ := hk.judged h hr hr' hi hsuf hscope hkey hconflict
    exact .inl ⟨by simpa using hfp, by rw [hid]⟩

/-- Only one answer claims a key. -/
lemma KeyClaimed.once (hk : KeyClaimed H hist db i owner r o)
    (hk' : KeyClaimed H hist db j owner r' o') (hscope : r'.scope = r.scope) (hkey : r'.key = r.key)
    (hi : i ≤ hist.length) (hj : j ≤ hist.length) : i = j := by
  have hrow : ∀ v, requestRow H v owner r' = requestRow H v owner r := fun _ =>
    requestRow_congr hscope hkey
  rcases Nat.lt_trichotomy i j with hlt | heq | hlt
  · exact absurd (hk'.free.symm.trans ((hrow _).trans (hk.request j hlt hj))) (by simp)
  · exact heq
  · exact absurd (hk.free.symm.trans ((hrow _).symm.trans (hk'.request i hlt hi))) (by simp)

end Claimed

end Proxiima.Memory
