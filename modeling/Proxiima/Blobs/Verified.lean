import Proxiima.Blobs.System

/-!
# The blob transactions do what they say

Each command is run on what it has seen under its locks. A transition pins the row of its upload
before it decides, so the debts it writes are those of an upload that is over when it commits.
-/

namespace Proxiima.Blobs

open ReadCommitted ReadCommitted.Guarded Prog

variable {H : Hash} {st : Stand Row Lock} {c : Command} {resp : Response}

lemma covers_row {ls : List Lock} {k : Key} (h : .row k ∈ ls) (o : Option (Row k)) :
    (blobs H).Covers ls k o :=
  covers_of_row h (TableLock.conflict_row_self k) o

/-- A row that is locked and then read. -/
lemma pinned_locked (st : Stand Row Lock) (k : Key) (d : Tables) :
    (blobs H).Pinned ((st.lock (.row k)).see d) k (get d k) :=
  pinned_see (covers_row List.mem_cons_self _)

/-- A transaction ends in its effect when it has to do with every row it wrote. -/
lemma ending_of_changed
    (hans : ∀ during : Tables → Prop, (∀ p ∈ st.seen, during p.2) → Answered c resp during)
    (h : ∀ d, (blobs H).Possible st d → (∀ p ∈ st.seen, Valid p.2) → ∀ k ∈ st.writes.keys,
      Changed c (st.writes ++ d) k (get d k) (get (st.writes ++ d) k)) :
    (blobs H).Ending c resp st := by
  intro d during hd hseen
  refine ⟨hans during hseen, fun hvalid k => ?_⟩
  by_cases hk : k ∈ st.writes.keys
  · exact .inr (h d hd (fun p hp => hvalid _ (hseen p hp)) k hk)
  · exact .inl (get_append_of_notMem hk)

lemma ending_of_nil (hw : st.writes = [])
    (hans : ∀ during : Tables → Prop, (∀ p ∈ st.seen, during p.2) → Answered c resp during) :
    (blobs H).Ending c resp st :=
  ending_of_changed hans fun _ _ _ k hk => by simp [hw] at hk

/-! ### Steps that transactions share -/

abbrev Post (α : Type) : Type := α → Stand Row Lock → Prop

lemma wp_now {Q : Post ℕ} (h : ∀ t, Q t st) : (blobs H).Wp now Q st :=
  fun x _ => h x.now

variable {keys : List ObjectKey} {o : Option DebtSlot}

/-- The rows of a transaction's keys, locked in the order of the list. -/
lemma wp_lockObjectKeys {Q : Post PUnit}
    (h : ∀ st', st'.Extends st → keys.map (objectKeyLock H) ⊆ st'.held → st'.seen = st.seen →
      Q ⟨⟩ st') :
    (blobs H).Wp (lockObjectKeys H keys) Q st := wp_lockAll h

variable {owner u : Uuid} {scope : List Uuid} {r : BlobUpload} {Q : Post Unit}
  {store : ObjectStoreId} {key : ObjectKey}

lemma wp_lockFenceAndKeys {Q : Post PUnit}
    (h : ∀ st', st'.writes = st.writes → st'.seen = st.seen → Q ⟨⟩ st') :
    (blobs H).Wp (lockFenceAndKeys H owner keys) Q st := by
  simp only [lockFenceAndKeys, lockOwnerFenceShared, wp_bind, wp_lock]
  exact wp_lockObjectKeys fun st' hst _ hseen => h st' hst.writes hseen

/-- The row of the upload stays what it is found to be. -/
lemma wp_loadForUpdate {Q : Post (Option BlobUpload)}
    (hw : .upload u ∉ st.writes.keys)
    (h : ∀ d st', st'.writes = st.writes → (blobs H).Pinned st' (.upload u) (get d (.upload u)) →
      Q (owned d scope owner u) st') : (blobs H).Wp (loadForUpdate scope owner u) Q st := by
  simp only [loadForUpdate, wp_bind, wp_lock, wp_view, wp_pure, Stand.writes_lock]
  intro d _
  rw [owned, upload, get_append_of_notMem hw]
  exact h d _ rfl (pinned_locked st _ d)

lemma wp_writeUpload {r' : BlobUpload} (hrow : (blobs H).Pinned st (.upload u) (some (.row r)))
    (hlegal : r.Legal r')
    (hblob : r'.blobId = r.blobId ∨ ∃ b, r'.blobId = some b ∧ .share (.blob b) ∈ st.held)
    (h : ∀ st', st'.writes = ⟨.upload u, some (.row r')⟩ :: st.writes → st.seen ⊆ st'.seen →
      Q () st') : (blobs H).Wp (writeUpload u r') Q st := by
  refine wp_write_row fun d hd => ⟨?_, ?_, h _ rfl (List.subset_cons_self _ _)⟩
  · rw [hrow d hd]
    change (if r'.blobId = r.blobId then [] else _) ⊆ _
    rcases hblob with hsame | ⟨b, hb, hshare⟩
    · simp [hsame]
    · split
      · exact List.nil_subset _
      · simp [hb, hshare]
  · rw [hrow d hd]
    exact hlegal

lemma wp_oweKey {owner : Option Uuid} {t : ℕ} (hfresh : .debt store key ∉ st.writes.keys)
    (h : ∀ o st', st'.writes = ⟨.debt store key, some (owe o owner t)⟩ :: st.writes →
      st.held ⊆ st'.held → st.seen ⊆ st'.seen → (blobs H).Pinned st' (.debt store key) o →
      Q () st') : (blobs H).Wp (oweKey store owner t key) Q st := by
  simp only [oweKey, wp_bind, wp_lock, wp_view, Stand.writes_lock]
  intro d₁ hd₁
  have hpin := pinned_locked (H := H) st (.debt store key) d₁
  rw [get_append_of_notMem hfresh]
  refine wp_write_row fun d₂ hd₂ => ⟨by simp [blobs, guards], ?_, ?_⟩
  · rw [hpin d₂ hd₂]
    rfl
  · refine h _ _ rfl ?_ ?_ (hpin.of_seen (List.subset_cons_self _ _))
    · exact fun l hl => List.mem_append_right _ (List.mem_cons_of_mem _ hl)
    · exact fun p hp => List.mem_cons_of_mem _ (List.mem_cons_of_mem _ hp)

/-- A debt that is owed for an upload that is over. -/
lemma changed_owe {after : Tables} {owner : Option Uuid} {t : ℕ} (hack : c.acknowledges = none)
    (hdead : ∀ u, key = .objects u → Dead after u ∨
      ∃ u' p, c.stages = some (u', p) ∧ p.objectKey = key ∧ upload after u' = none) :
    Changed c after (.debt store key) o (some (owe o owner t)) := by
  refine ⟨fun _ _ _ h => ?_, fun h => ?_, fun _ => hdead⟩
  · rw [hack] at h
    cases h
  · cases h

/-- **An ended upload owes both its keys**: its row and the two debts are written together. -/
lemma wp_oweTerminalUploadKeys {r' : BlobUpload} {Q : Post (List ColdPurgeEntry)}
    (hw : st.writes = [⟨.upload u, some (.row r')⟩])
    (hrow : (blobs H).Pinned st (.upload u) (some (.row r))) (hlive : r'.status.live = false)
    (hkey : r'.objectKey = r.objectKey ∨ ∃ p, c.stages = some (u, p) ∧ r'.objectKey = p.objectKey)
    (hack : c.acknowledges = none) (hans : ∀ resp during, Answered c resp during)
    (h : ∀ owed st', (∀ resp, (blobs H).Ending c resp st') → Q owed st') :
    (blobs H).Wp (oweTerminalUploadKeys store owner u) Q st := by
  simp only [oweTerminalUploadKeys, uploadTransferKey, uploadedBlobObjectKey, wp_bind, wp_pure]
  refine wp_now fun t => wp_oweKey (by simp [hw]) fun o₁ st₁ hw₁ _ hseen₁ hpin₁ => ?_
  refine wp_oweKey (by simp [hw₁, hw]) fun o₂ st₂ hw₂ _ hseen₂ hpin₂ => h _ _ fun resp => ?_
  rw [hw₁, hw] at hw₂
  refine ending_of_changed (fun _ _ => hans _ _) fun d hd _ k hk => ?_
  have hrow₂ : get d (.upload u) = some (.row r) :=
    hrow d fun p hp => hd p (hseen₂ (hseen₁ hp))
  have hafter : get (st₂.writes ++ d) (.upload u) = some (.row r') := by
    simp [hw₂, get_cons_ne]
  have hdead : Dead (st₂.writes ++ d) u := ⟨_, hafter, by simp [UploadSlot.ended, hlive]⟩
  have hdebts : ∀ (u' : Uuid), .objects u = ObjectKey.objects u' → Dead (st₂.writes ++ d) u' := by
    rintro u' ⟨⟩
    exact hdead
  obtain rfl | rfl | rfl : k = .debt store (.objects u) ∨ k = .debt store (.pending u) ∨
      k = .upload u := by simpa [hw₂] using hk
  · rw [hpin₂ d hd, hw₂]
    simp only [List.cons_append, get_cons_self]
    rw [← List.cons_append, ← List.cons_append, ← List.cons_append, ← hw₂]
    exact changed_owe hack fun u' h => .inl (hdebts u' h)
  · have hget : get (st₂.writes ++ d) (.debt store (.pending u)) =
      some (owe o₁ (some owner) t) := by
      simp [hw₂, get_cons_ne]
    rw [hpin₁.of_seen hseen₂ d hd, hget]
    exact changed_owe hack fun u' h => nomatch h
  · rw [hrow₂, hafter]
    refine ⟨hkey.imp id .inr, fun h => ?_, fun h => ?_⟩
    · simp [h, UploadStatus.live] at hlive
    · simp [h, UploadStatus.live] at hlive

/-! ### Transactions that only read -/

lemma correct_loadUpload (scope : List Uuid) (owner u : Uuid) :
    (blobs H).Correct (.loadUpload scope owner u) := by
  change (blobs H).Wp (body H (.loadUpload scope owner u)) _ _
  simp only [body, loadUploadOptional, wp_bind, wp_view, wp_pure]
  intro d _
  refine ending_of_nil rfl fun during hseen => ?_
  cases hr : owned (Stand.start.writes ++ d) scope owner u with
  | none => trivial
  | some r => exact ⟨d, hseen (_, d) List.mem_cons_self, (owned_eq_some.1 hr).1⟩

lemma correct_loadStaged (scope : List Uuid) (owner u blob : Uuid) :
    (blobs H).Correct (.loadStaged scope owner u blob) := by
  change (blobs H).Wp (body H (.loadStaged scope owner u blob)) _ _
  simp only [body, loadStagedPayload, wp_bind, wp_view]
  intro d _
  split
  · simp only [wp_bind, wp_failIf]
    intro _
    split
    · trivial
    · simp only [wp_bind, wp_failIf, wp_pure]
      exact fun _ => ending_of_nil rfl fun _ _ => trivial
  · trivial

lemma correct_sweepCandidates (store : ObjectStoreId) (limit : ℕ) :
    (blobs H).Correct (.sweepCandidates store limit) := by
  change (blobs H).Wp (body H (.sweepCandidates store limit)) _ _
  simp only [body, sweepCandidates, wp_bind, wp_view, wp_pure]
  exact wp_now fun t d _ => ending_of_nil rfl fun _ _ => trivial

lemma correct_dueKeys (store : ObjectStoreId) (batch : ℕ) :
    (blobs H).Correct (.dueKeys store batch) := by
  change (blobs H).Wp (body H (.dueKeys store batch)) _ _
  simp only [body, dueKeys, wp_bind, wp_view, wp_pure]
  exact wp_now fun t d _ => ending_of_nil rfl fun _ _ => trivial

lemma correct_observe (drain : ℕ) (store : ObjectStoreId) (key : ObjectKey) :
    (blobs H).Correct (.observe drain store key) := by
  change (blobs H).Wp (body H (.observe drain store key)) _ _
  simp only [body, observeDebt, wp_bind, wp_view, wp_pure]
  intro d _
  refine ending_of_nil rfl fun during hseen => ?_
  cases hdebt : debt (Stand.start.writes ++ d) store key with
  | none => trivial
  | some row =>
    refine ⟨d, hseen (_, d) List.mem_cons_self, fun h => ?_, rfl⟩
    cases hdebt.symm.trans h

/-! ### Acknowledging a delete -/

/-- An acknowledgement writes the version it has seen. -/
lemma wp_acknowledge {v : ℕ} {row : Option ColdPurgePending} (hw : st.writes = [])
    (hpin : (blobs H).Pinned st (.debt store key) o) (hv : stampOf o = v)
    (hack : c.acknowledges = some (store, key, v)) (hstage : debtOf o ≠ none)
    (hclear : row = none → ∃ delete, c = .clear delete store key v)
    (hans : ∀ resp during, Answered c resp during)
    (h : ∀ st', (∀ resp, (blobs H).Ending c resp st') → Q () st') :
    (blobs H).Wp (write [⟨.debt store key, some ⟨v + 1, row⟩⟩]) Q st := by
  subst hv
  refine wp_write_row fun d hd => ⟨by simp [blobs, guards], ?_, h _ fun resp => ?_⟩
  · rw [hpin d hd]
    rfl
  refine ending_of_changed (fun _ _ => hans _ _) fun d' hd' _ k hk => ?_
  obtain rfl : k = .debt store key := by simpa [hw] using hk
  rw [hpin d' (possible_put.1 hd').2]
  simp only [writes_put, hw, List.append_nil, List.cons_append, get_cons_self]
  refine ⟨fun store' key' v' h => ?_, hclear, fun h => absurd h hstage⟩
  obtain ⟨rfl, rfl, rfl⟩ : store = store' ∧ key = key' ∧ stampOf o = v' := by
    simpa [hack] using h
  exact ⟨rfl, rfl, rfl⟩

lemma correct_clear (delete : ℕ) (store : ObjectStoreId) (key : ObjectKey) (version : ℕ) :
    (blobs H).Correct (.clear delete store key version) := by
  change (blobs H).Wp (body H (.clear delete store key version)) _ _
  simp only [body, clearColdPurgePending, wp_bind, wp_lock, wp_view, wp_ite, wp_pure]
  intro d _
  refine ⟨fun hheld => ?_, fun _ => ending_of_nil rfl fun _ _ => trivial⟩
  obtain ⟨hsome, hv⟩ := hheld
  exact wp_acknowledge (c := .clear delete store key version) rfl
    (pinned_locked _ _ d) hv rfl (Option.isSome_iff_ne_none.1 hsome)
    (fun _ => ⟨delete, rfl⟩) (fun _ _ => trivial) fun _ h => h _

lemma correct_recordFailure (delete : ℕ) (store : ObjectStoreId) (key : ObjectKey) (version : ℕ)
    (backoff : PurgeBackoff) (error : String) :
    (blobs H).Correct (.recordFailure delete store key version backoff error) := by
  change (blobs H).Wp (body H (.recordFailure delete store key version backoff error)) _ _
  simp only [body, recordPurgeFailure, wp_bind, wp_lock, wp_view]
  refine wp_now fun t d _ => ?_
  split
  · rename_i r hr
    simp only [wp_ite, wp_bind, wp_pure]
    refine ⟨fun hv => ?_, fun _ => ending_of_nil rfl fun _ _ => trivial⟩
    refine wp_acknowledge (c := .recordFailure delete store key version backoff error) rfl
      (pinned_locked _ _ d) hv rfl (fun h => ?_) (fun h => ?_)
      (fun _ _ => trivial) fun _ h => h _
    · cases hr.symm.trans h
    · cases h
  · exact ending_of_nil rfl fun _ _ => trivial

/-! ### Transitions -/

lemma correct_prepare (scope : List Uuid) (store : ObjectStoreId) (owner u : Uuid)
    (req : PrepareUpload) : (blobs H).Correct (.prepare scope store owner u req) := by
  change (blobs H).Wp (body H (.prepare scope store owner u req)) _ _
  simp only [body, prepare, lockOwnerFenceShared, wp_bind, wp_lock, wp_pure]
  refine wp_now fun t => ?_
  simp only [wp_failIf, wp_view]
  intro _ d hd hnone
  have hpin := pinned_locked (H := H) (Stand.start.lock (ownerFence H owner false)) (.upload u) d
  replace hnone : get d (.upload u) = none := not_not.1 hnone
  rw [hnone] at hpin
  refine wp_write_row fun d' hd' => ⟨?_, ?_, ?_⟩
  · rw [hpin d' hd']
    simp [blobs, guards]
  · rw [hpin d' hd']
    exact ⟨rfl, rfl, rfl, rfl⟩
  refine ending_of_changed (fun _ _ => trivial) fun d'' hd'' _ k hk => ?_
  obtain rfl : k = .upload u := by simpa using hk
  rw [hpin d'' (possible_put.1 hd'').2]
  simp only [writes_put, List.cons_append, get_cons_self]
  exact ⟨rfl, rfl⟩

/-- A pending row expires. -/
lemma legal_expire (hp : r.status = .pending) (hhash : r.contentHash = none) :
    r.Legal r.expire := ⟨rfl, rfl, rfl, rfl, .expire hp rfl hhash hhash⟩

lemma correct_markExpired (scope : List Uuid) (store : ObjectStoreId) (owner u : Uuid) :
    (blobs H).Correct (.markExpired scope store owner u) := by
  change (blobs H).Wp (body H (.markExpired scope store owner u)) _ _
  simp only [body, markUploadExpired, wp_bind]
  refine wp_lockFenceAndKeys fun st₁ hw₁ _ => wp_loadForUpdate (by simp [hw₁])
    fun d st₂ hw₂ hrow => ?_
  rw [hw₁] at hw₂
  cases hr : owned d scope owner u with
  | none => trivial
  | some r =>
    rw [(owned_eq_some.1 hr).1] at hrow
    simp only [wp_ite, wp_bind, wp_pure]
    refine ⟨fun _ => ending_of_nil hw₂ fun _ _ => trivial, fun hp =>
      ⟨fun _ => ending_of_nil hw₂ fun _ _ => trivial, fun hhash => ?_⟩⟩
    refine wp_writeUpload hrow (legal_expire (not_not.1 hp) (not_not.1 hhash)) (.inl rfl)
      fun st₃ hw₃ hseen => ?_
    exact wp_oweTerminalUploadKeys (c := .markExpired scope store owner u)
      (hw₃.trans (congrArg _ hw₂))
      (hrow.of_seen hseen) rfl (.inl rfl) rfl (fun _ _ => trivial) fun _ _ h => h _

lemma correct_expireOne (store : ObjectStoreId) (owner u : Uuid) :
    (blobs H).Correct (.expireOne store owner u) := by
  change (blobs H).Wp (body H (.expireOne store owner u)) _ _
  simp only [body, expireOne, wp_bind, wp_call]
  refine wp_now fun t x _ => wp_lockFenceAndKeys fun st₁ hw₁ _ => ?_
  simp only [wp_ite, wp_pure, wp_bind, wp_lock, wp_view]
  refine ⟨fun _ => ending_of_nil hw₁ fun _ _ => trivial, fun _ d _ => ?_⟩
  have hpin := pinned_locked (H := H) st₁ (.upload u) d
  split
  · exact ending_of_nil hw₁ fun _ _ => trivial
  rename_i r hr
  rw [upload_eq_some, Stand.writes_lock, hw₁, Stand.writes_start, List.nil_append] at hr
  rw [hr] at hpin
  simp only [wp_ite, wp_bind, wp_pure]
  refine ⟨fun hexpired => ?_, fun _ => ending_of_nil hw₁ fun _ _ => trivial⟩
  obtain ⟨-, hexp⟩ := hexpired
  obtain ⟨hp, hhash⟩ : r.status = .pending ∧ r.contentHash = none := by
    simp only [expirable, Bool.and_eq_true, decide_eq_true_eq] at hexp
    exact hexp.1.1
  refine wp_writeUpload hpin (legal_expire hp hhash) (.inl rfl) fun st₃ hw₃ hseen => ?_
  exact wp_oweTerminalUploadKeys (c := .expireOne store owner u)
    (hw₃.trans (congrArg _ hw₁)) (hpin.of_seen hseen) rfl (.inl rfl) rfl (fun _ _ => trivial)
    fun _ _ h => h _

lemma correct_abort (scope : List Uuid) (store : ObjectStoreId) (owner u : Uuid) :
    (blobs H).Correct (.abort scope store owner u) := by
  change (blobs H).Wp (body H (.abort scope store owner u)) _ _
  simp only [body, commitAbort, wp_bind]
  refine wp_now fun t => wp_lockFenceAndKeys fun st₁ hw₁ _ =>
    wp_loadForUpdate (by simp [hw₁])
    fun d st₂ hw₂ hrow => ?_
  rw [hw₁] at hw₂
  cases hr : owned d scope owner u with
  | none => trivial
  | some r =>
    rw [(owned_eq_some.1 hr).1] at hrow
    cases hstatus : r.status with
    | completed | aborted | expired =>
      simp only [hstatus]
      exact ending_of_nil hw₂ fun _ _ => trivial
    | pending =>
      simp only [hstatus, wp_bind, wp_pure]
      refine wp_writeUpload hrow ⟨rfl, rfl, rfl, rfl, .abort hstatus rfl rfl⟩ (.inl rfl)
        fun st₃ hw₃ hseen => ?_
      exact wp_oweTerminalUploadKeys (c := .abort scope store owner u) (hw₃.trans (congrArg _ hw₂))
        (hrow.of_seen hseen) rfl (.inl rfl) rfl (fun _ _ => trivial) fun _ _ h => h _

/-- The debt of a row that is gone: whoever published the object owes it. -/
lemma wp_resolveErasedOwnerRow {p : UploadedBlobPayload} {o : Option UploadSlot}
    (hw : st.writes = []) (hrow : (blobs H).Pinned st (.upload u) o)
    (hstages : c.stages = some (u, p)) (hack : c.acknowledges = none)
    (hans : ∀ resp during, Answered c resp during)
    (h : ∀ st', (∀ resp, (blobs H).Ending c resp st') → Q () st') :
    (blobs H).Wp (resolveErasedOwnerRow store u p.objectKey) Q st := by
  simp only [resolveErasedOwnerRow, wp_bind]
  refine wp_now fun t => ?_
  simp only [wp_view, wp_ite, wp_pure]
  refine fun d hd => ⟨fun _ => h _ fun _ => ending_of_nil hw fun _ _ => hans _ _, fun hno => ?_⟩
  refine wp_oweKey (by simp [hw]) fun o₁ st₁ hw₁ _ hseen hpin => h _ fun _ => ?_
  -- nobody refers to the object, so neither does the row of the upload itself
  have hgone : upload d u = none := by
    by_contra hrow'
    obtain ⟨r, hr⟩ := Option.ne_none_iff_exists'.1 hrow'
    refine hno (List.any_eq_true.2 ⟨(u, r), ?_, by simp⟩)
    rwa [hw, List.nil_append, mem_uploads]
  refine ending_of_changed (fun _ _ => hans _ _) fun d' hd' _ k hk => ?_
  rw [Stand.writes_see, hw] at hw₁
  obtain rfl : k = .debt store p.objectKey := by simpa [hw₁] using hk
  have hsame : upload (st₁.writes ++ d') u = upload d u := by
    have hpast : (blobs H).Possible st d' := fun q hq => hd' q (hseen (List.mem_cons_of_mem _ hq))
    rw [upload, upload, hw₁, List.singleton_append, get_cons_ne _ _ (by simp), hrow d' hpast,
      hrow d hd]
  have hget : get (st₁.writes ++ d') (.debt store p.objectKey) = some (owe o₁ none t) := by
    simp [hw₁]
  rw [hpin d' hd', hget]
  exact changed_owe hack fun _ _ => .inr ⟨u, p, hstages, rfl, hsame.trans hgone⟩

lemma correct_stageLocator (scope : List Uuid) (store : ObjectStoreId) (owner u : Uuid)
    (loaded : UploadStatus) (p : UploadedBlobPayload) :
    (blobs H).Correct (.stageLocator scope store owner u loaded p) := by
  change (blobs H).Wp (body H (.stageLocator scope store owner u loaded p)) _ _
  simp only [body, commitStageLocator, wp_bind]
  refine wp_lockFenceAndKeys fun st₁ hw₁ _ => wp_loadForUpdate (by simp [hw₁])
    fun d st₂ hw₂ hrow => ?_
  rw [hw₁] at hw₂
  cases hr : owned d scope owner u with
  | none =>
    simp only [wp_bind, wp_pure]
    exact wp_resolveErasedOwnerRow (c := .stageLocator scope store owner u loaded p) hw₂ hrow rfl
      rfl (fun _ _ => trivial) fun _ h => h _
  | some r =>
    rw [(owned_eq_some.1 hr).1] at hrow
    simp only [wp_ite, wp_bind]
    refine ⟨fun hp => ?_, fun hp => ?_⟩
    · refine wp_writeUpload hrow ⟨rfl, rfl, rfl, rfl, .stage hp hp (by simp [BlobUpload.staged])⟩
        (.inl rfl) fun st₃ hw₃ hseen => ?_
      cases stageLocatorDecision loaded none 1 with
      | error e => trivial
      | ok decision =>
        refine ending_of_changed (fun _ _ => trivial) fun d' hd' _ k hk => ?_
        rw [hw₂] at hw₃
        obtain rfl : k = .upload u := by simpa [hw₃] using hk
        have hget : get (st₃.writes ++ d') (.upload u) = some (.row (r.staged p)) := by simp [hw₃]
        rw [hrow.of_seen hseen d' hd', hget]
        refine ⟨.inr (.inr ⟨p, rfl, rfl⟩), fun _ => ⟨p, rfl, rfl⟩, fun h => ?_⟩
        cases hp.symm.trans h
    · cases hstatus : r.status with
      | pending => exact absurd hstatus hp
      | completed =>
        cases hb : r.blobId with
        | none => simp [stageLocatorDecision, orRaise]
        | some b =>
          simp only [stageLocatorDecision, orRaise, wp_pure]
          exact ending_of_nil hw₂ fun _ _ => trivial
      | aborted | expired =>
        simp only [stageLocatorDecision, orRaise, wp_pure, wp_bind]
        refine wp_writeUpload hrow ⟨rfl, rfl, rfl, rfl, .repair (by simp [hstatus,
          UploadStatus.live]) rfl rfl⟩ (.inl rfl) fun st₃ hw₃ hseen => ?_
        exact wp_oweTerminalUploadKeys (c := .stageLocator scope store owner u loaded p)
          (hw₃.trans (congrArg _ hw₂)) (hrow.of_seen hseen)
          (by simp [BlobUpload.repaired, hstatus, UploadStatus.live]) (.inr ⟨p, rfl, rfl⟩) rfl
          (fun _ _ => trivial) fun _ _ h => h _

/-- The transaction has inserted blobs at most. -/
def InsertsBlobs (ws : Tables) : Prop :=
  ∀ k ∈ ws.keys, ∃ b row, k = .blob b ∧ ∀ d, get (ws ++ d) (.blob b) = some row

lemma wp_upsertBlob {hash : Digest} {Q : Post Uuid} (hw : st.writes = [])
    (h : ∀ b st', InsertsBlobs st'.writes → Q b st') :
    (blobs H).Wp (upsertBlob scope owner hash) Q st := by
  have hrest : ∀ st₁ : Stand Row Lock, st₁.writes = [] → InsertsBlobs st₁.writes :=
    fun st₁ hw₁ k hk => by simp [hw₁] at hk
  simp only [upsertBlob, requireStagedUpload, wp_bind, wp_view]
  intro d₁ _
  split
  · trivial
  simp only [wp_bind, wp_lock, wp_view]
  intro d₂ _
  split
  · trivial
  · trivial
  simp only [wp_pure]
  intro d₃ _
  split
  · exact h _ _ (hrest _ hw)
  simp only [wp_bind, wp_call, wp_lock, wp_view, wp_failIf, not_not]
  intro x _ d₄ _ hnone
  rw [Stand.writes_lock, Stand.writes_see, Stand.writes_see, Stand.writes_lock,
    Stand.writes_see, hw, List.nil_append] at hnone
  refine wp_write_row fun d₅ hd₅ => ⟨?_, ?_, h _ _ fun k hk => ?_⟩
  · rw [pinned_locked _ _ d₄ d₅ hd₅, hnone]
    exact List.nil_subset _
  · rw [pinned_locked _ _ d₄ d₅ hd₅, hnone]
    trivial
  · obtain rfl : k = .blob x.fresh := by simpa [hw] using hk
    exact ⟨x.fresh, ⟨owner, uploadedBlobSchemaId, hash⟩, rfl, fun d => by simp [hw]⟩

/-- Completion: the row refers to a blob of its content, which cannot go away meanwhile. -/
lemma wp_completeUploadInTx {blob : Uuid} (hst : InsertsBlobs st.writes)
    (hans : ∀ resp during, Answered c resp during)
    (h : ∀ st', (∀ resp, (blobs H).Ending c resp st') → Q () st') :
    (blobs H).Wp (completeUploadInTx H scope owner u blob) Q st := by
  -- blobs that were inserted need nothing
  have hblobs : ∀ k ∈ st.writes.keys, ∀ ws d, k ∉ ws.keys →
      Changed c (ws ++ (st.writes ++ d)) k (get d k) (get (ws ++ (st.writes ++ d)) k) := by
    intro k hk ws d hne
    obtain ⟨b, row, rfl, hrow⟩ := hst k hk
    rw [get_append_of_notMem hne, hrow d]
    cases get d (.blob b) <;> trivial
  have hnot : .upload u ∉ st.writes.keys := fun hk => by
    obtain ⟨b, row, heq, -⟩ := hst _ hk
    cases heq
  simp only [completeUploadInTx, lockOwnerFenceShared, wp_bind, wp_lock]
  refine wp_now fun t => wp_lockObjectKeys fun st₁ hst₁ _ _ => ?_
  have hw₁ : st₁.writes = st.writes := hst₁.writes
  refine wp_loadForUpdate (hw₁ ▸ hnot) fun d st₂ hw₂ hrow => ?_
  rw [hw₁] at hw₂
  cases hr : owned d scope owner u with
  | none => trivial
  | some r =>
    obtain ⟨hget, rfl, -⟩ := owned_eq_some.1 hr
    rw [hget] at hrow
    simp only [wp_ite, wp_bind]
    refine ⟨fun _ => ?_, fun hp => ?_⟩
    · cases (finishTransitionDecision r.status r.blobId blob 0).mapError (·.toBlobError) with
      | error e => trivial
      | ok decision =>
        refine h _ fun resp => ending_of_changed (fun _ _ => hans _ _) fun d' _ _ k hk => ?_
        rw [hw₂] at hk ⊢
        exact hblobs k hk [] d' List.not_mem_nil
    · cases hhash : r.contentHash with
      | none => trivial
      | some hash =>
        simp only [wp_bind, wp_lock, wp_view, wp_failIf, not_not]
        intro d₃ _ hblob
        have hpin : (blobs H).Pinned ((st₂.lock (.share (.blob blob))).see d₃) (.blob blob)
            (get d₃ (.blob blob)) :=
          pinned_see (covers_of_row List.mem_cons_self (TableLock.conflict_row_share _) _)
        refine wp_writeUpload (hrow.of_seen (List.subset_cons_self _ _)) ⟨rfl, rfl, rfl, rfl,
          .complete (not_not.1 hp) rfl (by simp [hhash]) rfl rfl⟩
          (.inr ⟨blob, rfl, List.mem_cons_self⟩) fun st₄ hw₄ hseen => h _ fun resp => ?_
        have hw : st₄.writes = [⟨.upload u, some (.row (r.complete u blob t))⟩] ++ st.writes :=
          hw₄.trans (congrArg _ hw₂)
        refine ending_of_changed (fun _ _ => hans _ _) fun d' hd' _ k hk => ?_
        rw [hw, List.append_assoc]
        obtain rfl | hk : k = .upload u ∨ k ∈ st.writes.keys := by simpa [hw] using hk
        · have hrow' := hrow.of_seen (fun q hq => hseen (List.mem_cons_of_mem _ hq)) d' hd'
          rw [hrow', List.singleton_append, get_cons_self]
          refine ⟨.inr (.inl rfl), fun hpend => ?_, fun _ => ⟨rfl, blob, hash, rfl, hhash, ?_⟩⟩
          · cases hpend
          rw [get_cons_ne _ _ (by simp), get_append_congr st.writes (hpin.of_seen hseen d' hd')]
          rwa [Stand.writes_lock, hw₂] at hblob
        · refine hblobs k hk _ d' fun hk' => hnot ?_
          obtain rfl : k = .upload u := List.mem_singleton.1 hk'
          exact hk

lemma correct_finish (scope : List Uuid) (owner u blob : Uuid) :
    (blobs H).Correct (.finish scope owner u blob) := by
  change (blobs H).Wp (body H (.finish scope owner u blob)) _ _
  simp only [body, wp_bind, wp_pure]
  exact wp_completeUploadInTx (c := .finish scope owner u blob) (fun _ hk => by cases hk)
    (fun _ _ => trivial) fun _ h => h _

lemma correct_completeAsFact (scope : List Uuid) (owner u : Uuid) (citation : Citation) :
    (blobs H).Correct (.completeAsFact scope owner u citation) := by
  change (blobs H).Wp (body H (.completeAsFact scope owner u citation)) _ _
  simp only [body, completeUploadAsFact, lockOwnerFenceShared, wp_bind, wp_lock, wp_pure]
  refine wp_lockObjectKeys fun st₁ hst₁ _ _ => ?_
  have hw₁ : st₁.writes = [] := hst₁.writes
  have hrest : ∀ b (st₂ : Stand Row Lock), InsertsBlobs st₂.writes →
      (blobs H).Wp (completeUploadInTx H scope owner u b)
        (fun _ => (blobs H).Ending (.completeAsFact scope owner u citation) (.blob b)) st₂ :=
    fun b st₂ hst => wp_completeUploadInTx (c := .completeAsFact scope owner u citation) hst
      (fun _ _ => trivial) fun _ h => h _
  cases citation with
  | recorded blob =>
    simp only [wp_bind, wp_pure]
    exact hrest blob st₁ fun k hk => by simp [hw₁] at hk
  | inline hash =>
    simp only [wp_bind, wp_pure]
    exact wp_upsertBlob hw₁ hrest

/-! ### Ended uploads -/

/-- An upload that is over stays so. -/
lemma legal_ended {o o' : Option UploadSlot} (h : legal (.upload u) o o')
    (ho : ∃ s, o = some s ∧ s.ended = true) : ∃ s, o' = some s ∧ s.ended = true := by
  obtain ⟨s, rfl, hs⟩ := ho
  match s, o', h with
  | .row r, some (.row r'), h =>
    refine ⟨_, rfl, ?_⟩
    simp only [UploadSlot.ended, Bool.not_eq_true'] at hs ⊢
    cases h.transition with
    | repair _ hsame _ => rwa [hsame]
    | stage hp | complete hp | abort hp | expire hp => simp [hp, UploadStatus.live] at hs
  | .row r, some (.erased store), _ => exact ⟨_, rfl, rfl⟩
  | .row r, none, h => exact h.elim
  | .erased store, some (.row r'), h => exact h.elim
  | .erased store, some (.erased store'), h => exact h.elim
  | .erased store, none, h => exact h.elim

lemma Dead.of_follows {ls : List Lock} {d d' : Tables} (h : Dead d u)
    (hf : (blobs H).Follows ls d d') : Dead d' u :=
  hf.keeps (k := .upload u) (P := fun o => ∃ s, o = some s ∧ s.ended = true) h
    fun _ _ ho hfree => legal_ended hfree.1 ho

lemma correct_oweEnded (store : ObjectStoreId) (owner implied : Uuid) :
    (blobs H).Correct (.oweEnded store owner implied) := by
  change (blobs H).Wp (body H (.oweEnded store owner implied)) _ _
  simp only [body, oweEndedObject, uploadedBlobObjectKey, wp_bind]
  refine wp_now fun t => wp_lockFenceAndKeys fun st₁ hw₁ _ => ?_
  simp only [wp_lock, wp_view]
  intro d _
  have hpin := pinned_locked (H := H) st₁ (.debt store (.objects implied)) d
  refine wp_ite.2 ⟨fun hcond => ?_, fun _ => ending_of_nil hw₁ fun _ _ => trivial⟩
  obtain ⟨hended, -⟩ := hcond
  simp only [wp_bind, wp_pure]
  simp only [Stand.writes_lock, hw₁, Stand.writes_start, List.nil_append] at hended ⊢
  refine wp_write_row fun d₂ hd₂ => ⟨by simp [blobs, guards], ?_, ?_⟩
  · rw [hpin d₂ hd₂]
    rfl
  refine ending_of_changed (fun _ _ => trivial) fun d₃ hd₃ hvalid k hk => ?_
  obtain rfl : k = .debt store (.objects implied) := by simpa [hw₁] using hk
  obtain ⟨-, hd₃'⟩ := possible_put.1 hd₃
  rw [hpin d₃ hd₃']
  simp only [writes_put, Stand.writes_see, Stand.writes_lock, hw₁, Stand.writes_start,
    List.append_nil, List.singleton_append, get_cons_self]
  refine changed_owe rfl fun u hu => .inl ?_
  obtain rfl : implied = u := by simpa using hu
  -- no row is a mount, so the ended row is the upload's own
  have hdead : Dead d implied := by
    obtain ⟨⟨u, r⟩, hmem, hr⟩ := List.any_eq_true.1 hended
    rw [mem_uploads] at hmem
    have hmount := (hvalid (_, d) (List.mem_cons_of_mem _ List.mem_cons_self) u r hmem).1
    simp only [hmount, Bool.and_eq_true, Bool.or_eq_true, Bool.not_eq_true', decide_eq_true_eq,
      and_true, reduceCtorEq, decide_false, Bool.false_eq_true, or_false] at hr
    obtain ⟨⟨-, hlive⟩, -, rfl⟩ := hr
    exact ⟨_, upload_eq_some.1 hmem, by simp [UploadSlot.ended, hlive]⟩
  have hafter : Dead d₃ implied := hdead.of_follows (possible_see.1 hd₃').1
  obtain ⟨s, hs, hend⟩ := hafter
  exact ⟨s, by rw [get_cons_ne _ _ (by simp), hs], hend⟩

end Proxiima.Blobs
