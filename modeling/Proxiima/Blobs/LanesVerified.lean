import Proxiima.Blobs.DrainsVerified

/-!
# The upload lanes keep to their discipline

Most lanes need to know nothing. A stage knows the row it has loaded and the bytes it has read:
once it has published or verified them, the canonical object has these digests for as long as the
upload is not over, so the locator it records is right when its transaction commits.
-/

namespace Proxiima.Blobs

open ReadCommitted ReadCommitted.Guarded ReadCommitted.Cluster Authz

variable {H : Hash} {s : CitedBlobStore} {g g' : Common}

/-! ### Lanes that need to know nothing -/

lemma plainE_request {x : Request}
    (h : ∀ g j y w, Reached H s g → serve g.hist.length x j g.outside = some (y, w) →
      Allows g w) : PlainLane s H (request x) :=
  plainE_lift (plain_ask h)

variable {t : ℕ} {j : Choice} {w w' : ObjectStore} {y : Reply} {α : Type} {transient : ℕ → Bool}

/-- Requests that change nothing. -/
lemma serve_clock (h : serve t .clock j w = some (y, w')) : w' = w := by
  cases j with
  | time now => exact (Prod.mk.inj (Option.some.inj h)).2.symm
  | _ => cases h

lemma plainE_clock : PlainLane s H clock := by
  refine PlainE.bind (plainE_request fun g j y w _ hserve => ?_) fun y => ?_
  · exact serve_clock hserve ▸ .same
  · cases y with
    | time t => exact plainE_pure t
    | _ => exact plainE_throw _

lemma plainE_beginOwnerTx (ctx : AuthzContext) : PlainLane s H (beginOwnerTx ctx) := by
  unfold beginOwnerTx
  split
  · exact plainE_throw _
  · exact plainE_clock.bind fun _ => plainE_pure _

lemma plainE_ensureOwnerWriteAccess (ctx : AuthzContext) (owner : Uuid) :
    PlainLane s H (ensureOwnerWriteAccess ctx owner) := by
  unfold ensureOwnerWriteAccess
  split
  · exact plainE_pure _
  · exact plainE_throw _

lemma plainE_endDelete (n : ℕ) : PlainLane s H (request (.endDelete n)) := by
  refine plainE_request fun g j y w _ hserve => ?_
  obtain ⟨d, r, hd, hopen, hcovered, -, rfl⟩ := serve_endDelete hserve
  exact .endDelete hd hopen hcovered

lemma plainE_purgePendingUploadBestEffort (u : Uuid) :
    PlainLane s H (purgePendingUploadBestEffort s u) := by
  refine PlainE.bind (plainE_request fun g j y w _ hserve => ?_) fun y => ?_
  · obtain ⟨-, rfl⟩ := serve_startDelete hserve
    exact .startDelete (fun _ hu => nomatch hu) fun _ hi => nomatch hi
  · cases y with
    | started n => exact (plainE_endDelete n).bind fun _ => plainE_pure _
    | _ => exact plainE_pure _

lemma plainE_purgeOwed (drain : ℕ) (owed : List ColdPurgeEntry) :
    PlainLane s H (purgeOwed s drain owed) :=
  plainE_lift (plain_purgeOwedAfterCommit drain s.storeId owed)

lemma plainE_loadUploadScopedOptional (ctx : AuthzContext) (owner u : Uuid) :
    PlainLane s H (loadUploadScopedOptional ctx owner u) :=
  (plainE_beginOwnerTx ctx).bind fun _ => plainE_tx fun _ => trivial

lemma plainE_loadUploadScoped (ctx : AuthzContext) (owner u : Uuid) :
    PlainLane s H (loadUploadScoped ctx owner u) := by
  refine (plainE_loadUploadScopedOptional ctx owner u).bind fun row => ?_
  cases row with
  | some row => exact plainE_pure row
  | none => exact plainE_throw _

lemma plainE_loadStagedScoped (ctx : AuthzContext) (owner u blob : Uuid) :
    PlainLane s H (loadStagedScoped ctx owner u blob) :=
  (plainE_beginOwnerTx ctx).bind fun _ => PlainE.bind (plainE_tx fun _ => trivial)
    fun _ => plainE_pure _

/-- What an attempt needs to know it still knows at the next. -/
lemma wpE_withRetriedTx {op : Lane α} {F : Common → Prop}
    (hstable : ∀ g g', Reached H s g → F g → (lanes H s).Moves g g' → F g')
    (hop : ∀ g, Reached H s g → F g → WpLane s H op (fun _ _ => True) g) (n : ℕ)
    (hg : Reached H s g) (hF : F g) :
    WpLane s H (withRetriedTx transient op n) (fun _ _ => True) g := by
  induction n generalizing g with
  | zero => exact hop g hg hF
  | succ n ih =>
    simp only [withRetriedTx, wpE_bind, wpE_lift]
    refine (hop g hg hF).reached.mono fun r g' hr => ?_
    cases r with
    | ok a => exact wpE_pure.2 trivial
    | error e =>
      simp only
      split
      · exact ih (hg.trans hr.1) (hstable g g' hg hF hr.1)
      · exact wpE_throw.2 trivial

lemma plainE_withRetriedTx {op : Lane α} (n : ℕ) (hop : PlainLane s H op)
    : PlainLane s H (withRetriedTx transient op n) :=
  plainE_of_wpE fun _ hg => wpE_withRetriedTx (F := fun _ => True) (fun _ _ _ _ _ => trivial)
    (fun _ hg _ => hop.wpE hg fun _ _ _ => trivial) n hg trivial

lemma plainE_prepareUpload (ctx : AuthzContext) (owner u : Uuid) (req : PrepareUpload) :
    PlainLane s H (prepareUpload s ctx owner u req) := by
  refine (plainE_orThrow _).bind fun _ => (plainE_ensureOwnerWriteAccess ctx owner).bind fun _ => ?_
  refine PlainE.bind (plainE_request fun g j y w _ hserve => ?_) fun y => ?_
  · cases j with
    | accept etag =>
      obtain ⟨-, rfl⟩ := Prod.mk.inj (Option.some.inj hserve)
      exact .presign _
    | fail message =>
      obtain ⟨-, rfl⟩ := Prod.mk.inj (Option.some.inj hserve)
      exact .same
    | _ => cases hserve
  · cases y with
    | presigned => exact (plainE_beginOwnerTx ctx).bind fun scope => plainE_tx fun _ => rfl
    | _ => exact plainE_throw _

lemma plainE_finishUpload (ctx : AuthzContext) (owner u blob : Uuid) (transient : ℕ → Bool) :
    PlainLane s H (finishUpload s ctx owner u blob transient) := by
  refine (plainE_ensureOwnerWriteAccess ctx owner).bind fun _ => PlainE.bind ?_ fun _ =>
    plainE_purgePendingUploadBestEffort u
  refine plainE_withRetriedTx 2 ((plainE_beginOwnerTx ctx).bind fun scope => plainE_tx ?_)
  exact fun _ => trivial

lemma plainE_completeUpload (ctx : AuthzContext) (owner u : Uuid) (citation : Citation) :
    PlainLane s H (completeUpload ctx owner u citation) :=
  (plainE_beginOwnerTx ctx).bind fun _ => plainE_tx fun _ => trivial

lemma plainE_abortUpload (drain : ℕ) (ctx : AuthzContext) (owner u : Uuid)
    (transient : ℕ → Bool) : PlainLane s H (abortUpload s drain ctx owner u transient) := by
  refine (plainE_ensureOwnerWriteAccess ctx owner).bind fun _ => PlainE.bind ?_ fun c => ?_
  · refine plainE_withRetriedTx 2 ((plainE_beginOwnerTx ctx).bind fun scope => plainE_tx ?_)
    exact fun _ => trivial
  · cases c with
    | settled aborted => exact plainE_pure _
    | cleanUpThenAborted => exact (plainE_purgeOwed drain _).bind fun _ => plainE_pure _
    | decide status rows owed =>
      refine (plainE_orThrow _).bind fun decision => ?_
      cases decision with
      | wonPending | alreadyAborted =>
        exact (plainE_purgeOwed drain _).bind fun _ => plainE_pure _
      | completed | alreadyExpired => exact plainE_pure _

lemma plainE_expireAll (candidates : List (Uuid × Uuid)) :
    PlainLane s H (expireAll s candidates) := by
  induction candidates with
  | nil => exact plainE_pure _
  | cons x rest ih =>
    exact PlainE.bind (plainE_tx fun _ => trivial) fun owed => ih.bind fun more => plainE_pure _

lemma plainE_sweepExpiredUploads (drain limit : ℕ) :
    PlainLane s H (sweepExpiredUploads s drain limit) := by
  unfold sweepExpiredUploads
  split
  · refine PlainE.bind (plainE_tx ?_) fun c => (plainE_expireAll c).bind fun owed =>
      plainE_purgeOwed drain owed
    exact fun _ => trivial
  · exact plainE_purgeOwed drain []

lemma plainE_eraseUploads (drain : ℕ) (owner : Uuid) (sel : Selection) :
    PlainLane s H (eraseUploads s drain owner sel) :=
  PlainE.bind (plainE_tx fun _ => trivial) fun owed => plainE_purgeOwed drain owed

/-! ### What a stage knows -/

/-- The upload has been prepared with this length. -/
def Loaded (g : Common) (u : Uuid) (length : ℕ) : Prop :=
  ∃ slot, get g.db (.upload u) = some slot ∧ ∀ r, slot = .row r → r.expectedByteLen = length

/-- The upload is over, or its object has these digests and this length. -/
def Kept (s : CitedBlobStore) (g : Common) (u : Uuid) (hash sha : Digest) (length : ℕ) : Prop :=
  Dead g.db u ∨ Holding s g.outside u hash sha length

section Stage

variable {u : Uuid} {length : ℕ} {hash sha : Digest}

lemma Loaded.of_legal {o o' : Option UploadSlot} (hlegal : legal (.upload u) o o')
    (h : ∃ slot, o = some slot ∧ ∀ r, slot = .row r → r.expectedByteLen = length) :
    ∃ slot, o' = some slot ∧ ∀ r, slot = .row r → r.expectedByteLen = length := by
  obtain ⟨slot, rfl, hlen⟩ := h
  match slot, o', hlegal with
  | .row r, some (.row r'), hlegal =>
    refine ⟨_, rfl, fun r'' heq => ?_⟩
    obtain rfl : r' = r'' := by simpa using heq
    exact (BlobUpload.Legal.length hlegal).trans (hlen r rfl)
  | .row r, some (.erased store), _ => exact ⟨_, rfl, fun _ heq => nomatch heq⟩
  | .row r, none, hlegal => exact hlegal.elim
  | .erased store, none, hlegal => exact hlegal.elim
  | .erased store, some (.row r), hlegal => exact hlegal.elim
  | .erased store, some (.erased store'), hlegal => exact hlegal.elim

/-- The row of some earlier state. -/
lemma loaded_of_stateAt (hs : Sound H s g) {i : ℕ} (hi : i ≤ g.hist.length) {r : BlobUpload}
    (hr : get (stateAt g.hist g.db i) (.upload u) = some (.row r)) :
    Loaded g u r.expectedByteLen := by
  have hf := follows_of_run hs.run hi (Nat.le_refl _)
  rw [stateAt_length] at hf
  refine hf.keeps (k := .upload u) (P := fun o => ∃ slot, o = some slot ∧
    ∀ r', slot = .row r' → r'.expectedByteLen = r.expectedByteLen) ⟨_, hr, fun r' heq => ?_⟩
    fun _ _ ho hfree => Loaded.of_legal hfree.1 ho
  obtain rfl : r = r' := by simpa using heq
  rfl

lemma Loaded.of_moves (h : Loaded g u length) (hg : Reached H s g)
    (hm : (lanes H s).Moves g g') : Loaded g' u length := by
  have hs : Sound H s g' := sound_of_moves (hg.trans hm)
  have hf := follows_of_run hs.run (Discipline.length_le hm) (Nat.le_refl _)
  rw [stateAt_length, stateAt_of_moves hm (Nat.le_refl _), stateAt_length] at hf
  exact hf.keeps (k := .upload u) (P := fun o => ∃ slot, o = some slot ∧
    ∀ r', slot = .row r' → r'.expectedByteLen = length) h
    fun _ _ ho hfree => Loaded.of_legal hfree.1 ho

/-- Nobody replaces the object, and nobody deletes it before the upload is over. -/
lemma Kept.of_moves (h : Kept s g u hash sha length) (hg : Reached H s g)
    (hm : (lanes H s).Moves g g') : Kept s g' u hash sha length := by
  have hstable : (lanes H s).Stable fun x => Sound H s x ∧ Kept s x u hash sha length := by
    rintro x x' ⟨hs, hkept⟩ hmove
    refine ⟨stable_sound x x' hs hmove, ?_⟩
    cases hmove with
    | answer hbefore heff _ => exact hkept.imp (hs.dead hbefore heff) id
    | outside hall =>
      rcases hkept with hdead | ⟨bytes, hbytes, hrest⟩
      · exact .inl hdead
      cases hall with
      | same | presign | startDelete | endDelete => exact .inr ⟨bytes, hbytes, hrest⟩
      | @put store key new hput =>
        refine .inr ⟨bytes, (ObjectStore.object_append_ne _ ?_).trans hbytes, hrest⟩
        rintro ⟨rfl, rfl⟩
        cases hbytes.symm.trans (hput u rfl)
      | @remove n i d v hd hv hat hpresent =>
        by_cases hobject : v.isAt s.storeId (.objects u) = true
        · refine .inl (hs.hidden d (List.mem_of_getElem? hd) u ?_)
          simp only [Version.isAt, Bool.and_eq_true, decide_eq_true_eq] at hat hobject
          exact hat.2.symm.trans hobject.2
        · exact .inr ⟨bytes, (ObjectStore.object_remove_ne hv (Bool.eq_false_iff.2 hobject)).trans
            hbytes, hrest⟩
  exact (hstable.moves ⟨sound_of_moves hg, h⟩ hm).2

/-! ### Reading and publishing -/

variable {o : StreamedObject} {key : ObjectKey} {ctx : AuthzContext} {owner : Uuid}
  {row : BlobUpload} {expected : LengthExpectation} {store : ObjectStoreId}
  {Q : Option (StreamedObject × Option String) → Common → Prop}

lemma hashUploadedObject_ok {body : Bytes} {retain : Retain}
    (h : hashUploadedObject s body expected retain = .ok o) :
    o.blake3 = s.blake3 body ∧ o.sha256 = s.sha256 body ∧ o.byteLen = body.length ∧
      (retain = .bytes → o.bytes = body) ∧ ∀ n, expected = .declared n → body.length = n := by
  unfold hashUploadedObject at h
  cases expected with
  | declared n =>
    dsimp only at h
    split at h
    · cases h
    split at h
    · cases h
    obtain rfl := Except.ok.inj h
    have hlen : min body.length (min n s.maxBlobBytes + 1) = body.length := by omega
    refine ⟨rfl, rfl, hlen, fun hr => if_pos hr, fun n' heq => ?_⟩
    obtain rfl : n = n' := by simpa using heq
    omega
  | capOnly =>
    dsimp only at h
    split at h
    · cases h
    obtain rfl := Except.ok.inj h
    have hlen : min body.length (s.maxBlobBytes + 1) = body.length := by omega
    exact ⟨rfl, rfl, hlen, fun hr => if_pos hr, fun n' heq => nomatch heq⟩

lemma serve_get (h : serve t (.get store key) j w = some (y, w')) :
    w' = w ∧ ∀ bytes etag, y = .object bytes etag → w.object store key = some bytes := by
  cases j with
  | accept etag =>
    simp only [serve] at h
    split at h
    · rename_i bytes hbytes
      obtain ⟨rfl, rfl⟩ := Prod.mk.inj (Option.some.inj h)
      refine ⟨rfl, fun bytes' etag' heq => ?_⟩
      obtain ⟨rfl, -⟩ : bytes = bytes' ∧ etag = etag' := by simpa using heq
      exact hbytes
    · obtain ⟨rfl, rfl⟩ := Prod.mk.inj (Option.some.inj h)
      exact ⟨rfl, fun _ _ heq => nomatch heq⟩
  | fail message =>
    obtain ⟨rfl, rfl⟩ := Prod.mk.inj (Option.some.inj h)
    exact ⟨rfl, fun _ _ heq => nomatch heq⟩
  | _ => cases h

lemma wpE_orThrow {r : Except BlobError α} {Q : α → Common → Prop} (h : ∀ a, r = .ok a → Q a g) :
    WpLane s H (orThrow r) Q g := by
  cases r with
  | ok a => exact wpE_pure.2 (h a rfl)
  | error e => exact wpE_throw.2 trivial

/-- An object that was read is the one in the store at that moment. -/
lemma wpE_readHashedObject {retain : Retain} (hnone : ∀ g', (lanes H s).Moves g g' → Q none g')
    (hsome : ∀ g' bytes o etag, (lanes H s).Moves g g' →
      g'.outside.object s.storeId key = some bytes →
      hashUploadedObject s bytes expected retain = .ok o → Q (some (o, etag)) g') :
    WpLane s H (readHashedObject s key expected retain) Q g := by
  simp only [readHashedObject, wpE_bind]
  refine wpE_request fun g' j y w hm hserve => ?_
  obtain ⟨rfl, hobject⟩ := serve_get hserve
  refine ⟨.same, fun hm' => ?_⟩
  cases y with
  | object bytes etag =>
    simp only [wpE_bind, wpE_pure]
    exact wpE_orThrow fun o ho => hsome _ bytes o etag hm' (hobject bytes etag rfl) ho
  | missing => exact wpE_pure.2 (hnone _ hm')
  | _ => exact wpE_throw.2 trivial

lemma serve_putIfNoneMatch {bytes : Bytes}
    (h : serve t (.putIfNoneMatch store key bytes) j w = some (y, w')) :
    (w' = w ∨ w.object store key = none ∧ w' = w.append t store key bytes) ∧
      ∀ etag, y = .stored etag → w'.object store key = some bytes := by
  cases j with
  | accept etag =>
    obtain ⟨hnone, heq⟩ := Option.ite_none_right_eq_some.1 h
    obtain ⟨rfl, rfl⟩ := Prod.mk.inj (Option.some.inj heq)
    exact ⟨.inr ⟨hnone, rfl⟩, fun _ _ => ObjectStore.object_append_self t⟩
  | refuse effect status code =>
    obtain ⟨rfl, rfl⟩ := Prod.mk.inj (Option.some.inj h)
    refine ⟨?_, fun _ heq => nomatch heq⟩
    split
    · rename_i hcond
      exact .inr ⟨hcond.2, rfl⟩
    · exact .inl rfl
  | _ => cases h

/-- What is published, or was published before with the same digests, stays. -/
lemma wpE_publishCanonical {body : Bytes} {Q : ObjectKey × Option String → Common → Prop}
    (hhash : o.blake3 = s.blake3 body) (hsha : o.sha256 = s.sha256 body)
    (hlen : o.byteLen = body.length)
    (h : ∀ g' etag, (lanes H s).Moves g g' → Kept s g' u o.blake3 o.sha256 o.byteLen →
      Q (.objects u, etag) g') : WpLane s H (publishCanonical s (.objects u) o body) Q g := by
  simp only [publishCanonical, wpE_bind]
  refine wpE_request fun g' j y w hm hserve => ?_
  obtain ⟨hw, hstored⟩ := serve_putIfNoneMatch hserve
  refine ⟨?_, fun hm' => ?_⟩
  · rcases hw with rfl | ⟨hnone, rfl⟩
    · exact .same
    · exact .put fun _ _ => hnone
  cases y with
  | stored etag =>
    refine wpE_pure.2 (h _ etag hm' (.inr ⟨body, hstored etag rfl, hhash.symm, hsha.symm, ?_⟩))
    exact hlen.symm
  | refused status code =>
    simp only
    split
    · simp only [wpE_bind]
      refine wpE_readHashedObject (fun _ _ => wpE_throw.2 trivial)
        fun g₁ bytes e etag hm₁ hobj ho => ?_
      simp only [wpE_bind, wpE_pure]
      refine wpE_orThrow fun _ hv => h g₁ etag (hm'.trans hm₁) (.inr ⟨bytes, hobj, ?_⟩)
      obtain ⟨he₁, he₂, he₃, -⟩ := hashUploadedObject_ok ho
      unfold verifyCanonicalCandidate at hv
      split at hv
      · cases hv
      rename_i hsame
      push Not at hsame
      exact ⟨he₁.symm.trans hsame.1.symm, he₂.symm.trans hsame.2.1.symm,
        he₃.symm.trans hsame.2.2.symm⟩
    · exact wpE_throw.2 trivial
  | _ => exact wpE_throw.2 trivial

/-! ### Staging -/

/-- A row that was loaded: its length is known, and its key is one of its own. -/
lemma wpE_loadUploadScopedOptional (hg : Reached H s g) {Q : Option BlobUpload → Common → Prop}
    (hnone : ∀ g', (lanes H s).Moves g g' → Q none g')
    (hsome : ∀ g' r, (lanes H s).Moves g g' → Loaded g' u r.expectedByteLen →
      (r.objectKey = .objects u ∨ r.objectKey = .pending u) → Q (some r) g') :
    WpLane s H (loadUploadScopedOptional ctx owner u) Q g := by
  simp only [loadUploadScopedOptional, wpE_bind]
  refine (plainE_beginOwnerTx ctx).wpE hg fun scope g₁ hm₁ => ?_
  refine wpE_tx (fun _ _ => trivial) fun g₂ e db resp row hm₂ hc _ hb hr hf heff hm₃ => ?_
  cases row with
  | none => exact hnone _ (hm₁.trans hm₃)
  | some r =>
    obtain rfl : resp = .upload (some r) := by
      cases resp with
      | upload r' => exact congrArg _ (Option.some.inj hf)
      | _ => cases hf
    have hs : Sound H s (g₂.answered e db) := sound_of_moves (hg.trans (hm₁.trans hm₃))
    simp only [Effect, hr] at heff
    obtain ⟨⟨hans, -⟩, -⟩ := heff
    rw [hc, hb] at hans
    obtain ⟨d, ⟨i, -, hi, rfl⟩, hget⟩ := hans
    have hstate : stateAt (g₂.answered e db).hist (g₂.answered e db).db i =
      stateAt g₂.hist g₂.db i :=
      stateAt_cons hi hb
    have hi' : i ≤ (g₂.answered e db).hist.length := Nat.le_succ_of_le hi
    rw [← hstate] at hget
    exact hsome _ r (hm₁.trans hm₃) (loaded_of_stateAt hs hi' hget)
      (hs.valid i hi' u r (upload_eq_some.2 hget)).2

lemma plainE_touchedStatus (drain : ℕ) (ctx : AuthzContext) (owner u : Uuid) (row : BlobUpload) :
    PlainLane s H (touchedStatus s drain ctx owner u row) := by
  refine plainE_clock.bind fun t => ?_
  split
  · refine (plainE_beginOwnerTx ctx).bind fun scope => PlainE.bind (plainE_tx ?_) fun r => ?_
    · exact fun _ => trivial
    · exact (plainE_purgeOwed drain _).bind fun _ => plainE_pure _
  · exact plainE_pure _

lemma plainE_stageEntryShortcut (drain : ℕ) (ctx : AuthzContext) (owner u : Uuid)
    (row : BlobUpload) : PlainLane s H (stageEntryShortcut s drain ctx owner u row) := by
  refine (plainE_touchedStatus drain ctx owner u row).bind fun status => ?_
  have hreplay {f : Option Uuid → Lane (Option CitedBlobStaged)}
      (hnone : f none = throw (.state "completed upload is missing blob_id"))
      (hsome : ∀ blob, f (some blob) = do
        purgePendingUploadBestEffort s u
        some <$> loadStagedScoped ctx owner u blob) (blob : Option Uuid) :
      PlainLane s H (f blob) := by
    cases blob with
    | none =>
      rw [hnone]
      exact plainE_throw _
    | some blob =>
      rw [hsome]
      exact (plainE_purgePendingUploadBestEffort u).bind fun _ =>
        (plainE_loadStagedScoped ctx owner u blob).map _
  cases status with
  | completed =>
    simp only
    split
    · exact ((plainE_loadUploadScoped ctx owner u).map _).bind (hreplay rfl fun _ => rfl)
    · exact (plainE_pure _).bind (hreplay rfl fun _ => rfl)
  | aborted => exact (plainE_purgePendingUploadBestEffort u).bind fun _ => plainE_throw _
  | expired => exact plainE_throw _
  | pending => exact plainE_pure _

/-- The bytes a stage goes on with are of the declared length: those of the transfer key, or the
object of the upload. -/
def Source (s : CitedBlobStore) (g : Common) (u : Uuid) (x : StageRead) : Prop :=
  ∃ length, Loaded g u length ∧
    (x.key = .pending u ∧ x.streamed.blake3 = s.blake3 x.streamed.bytes ∧
        x.streamed.sha256 = s.sha256 x.streamed.bytes ∧
        x.streamed.byteLen = x.streamed.bytes.length ∧ x.streamed.byteLen = length ∨
      x.key = .objects u ∧ Kept s g u x.streamed.blake3 x.streamed.sha256 length)

section

variable (hg : Reached H s g)
include hg

lemma wpE_readStageSource (hloaded : Loaded g u row.expectedByteLen)
    (hkey : row.objectKey = .objects u ∨ row.objectKey = .pending u)
    (hnone : ∀ g', (lanes H s).Moves g g' → Q none g')
    (hsome : ∀ g' o etag, (lanes H s).Moves g g' → Source s g' u ⟨row.objectKey, o, etag⟩ →
      Q (some (o, etag)) g') : WpLane s H (readStageSource s u row) Q g := by
  refine wpE_readHashedObject hnone fun g' bytes o etag hm hobj ho => hsome g' o etag hm ?_
  obtain ⟨h₁, h₂, h₃, h₄, h₅⟩ := hashUploadedObject_ok ho
  have hlen := h₅ _ rfl
  refine ⟨row.expectedByteLen, hloaded.of_moves hg hm, ?_⟩
  rcases hkey with hkey | hkey
  · rw [hkey] at hobj
    exact .inr ⟨hkey, .inr ⟨bytes, hobj, h₁.symm, h₂.symm, hlen⟩⟩
  · have hbytes : o.bytes = bytes := h₄ (by simp [retainFor, hkey, uploadTransferKey])
    refine .inl ⟨hkey, ?_⟩
    simp only [hbytes]
    exact ⟨h₁, h₂, h₃, h₃.trans hlen⟩

/-- Where the transfer key is missing, a stage that reads on has loaded the row again. -/
lemma wpE_resolveMissingPending {Q : Option StageSource → Common → Prop}
    (hends : ∀ g' x, (lanes H s).Moves g g' → (∀ r, x ≠ some (.read r)) → Q x g')
    (hread : ∀ g' r, (lanes H s).Moves g g' → Loaded g' u r.expectedByteLen →
      (r.objectKey = .objects u ∨ r.objectKey = .pending u) → Q (some (.read r)) g') :
    WpLane s H (resolveMissingPending ctx owner u) Q g := by
  simp only [resolveMissingPending, wpE_bind]
  refine wpE_loadUploadScopedOptional hg (fun g' hm => ?_) fun g' r hm hloaded hkey => ?_
  · exact wpE_pure.2 (hends g' _ hm (by simp))
  simp only
  split
  · split
    · exact wpE_throw.2 trivial
    · exact wpE_pure.2 (hends g' _ hm (by simp))
  · exact wpE_pure.2 (hends g' _ hm (by simp))
  · exact wpE_pure.2 (hends g' _ hm (by simp))
  · split
    · exact wpE_pure.2 (hread g' r hm hloaded hkey)
    · exact wpE_throw.2 trivial

lemma wpE_stageBytes {drain : ℕ} {Q : CitedBlobStaged ⊕ StageRead → Common → Prop}
    (hloaded : Loaded g u row.expectedByteLen)
    (hkey : row.objectKey = .objects u ∨ row.objectKey = .pending u)
    (hl : ∀ g' x, (lanes H s).Moves g g' → Q (.inl x) g')
    (hr : ∀ g' x, (lanes H s).Moves g g' → Source s g' u x → Q (.inr x) g') :
    WpLane s H (stageBytes s drain ctx owner u row) Q g := by
  simp only [stageBytes, wpE_bind]
  refine wpE_readStageSource hg hloaded hkey (fun g₁ hm₁ => ?_) fun g₁ o etag hm₁ hsrc =>
    wpE_pure.2 (hr g₁ _ hm₁ hsrc)
  by_cases hmoved : row.objectKey = uploadTransferKey u
  swap
  · rw [if_pos hmoved]
    exact wpE_throw.2 trivial
  have hg₁ := hg.trans hm₁
  rw [if_neg (not_not.2 hmoved), wpE_bind]
  refine wpE_resolveMissingPending hg₁ (fun g₂ x hm₂ hx => ?_) fun g₂ r hm₂ hloaded₂ hkey₂ => ?_
  · have hg₂ := hg₁.trans hm₂
    rcases x with - | (blob | status | r)
    · exact wpE_bind.2 ((plainE_purgePendingUploadBestEffort u).wpE hg₂ fun _ _ _ =>
        wpE_throw.2 trivial)
    · refine wpE_bind.2 ((plainE_purgePendingUploadBestEffort u).wpE hg₂ fun _ g₃ hm₃ => ?_)
      refine wpE_map.2 ((plainE_loadStagedScoped ctx owner u blob).wpE (hg₂.trans hm₃)
        fun x g₄ hm₄ => hl g₄ x ?_)
      exact hm₁.trans (hm₂.trans (hm₃.trans hm₄))
    · refine wpE_bind.2 ((plainE_purgeOwed drain _).wpE hg₂ fun _ g₃ hm₃ => ?_)
      exact wpE_bind.2 ((plainE_purgePendingUploadBestEffort u).wpE (hg₂.trans hm₃) fun _ _ _ =>
        wpE_throw.2 trivial)
    · exact (hx r rfl).elim
  · simp only [wpE_bind]
    refine wpE_readStageSource (hg₁.trans hm₂) hloaded₂ hkey₂ (fun _ _ => wpE_throw.2 trivial)
      fun g₃ o etag hm₃ hsrc => wpE_pure.2 (hr g₃ _ ?_ hsrc)
    exact hm₁.trans (hm₂.trans hm₃)

/-- A stage that knows its object commits what it knows. -/
lemma wpE_commitStage {p : UploadedBlobPayload} (hp : p.objectKey = .objects u)
    (hloaded : Loaded g u length) (hkept : Kept s g u p.contentHash p.sha256 length) :
    WpLane s H (commitStage s ctx owner u row p) (fun _ _ => True) g := by
  simp only [commitStage, wpE_bind]
  refine (plainE_beginOwnerTx ctx).wpE hg fun scope g₁ hm₁ => ?_
  have hg₁ := hg.trans hm₁
  refine wpE_tx (fun g₂ hm₂ => ?_) fun g₂ e db resp c hm₂ _ _ _ _ _ _ hm₃ => ?_
  · obtain ⟨slot, hslot, hlen⟩ := (hloaded.of_moves hg hm₁).of_moves hg₁ hm₂
    refine ⟨by simp [hslot], hp, fun r hr hlive => ?_⟩
    obtain rfl : slot = .row r := Option.some.inj (hslot.symm.trans (upload_eq_some.1 hr))
    rw [hlen r rfl]
    exact ((hkept.of_moves hg hm₁).of_moves hg₁ hm₂).resolve_left fun hdead =>
      hdead.not_live hr hlive
  · cases c with
    | decided d => exact wpE_pure.2 trivial
    | erased =>
      exact wpE_bind.2 ((plainE_purgePendingUploadBestEffort u).wpE (hg₁.trans hm₃)
        fun _ _ _ => wpE_throw.2 trivial)

lemma wpE_recordStageLocator {drain : ℕ} {etag : Option String} (hloaded : Loaded g u length)
    (hkept : Kept s g u o.blake3 o.sha256 length) :
    WpLane s H
      (recordStageLocator s drain ctx owner u row (.objects u) o etag transient)
      (fun _ _ => True) g := by
  simp only [recordStageLocator, wpE_bind]
  refine Wp.mono (Wp.reached (wpE_withRetriedTx (F := fun x => Loaded x u length ∧
    Kept s x u o.blake3 o.sha256 length) (fun x x' hx hF hm => ⟨hF.1.of_moves hx hm,
      hF.2.of_moves hx hm⟩) (fun x hx hF => wpE_commitStage hx rfl hF.1 hF.2) 2 hg
      ⟨hloaded, hkept⟩)) fun r g' hr decision _ => ?_
  have hg' := hg.trans hr.1
  cases decision with
  | staged =>
    exact wpE_bind.2 ((plainE_purgePendingUploadBestEffort u).wpE hg' fun _ _ _ =>
      wpE_pure.2 trivial)
  | replay blob => exact (plainE_loadStagedScoped ctx owner u blob).wpE hg' fun _ _ _ => trivial
  | repairTerminal status =>
    exact wpE_bind.2 ((plainE_purgeOwed drain _).wpE hg' fun _ _ _ => wpE_throw.2 trivial)

end

lemma plainE_stageUpload (drain : ℕ) (ctx : AuthzContext) (owner u : Uuid)
    (transient : ℕ → Bool) : PlainLane s H (stageUpload s drain ctx owner u transient) := by
  refine plainE_of_wpE fun g hg => ?_
  simp only [stageUpload, loadUploadScoped, wpE_bind]
  refine (plainE_ensureOwnerWriteAccess ctx owner).wpE hg fun _ g₁ hm₁ => ?_
  have hg₁ := hg.trans hm₁
  refine wpE_loadUploadScopedOptional hg₁ (fun _ _ => wpE_throw.2 trivial)
    fun g₂ row hm₂ hloaded hkey => ?_
  have hg₂ := hg₁.trans hm₂
  simp only [wpE_pure]
  refine (plainE_stageEntryShortcut drain ctx owner u row).wpE hg₂ fun replay g₃ hm₃ => ?_
  cases replay with
  | some x => exact wpE_pure.2 trivial
  | none =>
    have hg₃ := hg₂.trans hm₃
    simp only [wpE_bind]
    refine wpE_stageBytes hg₃ (hloaded.of_moves hg₂ hm₃) hkey (fun _ _ _ => wpE_pure.2 trivial)
      fun g₄ x hm₄ hsrc => ?_
    have hg₄ := hg₃.trans hm₄
    obtain ⟨len, hloaded₄, hpending | hobjects⟩ := hsrc
    · obtain ⟨hx, hhash, hsha, hlen, rfl⟩ := hpending
      simp only [hx, uploadTransferKey, if_true, wpE_bind]
      refine wpE_publishCanonical hhash hsha hlen fun g₅ etag hm₅ hkept => ?_
      exact wpE_recordStageLocator (hg₄.trans hm₅) (hloaded₄.of_moves hg₄ hm₅) hkept
    · obtain ⟨hx, hkept⟩ := hobjects
      simp only [hx, uploadTransferKey, reduceCtorEq, if_false, wpE_bind, wpE_pure]
      exact wpE_recordStageLocator hg₄ hloaded₄ hkept

end Stage

/-! ### All processes -/

lemma plain_drop {p : Lane α} (h : PlainLane s H p) :
    Plain (service s H) (lanes H s) outset p.drop := Plain.bind h fun _ => plain_pure _

lemma plain_program (i : ℕ) (p : Program) :
    Plain (service s H) (lanes H s) outset (program s i p) := by
  cases p with
  | prepare ctx owner u req => exact plain_drop (plainE_prepareUpload ctx owner u req)
  | stage ctx owner u transient => exact plain_drop (plainE_stageUpload i ctx owner u transient)
  | complete ctx owner u citation => exact plain_drop (plainE_completeUpload ctx owner u citation)
  | finish ctx owner u blob transient =>
    exact plain_drop (plainE_finishUpload ctx owner u blob transient)
  | abort ctx owner u transient => exact plain_drop (plainE_abortUpload i ctx owner u transient)
  | sweep limit => exact plain_drop (plainE_sweepExpiredUploads i limit)
  | oweEnded owner implied => exact plain_drop (plainE_tx fun _ => trivial)
  | erase owner sel => exact plain_drop (plainE_eraseUploads i owner sel)
  | purge cold plan backoff =>
    exact (plain_purgeEntries i cold backoff plan _).bind fun _ => plain_pure _
  | retry cold options => exact plain_drop (plainE_retryColdObjectPurges i cold options)

lemma drift_allows (ht : t = g.hist.length) (h : drift t j g.outside = some w) : Allows g w := by
  subst ht
  cases j with
  | clientPut store u bytes =>
    obtain ⟨-, heq⟩ := Option.ite_none_right_eq_some.1 h
    obtain rfl := Option.some.inj heq
    exact .put fun _ hu => nomatch hu
  | remove n i =>
    simp only [drift] at h
    split at h
    · rename_i d v hd hv
      obtain ⟨⟨hat, hpresent⟩, heq⟩ := Option.ite_none_right_eq_some.1 h
      obtain rfl := Option.some.inj heq
      exact .remove hd hv hat hpresent
    · cases h
  | _ => cases h

lemma keeps_lanes (H : Hash) (s : CitedBlobStore) :
    Keeps (service s H) (lanes H s) () ObjectStore.empty where
  runs _ hs := run_of_reachable (blobs_correct H) hs
  programs g hg i p := plain_program i p g hg
  drifts _ _ _ _ h := drift_allows rfl h

/-- **The blob service keeps to its discipline**, whatever starts, crashes or is lost. -/
theorem moves_of_service {z : World Row Lock BlobError Input Unit Command Response Request Reply
    ObjectStore} (h : (service s H).Reaches () ObjectStore.empty z) :
    (lanes H s).Moves outset z.shared :=
  moves_of_reaches (keeps_lanes H s) h

end Proxiima.Blobs
