import Proxiima.Blobs.PurgeHistory

/-!
# The history of uploads

A row leaves pending once. A completed row stays as it is until it is erased, with the object under
its canonical key and the blob that a Fact cites, and nothing ever owes that object.
-/

namespace Proxiima.Blobs

open ReadCommitted ReadCommitted.Guarded ReadCommitted.Cluster

variable {H : Hash} {s : CitedBlobStore} {g : Common}

/-- The row of an upload after the first `i` answers. -/
def uploadAt (g : Common) (i : ℕ) (u : Uuid) : Option UploadSlot :=
  get (stateAt g.hist g.db i) (.upload u)

variable {i : ℕ} {u : Uuid} {o o' : Option UploadSlot} {r : BlobUpload}

/-- What a legal change keeps, a later row has from an earlier one. -/
lemma uploadAt_keeps {P : Option UploadSlot → Prop} {j : ℕ} (hs : Sound H s g) (hij : i ≤ j)
    (hj : j ≤ g.hist.length) (hi : P (uploadAt g i u))
    (hstep : ∀ o o', P o → legal (.upload u) o o' → P o') : P (uploadAt g j u) :=
  (follows_of_run hs.run hij hj).keeps (k := .upload u) (P := P) hi fun o o' ho hf =>
    hstep o o' ho hf.1

/-- The upload has this status or its row is gone. -/
def Settled (status : UploadStatus) (o : Option UploadSlot) : Prop :=
  ∃ slot, o = some slot ∧ ∀ r, slot = .row r → r.status = status

lemma Settled.legal {status : UploadStatus} (h : Settled status o) (hne : status ≠ .pending)
    (hlegal : legal (.upload u) o o') : Settled status o' := by
  obtain ⟨slot, rfl, hstatus⟩ := h
  cases slot with
  | erased store => cases o' <;> exact hlegal.elim
  | row r =>
    have hr : r.status = status := hstatus r rfl
    match o', hlegal with
    | some (.erased store), _ => exact ⟨_, rfl, fun _ heq => nomatch heq⟩
    | some (.row r'), hlegal =>
      refine ⟨_, rfl, fun r'' heq => ?_⟩
      obtain rfl := UploadSlot.row.inj heq
      cases hlegal.transition with
      | stage h | complete h | abort h | expire h => exact absurd (hr.symm.trans h) hne
      | repair _ hsame => exact hsame.trans hr

/-- A completed row is not written again. -/
lemma legal_completed (hr : r.status = .completed) (hlegal : legal (.upload u) (some (.row r)) o) :
    ∃ store, o = some (.erased store) := by
  match o, hlegal with
  | some (.erased store), _ => exact ⟨store, rfl⟩
  | some (.row r'), hlegal =>
    cases hlegal.transition with
    | stage h | complete h | abort h | expire h => cases hr.symm.trans h
    | repair h => simp [hr, UploadStatus.live] at h

/-- No staged upload has expired. -/
def Unexpired (o : Option UploadSlot) : Prop :=
  ∀ r, o = some (.row r) → r.contentHash ≠ none → r.status ≠ .expired

lemma Unexpired.legal (h : Unexpired o) (hlegal : legal (.upload u) o o') : Unexpired o' := by
  rintro r' rfl hhash
  match o, hlegal with
  | none, hlegal => exact absurd hlegal.2.1 hhash
  | some (.row r), hlegal =>
    cases hlegal.transition with
    | stage _ hstatus | complete _ hstatus | abort _ hstatus => simp [hstatus]
    | expire _ _ _ hnone => exact absurd hnone hhash
    | repair _ hstatus hsame => exact hstatus.symm ▸ h r rfl (hsame ▸ hhash)

/-- The upload has been staged. -/
def Staged (o : Option UploadSlot) : Prop :=
  ∃ slot, o = some slot ∧ ∀ r, slot = .row r → r.contentHash ≠ none

lemma Staged.legal (h : Staged o) (hlegal : legal (.upload u) o o') : Staged o' := by
  obtain ⟨slot, rfl, hstaged⟩ := h
  cases slot with
  | erased store => cases o' <;> exact hlegal.elim
  | row r =>
    have hr : r.contentHash ≠ none := hstaged r rfl
    match o', hlegal with
    | some (.erased store), _ => exact ⟨_, rfl, fun _ heq => nomatch heq⟩
    | some (.row r'), hlegal =>
      refine ⟨_, rfl, fun r'' heq => ?_⟩
      obtain rfl := UploadSlot.row.inj heq
      cases hlegal.transition with
      | stage _ _ hhash => exact hhash
      | complete _ _ _ hsame | abort _ _ hsame | repair _ _ hsame => exact hsame.symm ▸ hr
      | expire _ _ hnone => exact absurd hnone hr

lemma unexpired (hs : Sound H s g) (hi : i ≤ g.hist.length) (u : Uuid) :
    Unexpired (uploadAt g i u) := by
  have hstart : Unexpired (uploadAt g 0 u) := by
    obtain ⟨older, hlen, -, hrun⟩ := hs.run.at_state (Nat.zero_le _)
    obtain rfl := List.length_eq_zero_iff.1 hlen
    unfold uploadAt
    generalize stateAt g.hist g.db 0 = db at hrun ⊢
    cases hrun
    exact fun r hr => nomatch hr
  exact uploadAt_keeps hs (Nat.zero_le i) hi hstart fun _ _ ho hlegal => ho.legal hlegal

/-! ### Completed uploads -/

/-- The object under the canonical key and the cited blob are what the row records. -/
def Intact (s : CitedBlobStore) (g : Common) (u : Uuid) (r : BlobUpload) : Prop :=
  r.objectKey = .objects u ∧ ∃ bytes b hash sha,
    g.outside.object r.objectStore (.objects u) = some bytes ∧ bytes.length = r.expectedByteLen ∧
    s.blake3 bytes = hash ∧ s.sha256 bytes = sha ∧ r.contentHash = some hash ∧
    r.sha256 = some sha ∧ r.blobId = some b ∧
    get g.db (.blob b) = some ⟨r.ownerId, uploadedBlobSchemaId, hash⟩

lemma intact (hs : Sound H s g) (hr : upload g.db u = some r) (hstatus : r.status = .completed) :
    Intact s g u r := by
  obtain ⟨hkey, b, hash, hb, hhash, hblob⟩ := hs.cited u r hr hstatus
  obtain ⟨sha, hsha, bytes, hbytes, hblake, hsha', hlen⟩ :=
    hs.published u r hash hr (by simp [hstatus, UploadStatus.live]) hhash
  rw [← hs.home u r hr] at hbytes
  exact ⟨hkey, bytes, b, hash, sha, hbytes, hlen, hblake, hsha', hhash, hsha, hb, hblob⟩

lemma completed_kept (hs : Sound H s g) {j : ℕ} (hij : i ≤ j) (hj : j ≤ g.hist.length)
    (hi : uploadAt g i u = some (.row r)) (hr : r.status = .completed) :
    uploadAt g j u = some (.row r) ∨ ∃ store, uploadAt g j u = some (.erased store) := by
  refine uploadAt_keeps (P := fun o => o = some (.row r) ∨ ∃ store, o = some (.erased store)) hs hij
    hj (.inl hi) ?_
  rintro o o' (rfl | ⟨store, rfl⟩) hlegal
  · exact .inr (legal_completed hr hlegal)
  · cases o' <;> exact hlegal.elim

/-- **The history of an upload.** Its row leaves pending at most once and keeps its status from
then on. While a row is completed, the object under its canonical key exists and has the length and
the digests that the row and the cited blob record, and the row stays as it is until it is erased.
No debt ever names the canonical key of a completed row, and what was staged never expires. -/
theorem upload_history {z : World Row Lock BlobError Input Unit Command Response Request Reply
    ObjectStore} (h : (service s H).Reaches () ObjectStore.empty z) :
    (∀ u i j r r', i ≤ j → j ≤ z.shared.hist.length → uploadAt z.shared i u = some (.row r) →
      uploadAt z.shared j u = some (.row r') → r.status ≠ .pending → r'.status = r.status) ∧
    (∀ u r, upload z.shared.db u = some r → r.status = .completed → Intact s z.shared u r) ∧
    (∀ u i j r, i ≤ j → j ≤ z.shared.hist.length → uploadAt z.shared i u = some (.row r) →
      r.status = .completed → uploadAt z.shared j u = some (.row r) ∨
        ∃ store, uploadAt z.shared j u = some (.erased store)) ∧
    (∀ u i r store, i ≤ z.shared.hist.length → uploadAt z.shared i u = some (.row r) →
      r.status = .completed → debtOf (debtAt z.shared i store (.objects u)) = none) ∧
    ∀ u i j r r', i ≤ j → j ≤ z.shared.hist.length → uploadAt z.shared i u = some (.row r) →
      r.contentHash ≠ none → uploadAt z.shared j u = some (.row r') → r'.status ≠ .expired := by
  have hs : Sound H s z.shared := sound_of_moves (moves_of_service h)
  refine ⟨fun u i j r r' hij hj hi hr' hne => ?_, fun u r hr hstatus => intact hs hr hstatus,
    fun u i j r hij hj hi hstatus => completed_kept hs hij hj hi hstatus,
    fun u i r store hi hr hstatus => ?_, fun u i j r r' hij hj hi hhash hr' => ?_⟩
  · have hsettled : Settled r.status (uploadAt z.shared i u) :=
      ⟨_, hi, fun r₀ heq => by rw [UploadSlot.row.inj heq]⟩
    obtain ⟨slot, hslot, hstatus⟩ := uploadAt_keeps hs hij hj hsettled fun _ _ ho hlegal =>
      ho.legal hne hlegal
    exact hstatus r' (Option.mem_unique hslot hr')
  · by_contra howed
    exact (hs.owed i hi store u howed).not_live (upload_eq_some.2 hr)
      (by simp [hstatus, UploadStatus.live])
  · have hstaged : Staged (uploadAt z.shared i u) :=
      ⟨_, hi, fun r₀ heq => UploadSlot.row.inj heq ▸ hhash⟩
    obtain ⟨slot, hslot, hkept⟩ := uploadAt_keeps hs hij hj hstaged fun _ _ ho hlegal =>
      ho.legal hlegal
    exact unexpired hs hj u r' hr' (hkept r' (Option.mem_unique hslot hr'))

/-- The upload is staged and a Fact cites it. -/
def completing : List (Event Input Program Choice) :=
  [.spawn (.stage ownContext 1 9 fun _ => false), .request 1 (.time 5), .start 1] ++ moves 2 ++
    [.request 1 (.time 5), .request 1 (.accept none), .request 1 (.accept none),
    .request 1 (.time 5), .start 1] ++ moves 6 ++
    [.spawn (.complete ownContext 1 9 (.inline (.ofNat 256 2))), .request 2 (.time 5), .start 2] ++
    moves 19

theorem upload_history_of_completion : ∃ (z : World Row Lock BlobError Input Unit Command Response
      Request Reply ObjectStore) (r : BlobUpload),
    (service smallStore fun _ => 0).Reaches () ObjectStore.empty z ∧
      upload z.shared.db 9 = some r ∧ r.status = .completed ∧ Intact smallStore z.shared 9 r := by
  have hrun : ((service smallStore fun _ => 0).run (init () ObjectStore.empty)
      (preparing ++ completing)).map (fun z => (upload z.shared.db 9).map BlobUpload.status) =
      some (some .completed) := by decide +kernel
  obtain ⟨z, hz, heq⟩ := Option.map_eq_some_iff.1 hrun
  obtain ⟨r, hr, hstatus⟩ := Option.map_eq_some_iff.1 heq
  have hreach := Reaches.run .init hz
  exact ⟨z, r, hreach, hr, hstatus, (upload_history hreach).2.1 9 r hr hstatus⟩

end Proxiima.Blobs
