import Proxiima.Blobs.Erasing
import Proxiima.Blobs.Lanes
import Proxiima.ReadCommitted.Disciplines

/-!
# What the blob processes rely on

A stage records a locator only when the object is published, a drain deletes only what it has found
owed, and it acknowledges a delete only against a version that is older than the delete. Where all
processes keep to this, an object is deleted only when its upload is over, and an upload that is
not over keeps the object its row records.
-/

namespace Proxiima.Blobs

open ReadCommitted ReadCommitted.Guarded

abbrev Common := Shared Row BlobError Command Response ObjectStore

/-- The debt after the first `i` answers. -/
def debtAt (g : Common) (i : ℕ) (store : ObjectStoreId) (key : ObjectKey) : Option DebtSlot :=
  get (stateAt g.hist g.db i) (.debt store key)

/-- The drain has found the key owed, in an answer before the moment `t`. -/
def Observed (hist : List (Entry Row BlobError Command Response)) (t drain : ℕ)
    (store : ObjectStoreId) (key : ObjectKey) : Prop :=
  ∃ n e v, n < t ∧ answer hist n = some e ∧ e.cmd = .observe drain store key ∧
    e.result = .ok (.version (some v))

/-- The delete has ended, and the debt had this version before it began. -/
def Deleted (g : Common) (n : ℕ) (store : ObjectStoreId) (key : ObjectKey) (v : ℕ) (ok : Bool) :
    Prop :=
  ∃ d t, g.outside.deletes[n]? = some d ∧ d.store = store ∧ d.key = key ∧ d.drain.isSome ∧
    d.ended = some (t, ok) ∧ d.began ≤ g.hist.length ∧
      ∃ i ≤ d.began, stampOf (debtAt g i store key) = v

variable (H : Hash) (s : CitedBlobStore)

/-- The bytes under the canonical key are these. -/
def Holding (w : ObjectStore) (u : Uuid) (hash sha : Digest) (length : ℕ) : Prop :=
  ∃ bytes, w.object s.storeId (.objects u) = some bytes ∧ s.blake3 bytes = hash ∧
    s.sha256 bytes = sha ∧ bytes.length = length

/-- What a process knows when it runs a transaction. -/
def may : Command → Common → Prop
  | .prepare _ store _ _ _, _ => store = s.storeId
  | .stageLocator _ _ _ u _ p, g => get g.db (.upload u) ≠ none ∧ p.objectKey = .objects u ∧
      ∀ r, upload g.db u = some r → r.status.live = true →
        Holding s g.outside u p.contentHash p.sha256 r.expectedByteLen
  | .clear n store key v, g => Deleted g n store key v true
  | .recordFailure n store key v _ _, g => Deleted g n store key v false
  | _, _ => True

/-- What may become of the object store. -/
inductive Allows (g : Common) : ObjectStore → Prop where
  | same : Allows g g.outside
  | presign (x : ObjectStoreId × Uuid) :
      Allows g { g.outside with issued := x :: g.outside.issued }
  | put {store : ObjectStoreId} {key : ObjectKey} {bytes : Bytes}
      (h : ∀ u, key = .objects u → g.outside.object store key = none) :
      Allows g (g.outside.append g.hist.length store key bytes)
  | remove {n i : ℕ} {d : Delete} {v : Version} (hd : g.outside.deletes[n]? = some d)
      (hv : g.outside.versions[i]? = some v) (hat : v.isAt d.store d.key = true)
      (hpresent : v.removed = none) : Allows g (g.outside.remove g.hist.length i)
  | startDelete {drain : Option ℕ} {store : ObjectStoreId} {key : ObjectKey}
      (hdead : ∀ u, key = .objects u → Dead g.db u)
      (hseen : ∀ i, drain = some i → Observed g.hist g.hist.length i store key) :
      Allows g (g.outside.startDelete g.hist.length drain store key)
  | endDelete {n : ℕ} {d : Delete} {ok : Bool} (hd : g.outside.deletes[n]? = some d)
      (hopen : d.ended = none) (hcovered : ok = true → g.outside.covered d = true) :
      Allows g (g.outside.endDelete g.hist.length n ok)

def lanes : Discipline Row BlobError Command Response ObjectStore where
  effect := (blobs H).Effect
  may := may s
  allows := Allows

/-- Where all begins. -/
def outset : Common := ⟨[], [], .empty⟩

/-! ### What holds throughout -/

structure Sound (g : Common) : Prop where
  run : Run (blobs H).Effect g.db g.hist
  valid : ∀ i ≤ g.hist.length, Valid (stateAt g.hist g.db i)
  owed : ∀ i ≤ g.hist.length, ∀ store u, debt (stateAt g.hist g.db i) store (.objects u) ≠ none →
    Dead (stateAt g.hist g.db i) u
  home : ∀ u r, upload g.db u = some r → r.objectStore = s.storeId
  hidden : ∀ d ∈ g.outside.deletes, ∀ u, d.key = .objects u → Dead g.db u
  published : ∀ u r hash, upload g.db u = some r → r.status.live = true →
    r.contentHash = some hash → ∃ sha, r.sha256 = some sha ∧
      Holding s g.outside u hash sha r.expectedByteLen
  cited : ∀ u r, upload g.db u = some r → r.status = .completed → r.objectKey = .objects u ∧
    ∃ b hash, r.blobId = some b ∧ r.contentHash = some hash ∧
      get g.db (.blob b) = some ⟨r.ownerId, uploadedBlobSchemaId, hash⟩

variable {H s} {g : Common} {e : Entry Row BlobError Command Response} {db : Tables} {u : Uuid}
  {r : BlobUpload}

section

variable (h : Sound H s g) (hbefore : e.before = g.db) (heff : (blobs H).Effect g.hist e db)
include h hbefore heff

/-- What an answer makes of a row. -/
lemma Sound.row (k : Key) :
    get db k = get g.db k ∨ legal k (get g.db k) (get db k) ∧
      Changed e.cmd db k (get g.db k) (get db k) := by
  unfold Effect at heff
  split at heff
  · obtain ⟨⟨-, hpost⟩, hlegal⟩ := heff
    rw [hbefore] at hpost hlegal
    have hvalid : ∀ d, During g.hist g.db e.since d → Valid d := by
      rintro d ⟨n, -, hn, rfl⟩
      exact h.valid n hn
    rcases hlegal k with hsame | hl
    · exact .inl hsame
    · exact (hpost hvalid k).imp id fun hc => ⟨hl, hc⟩
  · exact .inl (by rw [heff, hbefore])

/-- The row an upload had before, and what became of it. -/
lemma Sound.upload_row (hr : upload db u = some r) :
    upload g.db u = some r ∨
      (get g.db (.upload u) = none ∧ legal (.upload u) none (some (.row r)) ∧
        Changed e.cmd db (.upload u) none (some (.row r))) ∨
      ∃ r₀, upload g.db u = some r₀ ∧ r₀.Legal r ∧
        Changed e.cmd db (.upload u) (some (.row r₀)) (some (.row r)) := by
  rw [upload_eq_some] at hr
  have hrow := h.row hbefore heff (.upload u)
  rw [hr] at hrow
  rcases hrow with hsame | ⟨hlegal, hchanged⟩
  · exact .inl (upload_eq_some.2 hsame.symm)
  · cases hold : get g.db (.upload u) with
    | none =>
      rw [hold] at hlegal hchanged
      exact .inr (.inl ⟨rfl, hlegal, hchanged⟩)
    | some slot =>
      rw [hold] at hlegal hchanged
      cases slot with
      | row r₀ => exact .inr (.inr ⟨r₀, upload_eq_some.2 hold, hlegal, hchanged⟩)
      | erased store => exact hlegal.elim

lemma Sound.dead (hdead : Dead g.db u) : Dead db u := by
  rcases h.row hbefore heff (.upload u) with hsame | ⟨hlegal, -⟩
  · obtain ⟨slot, hslot, hend⟩ := hdead
    exact ⟨slot, hsame.trans hslot, hend⟩
  · exact legal_ended hlegal hdead

end

/-- A live upload is not over. -/
lemma Dead.not_live (h : Dead db u) (hr : upload db u = some r) (hlive : r.status.live = true) :
    False := by
  obtain ⟨slot, hslot, hend⟩ := h
  rw [upload_eq_some, hslot] at hr
  obtain rfl : slot = .row r := Option.some.inj hr
  simp [UploadSlot.ended, hlive] at hend

variable {p : UploadedBlobPayload}

lemma stages_cmd {c : Command} (h : c.stages = some (u, p)) :
    ∃ scope store owner loaded, c = .stageLocator scope store owner u loaded p := by
  cases c with
  | stageLocator scope store owner u' loaded p' =>
    obtain ⟨rfl, rfl⟩ : u' = u ∧ p' = p := by simpa [Command.stages] using h
    exact ⟨scope, store, owner, loaded, rfl⟩
  | _ => cases h

lemma may_of_stages {c : Command} (h : c.stages = some (u, p)) (hmay : may s c g) :
    get g.db (.upload u) ≠ none ∧
      p.objectKey = .objects u ∧ ∀ r, upload g.db u = some r → r.status.live = true →
        Holding s g.outside u p.contentHash p.sha256 r.expectedByteLen := by
  obtain ⟨scope, store, owner, loaded, rfl⟩ := stages_cmd h
  exact hmay

/-! ### An answer -/

section Answer

variable {e : Entry Row BlobError Command Response} {db : Tables}

section

variable (h : Sound H s g) (hbefore : e.before = g.db) (heff : (blobs H).Effect g.hist e db)
include h hbefore heff

lemma Sound.valid_answer (hmay : may s e.cmd g) : Valid db := by
  have hnow : Valid g.db := by simpa only [stateAt_length] using h.valid _ (Nat.le_refl _)
  intro u r hr
  rcases h.upload_row hbefore heff hr with hsame | ⟨-, hlegal, hkey, -⟩ | ⟨r₀, hr₀, hlegal, hkey, -⟩
  · exact hnow u r hsame
  · exact ⟨hlegal.2.2.1, .inr hkey⟩
  · obtain ⟨hmount, hold⟩ := hnow u r₀ hr₀
    refine ⟨hlegal.mount.trans hmount, ?_⟩
    rcases hkey with hsame | hcanonical | ⟨p, hstages, hp⟩
    · rwa [hsame]
    · exact .inl hcanonical
    · exact .inl (hp.trans (may_of_stages hstages hmay).2.1)

lemma Sound.owed_answer (hmay : may s e.cmd g) {store : ObjectStoreId}
    (hdebt : debt db store (.objects u) ≠ none) : Dead db u := by
  by_cases hold : debt g.db store (.objects u) = none
  · rcases h.row hbefore heff (.debt store (.objects u)) with hsame | ⟨-, -, -, hnew⟩
    · exact absurd ((congrArg debtOf hsame).trans hold) hdebt
    · rcases hnew hold u rfl with hdead | ⟨u', p, hstages, hkey, hnone⟩
      · exact hdead
      · -- the stage knows that its row was there, so it has been erased
        obtain ⟨hslot, hp, -⟩ := may_of_stages hstages hmay
        obtain rfl : u' = u := by simpa [hp] using hkey
        obtain ⟨slot, hslot⟩ := Option.ne_none_iff_exists'.1 hslot
        have hafter : ∃ slot', get db (.upload u') = some slot' := by
          rcases h.row hbefore heff (.upload u') with hsame | ⟨hlegal, -⟩
          · exact ⟨slot, hsame.trans hslot⟩
          · cases hget : get db (.upload u') with
            | some slot' => exact ⟨slot', rfl⟩
            | none =>
              rw [hslot, hget] at hlegal
              cases slot <;> exact hlegal.elim
        obtain ⟨slot', hslot'⟩ := hafter
        cases slot' with
        | row r => cases hnone.symm.trans (upload_eq_some.2 hslot')
        | erased store => exact ⟨_, hslot', rfl⟩
  · refine h.dead hbefore heff ?_
    have := h.owed g.hist.length (Nat.le_refl _) store u
    rw [stateAt_length] at this
    exact this hold

lemma Sound.published_answer (hmay : may s e.cmd g) {hash : Digest} (hr : upload db u = some r)
    (hlive : r.status.live = true) (hhash : r.contentHash = some hash) :
    ∃ sha, r.sha256 = some sha ∧ Holding s g.outside u hash sha r.expectedByteLen := by
  rcases h.upload_row hbefore heff hr with hsame | ⟨-, hlegal, -⟩ | ⟨r₀, hr₀, hlegal, -, hstage, -⟩
  · exact h.published u r hash hsame hlive hhash
  · cases hlegal.2.1.symm.trans hhash
  · cases hlegal.transition with
    | stage hp hp' _ =>
      obtain ⟨p, hstages, rfl⟩ := hstage hp'
      obtain rfl : p.contentHash = hash := Option.some.inj hhash
      exact ⟨p.sha256, rfl,
        (may_of_stages hstages hmay).2.2 r₀ hr₀ (by simp [hp, UploadStatus.live])⟩
    | complete hp _ _ hsame hsha =>
      rw [hsha, hlegal.length]
      exact h.published u r₀ hash hr₀ (by simp [hp, UploadStatus.live]) (hsame.symm.trans hhash)
    | abort _ hp' _ | expire _ hp' _ _ => simp [hp', UploadStatus.live] at hlive
    | repair hp hsame _ => simp [hsame, hp] at hlive

lemma Sound.cited_answer (hr : upload db u = some r) (hstatus : r.status = .completed) :
    r.objectKey = .objects u ∧
      ∃ b hash, r.blobId = some b ∧ r.contentHash = some hash ∧
        get db (.blob b) = some ⟨r.ownerId, uploadedBlobSchemaId, hash⟩ := by
  rcases h.upload_row hbefore heff hr with hsame | ⟨-, hlegal, -⟩ | ⟨r₀, hr₀, hlegal, -, -, hdone⟩
  · obtain ⟨hkey, b, hash, hb, hhash, hblob⟩ := h.cited u r hsame hstatus
    refine ⟨hkey, b, hash, hb, hhash, ?_⟩
    -- a blob that a row refers to is not deleted
    rcases h.row hbefore heff (.blob b) with hkept | ⟨hlegal, hchanged⟩
    · exact hkept.trans hblob
    · rw [hblob] at hlegal hchanged
      cases hget : get db (.blob b) with
      | some row =>
        rw [hget] at hlegal
        exact hlegal.elim
      | none =>
        rw [hget] at hchanged
        exact absurd hb (hchanged u r hr)
  · cases hlegal.1.symm.trans hstatus
  · obtain ⟨hkey, b, hash, hb, hhash, hblob⟩ := hdone hstatus
    refine ⟨hkey, b, hash, hb, ?_, hlegal.owner.symm ▸ hblob⟩
    cases hlegal.transition with
    | complete _ _ _ hsame _ => exact hsame.trans hhash
    | stage _ hp' _ | abort _ hp' _ | expire _ hp' _ _ => cases hp'.symm.trans hstatus
    | repair hp hsame _ => simp [← hsame, hstatus, UploadStatus.live] at hp

lemma Sound.answer (hmay : may s e.cmd g) : Sound H s (g.answered e db) := by
  have hlen : (g.answered e db).hist.length = g.hist.length + 1 := rfl
  have hlast : stateAt (g.answered e db).hist (g.answered e db).db (g.hist.length + 1) = db := by
    change stateAt (e :: g.hist) db (e :: g.hist).length = db
    exact stateAt_length
  have hpast : ∀ i ≤ g.hist.length,
      stateAt (g.answered e db).hist (g.answered e db).db i = stateAt g.hist g.db i :=
    fun i hi => stateAt_cons hi hbefore
  refine ⟨.step h.run hbefore heff, fun i hi => ?_, fun i hi store u hdebt => ?_, fun u r hr => ?_,
    fun d hd u hu => h.dead hbefore heff (h.hidden d hd u hu),
    fun u r hash hr hlive hhash => h.published_answer hbefore heff hmay hr hlive hhash,
    fun u r hr hstatus => h.cited_answer hbefore heff hr hstatus⟩
  · rcases Nat.lt_or_eq_of_le (hlen ▸ hi) with hlt | rfl
    · rw [hpast i (Nat.le_of_lt_succ hlt)]
      exact h.valid i (Nat.le_of_lt_succ hlt)
    · rw [hlast]
      exact h.valid_answer hbefore heff hmay
  · rcases Nat.lt_or_eq_of_le (hlen ▸ hi) with hlt | rfl
    · rw [hpast i (Nat.le_of_lt_succ hlt)] at hdebt ⊢
      exact h.owed i (Nat.le_of_lt_succ hlt) store u hdebt
    · rw [hlast] at hdebt ⊢
      exact h.owed_answer hbefore heff hmay hdebt
  · rcases h.upload_row hbefore heff hr with hsame | ⟨-, -, -, hprep⟩ | ⟨r₀, hr₀, hlegal, -⟩
    · exact h.home u r hsame
    · cases hcmd : e.cmd with
      | prepare scope store owner u' req =>
        rw [hcmd] at hprep hmay
        obtain rfl : store = r.objectStore := Option.some.inj hprep
        exact hmay
      | _ => rw [hcmd] at hprep; cases hprep
    · exact hlegal.store.trans (h.home u r₀ hr₀)

end

end Answer

/-! ### A change outside -/

lemma Sound.outside (h : Sound H s g) {w : ObjectStore} (hall : Allows g w) :
    Sound H s { g with outside := w } := by
  have hobject : ∀ u r, upload g.db u = some r → r.status.live = true →
      g.outside.object s.storeId (.objects u) ≠ none →
      w.object s.storeId (.objects u) = g.outside.object s.storeId (.objects u) := by
    intro u r hr hlive hsome
    cases hall with
    | same | presign | startDelete | endDelete => rfl
    | @put store key bytes hput =>
      refine ObjectStore.object_append_ne _ ?_
      rintro ⟨rfl, rfl⟩
      exact hsome (hput u rfl)
    | @remove n i d v hd hv hat =>
      refine ObjectStore.object_remove_ne hv (Bool.eq_false_iff.2 fun hv' => ?_)
      -- the delete is one of an upload that is over
      have hkey : d.key = .objects u := by
        simp only [Version.isAt, Bool.and_eq_true, decide_eq_true_eq] at hat hv'
        exact hat.2.symm.trans hv'.2
      exact (h.hidden d (List.mem_of_getElem? hd) u hkey).not_live hr hlive
  refine ⟨h.run, h.valid, h.owed, h.home, fun d hd u hu => ?_, fun u r hash hr hlive hhash => ?_,
    h.cited⟩
  · cases hall with
    | same | presign | put | remove => exact h.hidden d hd u hu
    | startDelete hdead _ =>
      rcases List.mem_append.1 hd with hd | hd
      · exact h.hidden d hd u hu
      · obtain rfl := List.mem_singleton.1 hd
        exact hdead u hu
    | @endDelete n d₀ ok hd₀ =>
      obtain ⟨m, hm⟩ := List.getElem?_of_mem hd
      simp only [ObjectStore.endDelete, List.getElem?_modify] at hm
      obtain ⟨d', hd', heq⟩ := Option.map_eq_some_iff.1 hm
      refine h.hidden d' (List.mem_of_getElem? hd') u ?_
      rw [← hu, ← heq]
      split <;> rfl
  · obtain ⟨sha, hsha, bytes, hbytes, hrest⟩ := h.published u r hash hr hlive hhash
    exact ⟨sha, hsha, bytes, (hobject u r hr hlive (by simp [hbytes])).trans hbytes, hrest⟩

lemma sound_outset : Sound H s outset where
  run := .nil
  valid i hi u r hr := by
    obtain rfl : i = 0 := Nat.le_zero.1 hi
    cases hr
  owed i hi store u hdebt := by
    obtain rfl : i = 0 := Nat.le_zero.1 hi
    exact absurd rfl hdebt
  home u r hr := nomatch hr
  hidden d hd := nomatch hd
  published u r hash hr := nomatch hr
  cited u r hr := nomatch hr

lemma stable_sound : (lanes H s).Stable (Sound H s) := by
  intro g g' h hmove
  cases hmove with
  | answer hbefore heff hmay => exact h.answer hbefore heff hmay
  | outside hall => exact h.outside hall

/-- **What the processes rely on holds**, whatever they do by their discipline. -/
theorem sound_of_moves (h : (lanes H s).Moves outset g) : Sound H s g :=
  stable_sound.moves sound_outset h

end Proxiima.Blobs
