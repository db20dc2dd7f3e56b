import Proxiima.Blobs.LanesVerified

/-!
# The history of purge debts

Deletes and versions carry the moments at which they began, ended, were put and were removed. A
debt disappears only through an acknowledgement of a delete that began after the debt was last
written, and every version that was there before then is gone by the time of the acknowledgement.
-/

namespace Proxiima.Blobs

open ReadCommitted ReadCommitted.Guarded ReadCommitted.Cluster

variable {H : Hash} {s : CitedBlobStore} {g g' : Common}

/-! ### Moments -/

/-- The moments of a delete. Versions put before it began are due; once it has ended well, those
of its key are removed. -/
structure Delete.Timed (g : Common) (d : Delete) : Prop where
  began : d.began ≤ g.hist.length
  ended : ∀ t ok, d.ended = some (t, ok) → d.began ≤ t ∧ t ≤ g.hist.length
  bound : d.due ≤ g.outside.versions.length
  due : ∀ (i : ℕ) v, g.outside.versions[i]? = some v → v.put < d.began → i < d.due
  gone : ∀ t, d.ended = some (t, true) → ∀ (i : ℕ) v, g.outside.versions[i]? = some v →
    i < d.due → v.isAt d.store d.key = true → ∃ t', v.removed = some t' ∧ t' ≤ t
  seen : ∀ i, d.drain = some i → Observed g.hist d.began i d.store d.key

structure Timed (g : Common) : Prop where
  removed : ∀ v ∈ g.outside.versions, ∀ t, v.removed = some t → t ≤ g.hist.length
  deletes : ∀ d ∈ g.outside.deletes, d.Timed g

variable {d : Delete} {n i v : ℕ} {ok : Bool} {e : Entry Row BlobError Command Response}
  {store : ObjectStoreId} {key : ObjectKey}

/-- The answers go on, and the moments stay. -/
lemma Delete.Timed.answer (h : d.Timed g) (hm : (lanes H s).Moves g g')
    (hw : g'.outside = g.outside) : d.Timed g' where
  began := h.began.trans (Discipline.length_le hm)
  ended t ok ht := ⟨(h.ended t ok ht).1, (h.ended t ok ht).2.trans (Discipline.length_le hm)⟩
  bound := hw ▸ h.bound
  due := hw ▸ h.due
  gone := hw ▸ h.gone
  seen i hi := (h.seen i hi).of_moves hm

lemma Delete.Timed.put (h : d.Timed g) (store : ObjectStoreId) (key : ObjectKey) (bytes : Bytes) :
    d.Timed { g with outside := g.outside.append g.hist.length store key bytes } where
  began := h.began
  ended := h.ended
  bound := by
    simp only [ObjectStore.append, List.length_append]
    exact Nat.le_add_right_of_le h.bound
  due i v hv hput := by
    simp only [ObjectStore.append, List.getElem?_append] at hv
    split at hv
    · exact h.due i v hv hput
    · -- the new version is not older than the delete
      obtain rfl := List.mem_singleton.1 (List.mem_of_getElem? hv)
      exact absurd hput (Nat.not_lt.2 h.began)
  gone t ht i v hv hi hat := by
    simp only [ObjectStore.append] at hv
    rw [List.getElem?_append_left (Nat.lt_of_lt_of_le hi h.bound)] at hv
    exact h.gone t ht i v hv hi hat
  seen := h.seen

lemma Delete.Timed.remove (h : d.Timed g) {w : Version} (hw : g.outside.versions[n]? = some w)
    (hpresent : w.removed = none) :
    d.Timed { g with outside := g.outside.remove g.hist.length n } where
  began := h.began
  ended := h.ended
  bound := by simpa only [ObjectStore.remove, List.length_modify] using h.bound
  due i v hv hput := by
    simp only [ObjectStore.remove, List.getElem?_modify] at hv
    obtain ⟨v', hv', rfl⟩ := Option.map_eq_some_iff.1 hv
    refine h.due i v' hv' ?_
    split at hput <;> exact hput
  gone t ht i v hv hi hat := by
    simp only [ObjectStore.remove, List.getElem?_modify] at hv
    obtain ⟨v', hv', rfl⟩ := Option.map_eq_some_iff.1 hv
    by_cases hni : n = i
    · -- a version is removed once
      subst hni
      obtain rfl := Option.mem_unique hw hv'
      obtain ⟨t', hremoved, -⟩ := h.gone t ht n w hw hi (by simpa [Version.isAt] using hat)
      cases hpresent.symm.trans hremoved
    · simp only [if_neg hni] at hat ⊢
      exact h.gone t ht i v' hv' hi hat
  seen := h.seen

lemma Delete.Timed.ends (h : d.Timed g)
    (hremoved : ∀ v ∈ g.outside.versions, ∀ t, v.removed = some t → t ≤ g.hist.length)
    (hcovered : ok = true → g.outside.covered d = true) :
    { d with ended := some (g.hist.length, ok) : Delete }.Timed g where
  began := h.began
  ended t ok' ht := by
    obtain ⟨rfl, -⟩ := Prod.mk.inj (Option.some.inj ht)
    exact ⟨h.began, Nat.le_refl _⟩
  bound := h.bound
  due := h.due
  gone t ht i v hv hi hat := by
    obtain ⟨rfl, hok⟩ := Prod.mk.inj (Option.some.inj ht)
    have hmem : v ∈ g.outside.versions.take d.due := by
      refine List.mem_of_getElem? (i := i) ?_
      rw [List.getElem?_take_of_lt hi]
      exact hv
    have hgone := List.all_eq_true.1 (hcovered hok) v hmem
    have hat' : v.isAt d.store d.key = true := hat
    simp only [hat', Bool.not_true, Bool.false_or] at hgone
    obtain ⟨t', ht'⟩ := Option.isSome_iff_exists.1 hgone
    exact ⟨t', ht', hremoved v (List.mem_of_getElem? hv) t' ht'⟩
  seen := h.seen

/-- Only the versions, the answers and the moment matter. -/
lemma Delete.Timed.of_versions (h : d.Timed g) {w : ObjectStore}
    (hw : w.versions = g.outside.versions) : d.Timed { g with outside := w } where
  began := h.began
  ended := h.ended
  bound := hw ▸ h.bound
  due := hw ▸ h.due
  gone := hw ▸ h.gone
  seen := h.seen

lemma Timed.answer (h : Timed g) {db : Tables} (hm : (lanes H s).Move g (g.answered e db)) :
    Timed (g.answered e db) where
  removed v hv t ht := Nat.le_succ_of_le (h.removed v hv t ht)
  deletes d hd := (h.deletes d hd).answer (.single hm) rfl

lemma Timed.outside (h : Timed g) {w : ObjectStore} (hall : Allows g w) :
    Timed { g with outside := w } := by
  cases hall with
  | same => exact h
  | presign => exact ⟨h.removed, fun d hd => (h.deletes d hd).of_versions rfl⟩
  | put =>
    refine ⟨fun v hv t ht => ?_, fun d hd => (h.deletes d hd).put _ _ _⟩
    rcases List.mem_append.1 hv with hv | hv
    · exact h.removed v hv t ht
    · obtain rfl := List.mem_singleton.1 hv
      cases ht
  | @remove n i d v hd hv hat hpresent =>
    refine ⟨fun v' hv' t ht => ?_, fun d hd => (h.deletes d hd).remove hv hpresent⟩
    obtain ⟨j, hj⟩ := List.getElem?_of_mem hv'
    simp only [ObjectStore.remove, List.getElem?_modify] at hj
    obtain ⟨v₀, hv₀, rfl⟩ := Option.map_eq_some_iff.1 hj
    split at ht
    · exact Nat.le_of_eq (Option.some.inj ht).symm
    · exact h.removed v₀ (List.mem_of_getElem? hv₀) t ht
  | startDelete hdead hseen =>
    refine ⟨h.removed, fun d hd => ?_⟩
    rcases List.mem_append.1 hd with hd | hd
    · exact (h.deletes d hd).of_versions rfl
    · obtain rfl := List.mem_singleton.1 hd
      exact ⟨Nat.le_refl _, fun _ _ ht => (by cases ht), Nat.le_refl _,
        fun i v hv _ => (List.getElem?_eq_some_iff.1 hv).1, fun _ ht => (by cases ht), hseen⟩
  | @endDelete n d ok hd hopen hcovered =>
    refine ⟨h.removed, fun d' hd' => ?_⟩
    obtain ⟨j, hj⟩ := List.getElem?_of_mem hd'
    simp only [ObjectStore.endDelete, List.getElem?_modify] at hj
    obtain ⟨d₀, hd₀, rfl⟩ := Option.map_eq_some_iff.1 hj
    have hd₀' := h.deletes d₀ (List.mem_of_getElem? hd₀)
    split
    · rename_i hnj
      subst hnj
      obtain rfl := Option.mem_unique hd hd₀
      exact (hd₀'.ends h.removed hcovered).of_versions rfl
    · exact hd₀'.of_versions rfl

lemma timed_of_moves (h : Reached H s g) : Timed g := by
  have hstable : (lanes H s).Stable Timed := by
    intro x x' hx hmove
    cases hmove with
    | answer hbefore heff hmay => exact hx.answer (.answer hbefore heff hmay)
    | outside hall => exact hx.outside hall
  exact hstable.moves
    ⟨fun _ hv => (List.not_mem_nil hv).elim, fun _ hd => (List.not_mem_nil hd).elim⟩ h

/-! ### The versions of a debt -/

/-- A debt with an old stamp has not been written since. -/
lemma stamp_le {j : ℕ} (hs : Sound H s g) (hij : i ≤ j) (hj : j ≤ g.hist.length)
    (store : ObjectStoreId) (key : ObjectKey) :
    stampOf (debtAt g i store key) ≤ stampOf (debtAt g j store key) ∧
      (stampOf (debtAt g j store key) = stampOf (debtAt g i store key) →
        debtAt g j store key = debtAt g i store key) := by
  have hf := follows_of_run hs.run hij hj
  refine hf.keeps (k := .debt store key) (P := fun o : Option DebtSlot =>
    stampOf (debtAt g i store key) ≤ stampOf o ∧
      (stampOf o = stampOf (debtAt g i store key) → o = debtAt g i store key))
    ⟨Nat.le_refl _, fun _ => rfl⟩ ?_
  rintro o o' ⟨hle, -⟩ ⟨hlegal, -⟩
  cases o' with
  | none => exact hlegal.elim
  | some slot =>
    have hstamp : slot.stamp = stampOf o + 1 := hlegal
    have hslot : stampOf (some slot) = slot.stamp := rfl
    exact ⟨by omega, fun heq => by omega⟩

lemma debtAt_eq_of_stamp {j k : ℕ} (hs : Sound H s g) (hij : i ≤ j) (hjk : j ≤ k)
    (hk : k ≤ g.hist.length)
    (hstamp : stampOf (debtAt g i store key) = stampOf (debtAt g k store key)) :
    debtAt g j store key = debtAt g k store key := by
  have h₁ := (stamp_le hs hij (hjk.trans hk) store key).1
  have h₂ := stamp_le hs hjk hk store key
  exact (h₂.2 (by omega)).symm

/-! ### Acknowledgements -/

/-- The delete a command acknowledges, with the debt, the version and whether it went well. -/
def Command.delete : Command → Option (ℕ × ObjectStoreId × ObjectKey × ℕ × Bool)
  | .clear n store key v => some (n, store, key, v, true)
  | .recordFailure n store key v _ _ => some (n, store, key, v, false)
  | _ => none

lemma may_of_delete {c : Command} (h : c.delete = some (n, store, key, v, ok)) (hmay : may s c g) :
    Deleted g n store key v ok := by
  cases c with
  | clear | recordFailure =>
    cases h
    exact hmay
  | _ => cases h

lemma acknowledges_of_delete {c : Command} (h : c.delete = some (n, store, key, v, ok)) :
    c.acknowledges = some (store, key, v) := by
  cases c with
  | clear | recordFailure =>
    cases h
    rfl
  | _ => cases h

/-- The delete that an answer acknowledges, and the version of the debt before it began. -/
lemma delete_of_answer (hg : Reached H s g) {m : ℕ} (he : answer g.hist n = some e)
    (hdelete : e.cmd.delete = some (m, store, key, v, ok)) :
    ∃ d t, g.outside.deletes[m]? = some d ∧ d.store = store ∧ d.key = key ∧ d.drain.isSome ∧
      d.ended = some (t, ok) ∧ d.began ≤ t ∧ t ≤ n ∧
      ∃ i ≤ d.began, stampOf (debtAt g i store key) = v := by
  obtain ⟨g', hg', hlen, hbefore, hmay, -, hsuf, db, hrest⟩ := Discipline.exists_answer_move hg he
  obtain ⟨d, t, hd, hstore, hkey, hdrain, hended, -, i, hi, hstamp⟩ := may_of_delete hdelete hmay
  have htimed := (timed_of_moves hg').deletes d (List.mem_of_getElem? hd)
  obtain ⟨hbegan, ht⟩ := htimed.ended t ok hended
  have hd' : (g'.answered e db).outside.deletes[m]? = some d := hd
  obtain ⟨ended, hfinal, hsame⟩ := delete_of_moves hrest hd'
  obtain rfl := hsame (by simp [hended])
  refine ⟨d, t, hfinal, hstore, hkey, hdrain, hended, hbegan, hlen ▸ ht, i, hi, ?_⟩
  have hpast := stateAt_of_suffix g.db hsuf (hi.trans htimed.began)
  rw [hbefore] at hpast
  rwa [debtAt, ← hpast]

/-- What an answer makes of a debt. -/
lemma debt_of_answer (hg : Reached H s g) (he : answer g.hist n = some e) (store : ObjectStoreId)
    (key : ObjectKey) :
    debtAt g (n + 1) store key = debtAt g n store key ∨
      (∀ store' key' v, e.cmd.acknowledges = some (store', key', v) →
        store' = store ∧ key' = key ∧ v = stampOf (debtAt g n store key)) ∧
      (debtOf (debtAt g (n + 1) store key) = none →
        ∃ m, e.cmd = .clear m store key (stampOf (debtAt g n store key))) := by
  obtain ⟨g', hg', hlen, hbefore, -, heff, hsuf, -⟩ := Discipline.exists_answer_move hg he
  have hnow : get g'.db (.debt store key) = debtAt g n store key := by
    have hpast := stateAt_of_suffix g.db hsuf (Nat.le_refl _)
    rw [stateAt_length, hlen] at hpast
    rw [debtAt, ← hpast, hbefore]
  have hrow := (sound_of_moves hg').row hbefore heff (.debt store key)
  rw [hnow] at hrow
  exact hrow.imp id fun h => ⟨h.2.1, h.2.2.1⟩

/-- The answer `n` removes the debt. -/
def Removes (g : Common) (n : ℕ) (store : ObjectStoreId) (key : ObjectKey) : Prop :=
  n < g.hist.length ∧ debtOf (debtAt g n store key) ≠ none ∧
    debtOf (debtAt g (n + 1) store key) = none

/-- The delete is one of a drain, on this key of this store. It ended well before the answer `n`,
and from when it began until then the debt was not written. -/
def Delete.Clears (g : Common) (n : ℕ) (store : ObjectStoreId) (key : ObjectKey) (d : Delete) :
    Prop :=
  d.drain.isSome ∧ d.store = store ∧ d.key = key ∧
    (∃ t, d.ended = some (t, true) ∧ d.began ≤ t ∧ t ≤ n) ∧
    ∀ i, d.began ≤ i → i ≤ n → debtAt g i store key = debtAt g n store key

lemma clears_of_removes (hg : Reached H s g) (h : Removes g n store key) :
    ∃ e m v d, answer g.hist n = some e ∧
      e.cmd = .clear m store key v ∧ g.outside.deletes[m]? = some d ∧ d.Clears g n store key := by
  obtain ⟨hn, hsome, hnone⟩ := h
  obtain ⟨e, he⟩ := exists_answer hn
  rcases debt_of_answer hg he store key with hsame | ⟨-, hclear⟩
  · exact absurd (hsame ▸ hnone) hsome
  obtain ⟨m, hcmd⟩ := hclear hnone
  obtain ⟨d, t, hd, hstore, hkey, hdrain, hended, hbegan, ht, i, hi, hstamp⟩ :=
    delete_of_answer hg he (by rw [hcmd]; rfl)
  refine ⟨e, m, _, d, he, hcmd, hd, hdrain, hstore, hkey, ⟨t, hended, hbegan, ht⟩, ?_⟩
  exact fun j hj hjn => debtAt_eq_of_stamp (sound_of_moves hg) (hi.trans hj) hjn hn.le hstamp

/-- An acknowledgement that comes after a renewal changes no debt. -/
lemma renewed_kept (hg : Reached H s g) {m : ℕ} (he : answer g.hist n = some e)
    (hdelete : e.cmd.delete = some (m, store, key, v, ok)) (hd : g.outside.deletes[m]? = some d)
    (hi : d.began ≤ i) (hin : i ≤ n) (hrenewed : debtAt g i store key ≠ debtAt g n store key)
    (store' : ObjectStoreId) (key' : ObjectKey) :
    debtAt g (n + 1) store' key' = debtAt g n store' key' := by
  rcases debt_of_answer hg he store' key' with hsame | ⟨hack, -⟩
  · exact hsame
  obtain ⟨rfl, rfl, rfl⟩ := hack store key v (acknowledges_of_delete hdelete)
  obtain ⟨d', t, hd', -, -, -, -, -, -, j, hj, hstamp⟩ := delete_of_answer hg he hdelete
  obtain rfl := Option.mem_unique hd hd'
  exact absurd (debtAt_eq_of_stamp (sound_of_moves hg) (hj.trans hi) hin (answer_lt he).le hstamp)
    hrenewed

/-- What a drain has observed was there. -/
lemma observed_owed (hg : Reached H s g) {t drain : ℕ} (h : Observed g.hist t drain store key) :
    ∃ n e j v, n < t ∧ answer g.hist n = some e ∧
      e.cmd = .observe drain store key ∧ e.result = .ok (.version (some v)) ∧ e.since ≤ j ∧ j ≤ n ∧
      debtOf (debtAt g j store key) ≠ none ∧ stampOf (debtAt g j store key) = v := by
  obtain ⟨n, e, v, hn, he, hcmd, hres⟩ := h
  obtain ⟨g', -, hlen, hbefore, -, heff, hsuf, -⟩ := Discipline.exists_answer_move hg he
  simp only [lanes, Effect, hres] at heff
  obtain ⟨⟨hans, -⟩, -⟩ := heff
  rw [hcmd] at hans
  obtain ⟨d, ⟨j, hsince, hj, rfl⟩, howed, hstamp⟩ := hans
  have hpast := stateAt_of_suffix g.db hsuf hj
  rw [hpast] at howed hstamp
  exact ⟨n, e, j, v, hn, he, hcmd, hres, hsince, hlen ▸ hj, howed, hstamp⟩

/-- The objects of a removed debt are gone, if they are older than its last renewal. -/
lemma object_removed (hg : Reached H s g) (h : Removes g n store key) (hin : i < n)
    (hrenewed : debtAt g (i + 1) store key ≠ debtAt g i store key) {v : Version}
    (hv : v ∈ g.outside.versions) (hat : v.isAt store key = true) (hput : v.put ≤ i) :
    ∃ t ≤ n, v.removed = some t := by
  obtain ⟨e, m, v', d, -, -, hd, -, rfl, rfl, ⟨t, hended, -, ht⟩, hsame⟩ := clears_of_removes hg h
  have htimed := (timed_of_moves hg).deletes d (List.mem_of_getElem? hd)
  -- the debt was not written after the delete began
  have hbegan : i < d.began := by
    by_contra hle
    rw [Nat.not_lt] at hle
    exact hrenewed ((hsame (i + 1) (Nat.le_succ_of_le hle) hin).trans (hsame i hle hin.le).symm)
  obtain ⟨j, hj⟩ := List.getElem?_of_mem hv
  have hdue := htimed.due j v hj (Nat.lt_of_le_of_lt hput hbegan)
  obtain ⟨t', ht', hle⟩ := htimed.gone t hended j v hj hdue hat
  exact ⟨t', hle.trans ht, ht'⟩

/-- **A debt disappears after its objects.** Only a drain removes it, with a delete of that key in
that store that began after the debt was last written and ended well. An acknowledgement of a
delete that a renewal has overtaken changes no debt, a drain deletes only what it has observed, and
what was put before a renewal is removed by the time the debt is. -/
theorem debt_history {z : World Row Lock BlobError Input Unit Command Response Request Reply
    ObjectStore} (h : (service s H).Reaches () ObjectStore.empty z) :
    (∀ n store key, Removes z.shared n store key → ∃ e m v d, answer z.shared.hist n = some e ∧
      e.cmd = .clear m store key v ∧ z.shared.outside.deletes[m]? = some d ∧
      d.Clears z.shared n store key) ∧
    (∀ n e m store key v ok d i, answer z.shared.hist n = some e →
      e.cmd.delete = some (m, store, key, v, ok) → z.shared.outside.deletes[m]? = some d →
      d.began ≤ i → i ≤ n → debtAt z.shared i store key ≠ debtAt z.shared n store key →
      ∀ store' key', debtAt z.shared (n + 1) store' key' = debtAt z.shared n store' key') ∧
    (∀ d ∈ z.shared.outside.deletes, ∀ drain, d.drain = some drain →
      ∃ n e j v, n < d.began ∧ answer z.shared.hist n = some e ∧
        e.cmd = .observe drain d.store d.key ∧ e.result = .ok (.version (some v)) ∧
        e.since ≤ j ∧ j ≤ n ∧ debtOf (debtAt z.shared j d.store d.key) ≠ none ∧
        stampOf (debtAt z.shared j d.store d.key) = v) ∧
    ∀ n i store key, Removes z.shared n store key → i < n →
      debtAt z.shared (i + 1) store key ≠ debtAt z.shared i store key →
      ∀ v ∈ z.shared.outside.versions, v.isAt store key = true → v.put ≤ i →
        ∃ t ≤ n, v.removed = some t := by
  have hg := moves_of_service h
  refine ⟨fun n store key hr => clears_of_removes hg hr, ?_, fun d hd drain hdrain => ?_, ?_⟩
  · exact fun n e m store key v ok d i he hdel hd hi hin hne =>
      renewed_kept hg he hdel hd hi hin hne
  · exact observed_owed hg (((timed_of_moves hg).deletes d hd).seen drain hdrain)
  · exact fun n i store key hr hin hne v hv hat hput => object_removed hg hr hin hne hv hat hput

/-! ### A run -/

instance (g : Common) (n : ℕ) (store : ObjectStoreId) (key : ObjectKey) :
    Decidable (Removes g n store key) := inferInstanceAs (Decidable (_ ∧ _ ∧ _))

/-- A store whose digests are lengths. -/
def smallStore : CitedBlobStore where
  blake3 bytes := .ofNat 256 bytes.length
  sha256 bytes := .ofNat 256 bytes.length
  storeId := "s3"
  maxBlobBytes := 100
  uploadTtlSeconds := 60

/-- The subject 1 with its own role. -/
def ownContext : Authz.AuthzContext :=
  { Authz.AuthzContext.serverResolvedWithWriter (.scopedTo 1 1 .personal) .hostBearer ⟨1, none⟩ with
    ownerScope := .sealed (.fromVerifiedRoles (.scopedTo 1 1 .personal) none ⟨1, none⟩) }

/-- Move the only live transaction `n` times. -/
def moves (n : ℕ) : List (Event Input Program Choice) :=
  List.replicate n (.run 0 ⟨5, false, 7⟩ true)

/-- The upload 9 of two bytes is prepared, and the client puts them. -/
def preparing : List (Event Input Program Choice) :=
  [.spawn (.prepare ownContext 1 9 ⟨"f", "m", 2, 0⟩), .request 0 (.accept none),
    .request 0 (.time 5), .start 0] ++ moves 6 ++ [.drift (.clientPut "s3" 9 [1, 2])]

/-- The upload is aborted and the debt for its transfer key drained. -/
def aborting : List (Event Input Program Choice) :=
  [.spawn (.abort ownContext 1 9 fun _ => false), .request 1 (.time 5), .start 1] ++ moves 14 ++
    [.start 1] ++ moves 2 ++ [.request 1 (.accept none), .drift (.remove 0 0),
    .request 1 (.finish (.ok (.removed 1))), .start 1] ++ moves 4

theorem debt_history_of_abort : ∃ z : World Row Lock BlobError Input Unit Command Response Request
      Reply ObjectStore, (service smallStore fun _ => 0).Reaches () ObjectStore.empty z ∧
    Removes z.shared 3 "s3" (.pending 9) ∧
    ∃ v ∈ z.shared.outside.versions, v.put ≤ 1 ∧ ∃ t ≤ 3, v.removed = some t := by
  have hrun : ((service smallStore fun _ => 0).run (init () ObjectStore.empty)
      (preparing ++ aborting)).map (fun z => (decide (Removes z.shared 3 "s3" (.pending 9)),
        decide (debtAt z.shared 2 "s3" (.pending 9) ≠ debtAt z.shared 1 "s3" (.pending 9)),
        z.shared.outside.versions)) =
      some (true, true, [⟨"s3", .pending 9, [1, 2], 1, some 3⟩]) := by decide +kernel
  obtain ⟨z, hz, heq⟩ := Option.map_eq_some_iff.1 hrun
  obtain ⟨hremoves, hrenewed, hversions⟩ : decide (Removes z.shared 3 "s3" (.pending 9)) = true ∧
      decide (debtAt z.shared 2 "s3" (.pending 9) ≠ debtAt z.shared 1 "s3" (.pending 9)) = true ∧
      z.shared.outside.versions = [⟨"s3", .pending 9, [1, 2], 1, some 3⟩] := by
    simpa only [Prod.mk.injEq] using heq
  have hreach := Reaches.run .init hz
  have hmem : (⟨"s3", .pending 9, [1, 2], 1, some 3⟩ : Version) ∈ z.shared.outside.versions := by
    simp [hversions]
  exact ⟨z, hreach, of_decide_eq_true hremoves, _, hmem, Nat.le_refl _,
    (debt_history hreach).2.2.2 3 1 "s3" (.pending 9) (of_decide_eq_true hremoves) (by decide)
      (of_decide_eq_true hrenewed) _ hmem rfl (Nat.le_refl _)⟩

end Proxiima.Blobs
