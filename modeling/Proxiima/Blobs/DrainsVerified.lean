import Proxiima.Blobs.Discipline

/-!
# Drains keep to their discipline

A drain knows from its read that the key is owed and which version of the debt it has seen, and
both stay known. So the upload of the key is over when the delete begins, and the version it
acknowledges is older than the delete.
-/

namespace Proxiima.Blobs

open ReadCommitted ReadCommitted.Guarded ReadCommitted.Cluster

variable {H : Hash} {s : CitedBlobStore} {g g' : Common}

/-! ### What stays known -/

variable {n t : ℕ} {α : Type} {e : Entry Row BlobError Command Response} {store : ObjectStoreId}
  {key : ObjectKey} {f : Response → Option α}

lemma answer_of_moves (h : (lanes H s).Moves g g') (he : answer g.hist n = some e) :
    answer g'.hist n = some e := by
  have hstable : (lanes H s).Stable fun x => answer x.hist n = some e := by
    intro x x' hx hmove
    cases hmove with
    | outside => exact hx
    | answer =>
      unfold answer at hx ⊢
      rw [Shared.answered, List.reverse_cons,
        List.getElem?_append_left (List.getElem?_eq_some_iff.1 hx).1]
      exact hx
  exact hstable.moves he h

lemma stateAt_of_moves (h : (lanes H s).Moves g g') {i : ℕ} (hi : i ≤ g.hist.length) :
    stateAt g'.hist g'.db i = stateAt g.hist g.db i := by
  have hstable : (lanes H s).Stable fun x => i ≤ x.hist.length ∧
      stateAt x.hist x.db i = stateAt g.hist g.db i := by
    rintro x x' ⟨hle, heq⟩ hmove
    cases hmove with
    | outside => exact ⟨hle, heq⟩
    | answer hbefore => exact ⟨Nat.le_succ_of_le hle, (stateAt_cons hle hbefore).trans heq⟩
  exact (hstable.moves ⟨hi, rfl⟩ h).2

lemma Observed.of_moves {drain : ℕ} (h : Observed g.hist t drain store key)
    (hm : (lanes H s).Moves g g') : Observed g'.hist t drain store key := by
  obtain ⟨n, e, v, hn, he, hrest⟩ := h
  exact ⟨n, e, v, hn, answer_of_moves hm he, hrest⟩

/-- The deletes only get their ends. -/
lemma delete_of_moves (h : (lanes H s).Moves g g') {d : Delete}
    (hd : g.outside.deletes[n]? = some d) :
    ∃ ended, g'.outside.deletes[n]? = some { d with ended := ended } ∧
      (d.ended ≠ none → ended = d.ended) := by
  have hstable : (lanes H s).Stable fun x => ∃ ended,
      x.outside.deletes[n]? = some { d with ended := ended } ∧
        (d.ended ≠ none → ended = d.ended) := by
    rintro x x' ⟨ended, hx, hsame⟩ hmove
    cases hmove with
    | answer => exact ⟨ended, hx, hsame⟩
    | outside hall =>
      cases hall with
      | same | presign | put | remove => exact ⟨ended, hx, hsame⟩
      | startDelete =>
        refine ⟨ended, ?_, hsame⟩
        simp only [ObjectStore.startDelete]
        rw [List.getElem?_append_left (List.getElem?_eq_some_iff.1 hx).1]
        exact hx
      | @endDelete m d' ok hd' hopen _ =>
        simp only [ObjectStore.endDelete, List.getElem?_modify, hx]
        by_cases hmn : m = n
        · subst hmn
          obtain rfl : { d with ended := ended } = d' := Option.mem_unique hx hd'
          refine ⟨some (x.hist.length, ok), by simp, fun hne => ?_⟩
          exact absurd ((hsame hne).symm.trans hopen) hne
        · exact ⟨ended, by simp [hmn], hsame⟩
  exact hstable.moves ⟨d.ended, hd, fun _ => rfl⟩ h

lemma Dead.of_moves {i : ℕ} {u : Uuid} (hs : Sound H s g) (hi : i ≤ g.hist.length)
    (h : Dead (stateAt g.hist g.db i) u) : Dead g.db u := by
  have hf := follows_of_run hs.run hi (Nat.le_refl _)
  rw [stateAt_length] at hf
  exact h.of_follows hf

/-! ### Transactions and requests -/

/-- A state that the processes may get to. -/
abbrev Reached (H : Hash) (s : CitedBlobStore) (g : Common) : Prop := (lanes H s).Moves outset g

/-- The lane keeps to the discipline and returns only with `Q`. -/
abbrev WpLane (s : CitedBlobStore) (H : Hash) (p : Lane α) (Q : α → Common → Prop) (g : Common) :
    Prop := WpE (service s H) (lanes H s) p Q g

/-- The lane keeps to the discipline wherever it starts. -/
abbrev PlainLane (s : CitedBlobStore) (H : Hash) (p : Lane α) : Prop :=
  PlainE (service s H) (lanes H s) outset p

/-- What a transaction's end tells. -/
lemma wpE_tx {c : Command} {Q : α → Common → Prop}
    (hmay : ∀ g', (lanes H s).Moves g g' → may s c g')
    (h : ∀ g' e db r a, (lanes H s).Moves g g' → e.cmd = c → g.hist.length ≤ e.since →
      e.before = g'.db → e.result = .ok r → f r = some a → (blobs H).Effect g'.hist e db →
      (lanes H s).Moves g (g'.answered e db) → Q a (g'.answered e db)) :
    WpLane s H (tx c f) Q g := by
  simp only [tx, transact, wpE_bind, wpE_lift]
  refine wp_transaction.2 fun g' hg => ⟨hmay g' hg, wpE_throw.2 trivial, ?_⟩
  intro e db hc hs hb he
  have hmove : (lanes H s).Moves g (g'.answered e db) :=
    hg.tail (.answer hb he (hc ▸ hmay g' hg))
  cases hr : e.result with
  | error x => exact wpE_throw.2 trivial
  | ok r =>
    cases hf : f r with
    | none => simp only [hf, wpE_throw]
    | some a =>
      simp only [hf, wpE_pure]
      exact h g' e db r a hg hc hs hb hr hf he hmove

lemma plainE_tx {c : Command} (hmay : ∀ g, may s c g) : PlainLane s H (tx c f) :=
  plainE_of_wpE fun _ _ => wpE_tx (fun g' _ => hmay g') fun _ _ _ _ _ _ _ _ _ _ _ _ _ => trivial

lemma plainE_orThrow (r : Except BlobError α) : PlainLane s H (orThrow r) := by
  cases r with
  | ok a => exact plainE_pure a
  | error e => exact plainE_throw e

lemma wpE_request {x : Request} {Q : Reply → Common → Prop}
    (h : ∀ g' j y w, (lanes H s).Moves g g' →
      serve g'.hist.length x j g'.outside = some (y, w) →
      Allows g' w ∧ ((lanes H s).Moves g { g' with outside := w } → Q y { g' with outside := w })) :
    WpLane s H (request x) Q g := by
  simp only [request, wpE_lift]
  refine wp_ask.2 fun g' hg j y w hw => ?_
  obtain ⟨hall, hQ⟩ := h g' j y w hg hw
  exact ⟨hall, hQ (hg.tail (.outside hall))⟩

lemma serve_startDelete {drain : Option ℕ} {j : Choice} {w w' : ObjectStore} {y : Reply}
    (h : serve t (.startDelete drain store key) j w = some (y, w')) :
    y = .started w.deletes.length ∧ w' = w.startDelete t drain store key := by
  cases j with
  | accept etag =>
    obtain ⟨rfl, rfl⟩ := Prod.mk.inj (Option.some.inj h)
    exact ⟨rfl, rfl⟩
  | _ => cases h

lemma serve_endDelete {j : Choice} {w w' : ObjectStore} {y : Reply}
    (h : serve t (.endDelete n) j w = some (y, w')) :
    ∃ d r, w.deletes[n]? = some d ∧ d.ended = none ∧ (discharges r = true → w.covered d = true) ∧
      y = .deleted r ∧ w' = w.endDelete t n (discharges r) := by
  cases j with
  | finish r =>
    obtain ⟨d, hd, hif⟩ := Option.bind_eq_some_iff.1 h
    obtain ⟨⟨hopen, hcovered⟩, heq⟩ := Option.ite_none_right_eq_some.1 hif
    obtain ⟨rfl, rfl⟩ := Prod.mk.inj (Option.some.inj heq)
    exact ⟨d, r, hd, hopen, hcovered, rfl, rfl⟩
  | _ => cases h

/-! ### One debt -/

/-- The drain has found the debt in this version. -/
structure Found (g : Common) (drain : ℕ) (store : ObjectStoreId) (key : ObjectKey) (v : ℕ) :
    Prop where
  seen : Observed g.hist g.hist.length drain store key
  version : ∃ i ≤ g.hist.length, debt (stateAt g.hist g.db i) store key ≠ none ∧
    stampOf (debtAt g i store key) = v

section Debts

variable {drain n v : ℕ} {store : ObjectStoreId} {key : ObjectKey} {ok : Bool}

lemma Observed.mono {hist : List (Entry Row BlobError Command Response)} {t' : ℕ}
    (h : Observed hist t drain store key) (ht : t ≤ t') : Observed hist t' drain store key := by
  obtain ⟨m, e, v, hm, hrest⟩ := h
  exact ⟨m, e, v, Nat.lt_of_lt_of_le hm ht, hrest⟩

lemma Found.of_moves (h : Found g drain store key v) (hm : (lanes H s).Moves g g') :
    Found g' drain store key v := by
  have hlen := Discipline.length_le hm
  refine ⟨(h.seen.of_moves hm).mono hlen, ?_⟩
  obtain ⟨i, hi, hdebt, hv⟩ := h.version
  refine ⟨i, Nat.le_trans hi hlen, ?_⟩
  rw [debtAt, stateAt_of_moves hm hi]
  exact ⟨hdebt, hv⟩

lemma found_of_answer {db : Tables} (hcmd : e.cmd = .observe drain store key) (hb : e.before = g.db)
    (hr : e.result = .ok (.version (some v))) (heff : (blobs H).Effect g.hist e db) :
    Found (g.answered e db) drain store key v := by
  constructor
  · refine ⟨g.hist.length, e, v, Nat.lt_succ_self _, ?_, hcmd, hr⟩
    simp [answer, Shared.answered]
  · simp only [Effect, hr] at heff
    obtain ⟨⟨hans, -⟩, -⟩ := heff
    rw [hcmd, hb] at hans
    obtain ⟨d, ⟨i, -, hi, rfl⟩, hdebt, hv⟩ := hans
    refine ⟨i, Nat.le_succ_of_le hi, ?_⟩
    have hstate : stateAt (g.answered e db).hist (g.answered e db).db i = stateAt g.hist g.db i :=
      stateAt_cons hi hb
    rw [debtAt, hstate]
    exact ⟨hdebt, hv⟩

/-- The upload of a key that was found owed is over. -/
lemma Found.dead (h : Found g drain store key v) (hs : Sound H s g) {u : Uuid}
    (hu : key = .objects u) : Dead g.db u := by
  obtain ⟨i, hi, hdebt, -⟩ := h.version
  subst hu
  exact (hs.owed i hi store u hdebt).of_moves hs hi

lemma Deleted.of_moves (h : Deleted g n store key v ok) (hm : (lanes H s).Moves g g') :
    Deleted g' n store key v ok := by
  obtain ⟨d, t, hd, hstore, hkey, hdrain, hended, hbegan, i, hi, hv⟩ := h
  obtain ⟨ended, hd', hsame⟩ := delete_of_moves hm hd
  refine ⟨_, t, hd', hstore, hkey, hdrain, (hsame (by simp [hended])).trans hended,
    Nat.le_trans hbegan (Discipline.length_le hm), i, hi, ?_⟩
  rw [debtAt, stateAt_of_moves hm (Nat.le_trans hi hbegan)]
  exact hv

lemma plainE_clearDebt_of {d : Discharged} {Q : Discharged → Common → Prop}
    (hdel : Deleted g n store key v true) (h : ∀ a g', Q a g') :
    WpLane s H (clearDebt n store key v d) Q g := by
  simp only [clearDebt, wpE_bind]
  refine wpE_tx (fun g' hm => hdel.of_moves hm) fun g₁ e db r cleared _ _ _ _ _ _ _ _ => ?_
  split
  · exact wpE_pure.2 (h _ _)
  · exact wpE_throw.2 trivial

/-- An acknowledgement fits the delete that has ended. -/
lemma wpE_acknowledge {backoff : PurgeBackoff} {r : DeleteResult}
    (hdel : Deleted g n store key v (discharges r)) :
    WpLane s H (acknowledge n store key v backoff (.deleted r))
      (fun _ _ => True) g := by
  cases r with
  | ok deleted => cases deleted <;> exact plainE_clearDebt_of hdel fun _ _ => trivial
  | error e =>
    cases e with
    | notFound => exact plainE_clearDebt_of hdel fun _ _ => trivial
    | unavailable message | conflict message | constraintViolation message =>
      simp only [acknowledge, transact, wpE_bind, wpE_lift]
      refine wp_transaction.2 fun g' hm => ⟨hdel.of_moves hm, wpE_throw.2 trivial, ?_⟩
      exact fun _ _ _ _ _ _ => wpE_throw.2 trivial

lemma plainE_purgeCurrentColdDebt (backoff : PurgeBackoff) :
    PlainLane s H (purgeCurrentColdDebt drain store key backoff) := by
  refine plainE_of_wpE fun g hg => ?_
  simp only [purgeCurrentColdDebt, wpE_bind]
  refine wpE_tx (fun _ _ => trivial) fun g₁ e db r version hm hc _ hb hr hf heff hm₁ => ?_
  cases version with
  | none => exact wpE_pure.2 trivial
  | some v =>
    obtain rfl : r = .version (some v) := by
      cases r with
      | version v' => exact congrArg _ (Option.some.inj hf)
      | _ => cases hf
    have hfound : Found (g₁.answered e db) drain store key v := found_of_answer hc hb hr heff
    simp only [wpE_bind]
    refine wpE_request fun g₂ j y w hm₂ hserve => ?_
    obtain ⟨rfl, rfl⟩ := serve_startDelete hserve
    have hsound : Sound H s g₂ := sound_of_moves ((hg.trans hm₁).trans hm₂)
    have hfound₂ : Found g₂ drain store key v := hfound.of_moves hm₂
    refine ⟨.startDelete (fun u hu => hfound₂.dead hsound hu) fun i hi => ?_, fun hm₃ => ?_⟩
    · obtain rfl := Option.some.inj hi
      exact hfound₂.seen
    simp only [wpE_bind]
    refine wpE_request fun g₄ j' y' w' hm₄ hserve' => ?_
    obtain ⟨d, r, hd, hopen, hcovered, rfl, rfl⟩ := serve_endDelete hserve'
    refine ⟨.endDelete hd hopen hcovered, fun hm₅ => wpE_acknowledge ?_⟩
    -- the delete is the one that was started
    have hstarted : (g₂.outside.startDelete g₂.hist.length (some drain) store key).deletes[
        g₂.outside.deletes.length]? =
        some ⟨some drain, store, key, g₂.hist.length, g₂.outside.versions.length, none⟩ := by
      simp [ObjectStore.startDelete]
    obtain ⟨ended, hd', -⟩ := delete_of_moves hm₄ hstarted
    obtain rfl := Option.mem_unique hd hd'
    obtain ⟨i, hi, -, hv⟩ := hfound₂.version
    have hlater := Discipline.length_le hm₄
    refine ⟨⟨some drain, store, key, g₂.hist.length, g₂.outside.versions.length,
      some (g₄.hist.length, discharges r)⟩, g₄.hist.length, ?_, rfl, rfl, rfl, rfl,
      hlater, i, hi, ?_⟩
    · simp [ObjectStore.endDelete, hd]
    · rw [debtAt, stateAt_of_moves hm₅ hi]
      exact hv

end Debts

/-! ### Plans -/

lemma plain_purgeEntries (drain : ℕ) (cold : ObjectStoreId) (backoff : PurgeBackoff)
    (plan : List ColdPurgeEntry) (o : ColdPurgeOutcome) :
    Plain (service s H) (lanes H s) outset (purgeEntries drain cold backoff plan o) := by
  induction plan generalizing o with
  | nil => exact plain_pure _
  | cons e es ih =>
    rw [purgeEntries]
    split
    · exact ih _
    · exact Plain.bind (plainE_purgeCurrentColdDebt backoff) fun r => ih _

lemma plain_purgeOwedAfterCommit (drain : ℕ) (cold : ObjectStoreId) (owed : List ColdPurgeEntry) :
    Plain (service s H) (lanes H s) outset (purgeOwedAfterCommit drain cold owed) := by
  unfold purgeOwedAfterCommit
  split
  · exact plain_pure _
  · exact (plain_purgeEntries drain cold _ owed _).bind fun _ => plain_pure _

lemma plainE_retryColdObjectPurges (drain : ℕ) (cold : ObjectStoreId)
    (options : ColdPurgeRetryOptions) :
    PlainLane s H (retryColdObjectPurges drain cold options) := by
  refine (plainE_orThrow _).bind fun _ => PlainE.bind (plainE_tx ?_) fun keys => ?_
  · exact fun _ => trivial
  split
  · exact plainE_pure _
  · exact (plainE_lift (plain_purgeEntries drain cold _ _ _)).bind fun _ => plainE_pure _

end Proxiima.Blobs
