import Proxiima.Embedding.Jobs

/-!
# Which jobs a claim takes

The claim limits the wanted jobs before it looks at their memories, so a job of a forgotten memory
uses up a place of the limit. Where no such job is left behind, a claim takes the first live jobs. A
forget deletes the jobs it sees; an enqueue of missing jobs that read the memory before and inserts
its job after leaves one. In a run where these two never overlap, every job has a live memory.
-/

namespace Proxiima.Embedding

open Memory (MemoryKind StorageError)

variable {T T' T'' : Tables} {t : Uuid}

/-! ### What a claim takes -/

/-- The pending jobs a claim may take: not locked, not skipped and of a live memory, by id. -/
def claimable (locked : Uuid → Bool) (skipOwners : List Uuid)
    (skipOwnerSpaces : List (Uuid × EmbeddingSpace)) (T : Tables) : List Uuid :=
  (T.embeddingJobs.rows.filter fun r =>
    r.2.wanted skipOwners skipOwnerSpaces ∧ !locked r.1 ∧ T.live r.2.entity).map Prod.fst

/-- Of the rows of a map, those with the keys of some of them. -/
lemma filter_mem_keys {V : Type} {rows sub : List (Uuid × V)} (hsub : sub.Sublist rows)
    (hnodup : (rows.map Prod.fst).Nodup) : rows.filter (fun r => r.1 ∈ sub.map Prod.fst) = sub := by
  induction hsub with
  | slnil => rfl
  | @cons sub rows r hsub ih =>
    obtain ⟨hfresh, hrest⟩ := List.nodup_cons.1 hnodup
    have hr : r.1 ∉ sub.map Prod.fst := fun h => hfresh ((hsub.map _).subset h)
    rw [List.filter_cons_of_neg (by simpa using hr)]
    exact ih hrest
  | @cons_cons sub rows r hsub ih =>
    obtain ⟨hfresh, hrest⟩ := List.nodup_cons.1 hnodup
    rw [List.filter_cons_of_pos (by simp)]
    have hcongr : rows.filter (fun q => q.1 ∈ (r :: sub).map Prod.fst) =
        rows.filter fun q => q.1 ∈ sub.map Prod.fst := by
      refine List.filter_congr fun q hq => ?_
      have hne : q.1 ≠ r.1 := fun h => hfresh (h ▸ List.mem_map_of_mem hq)
      simp [hne]
    rw [hcongr, ih hrest]

/-- The claim, read exactly: of the first wanted jobs, those whose memory is live. -/
lemma settledRows_jobId (token : Uuid → Uuid) (locked : Uuid → Bool) (limit : ℕ)
    (skipOwners : List Uuid) (skipOwnerSpaces : List (Uuid × EmbeddingSpace)) (T : Tables) :
    (settledRows token (claimedRows locked limit skipOwners skipOwnerSpaces T) T).map
        EmbeddingJobClaim.jobId =
      (((T.embeddingJobs.rows.filter fun r =>
        r.2.wanted skipOwners skipOwnerSpaces ∧ !locked r.1).take limit).filter fun r =>
          T.live r.2.entity).map Prod.fst := by
  have hsub := (List.take_sublist limit (T.embeddingJobs.rows.filter fun r =>
    r.2.wanted skipOwners skipOwnerSpaces ∧ !locked r.1)).trans List.filter_sublist
  have hrows := filter_mem_keys hsub T.embeddingJobs.nodup_keys
  have hsettled : ∀ claimed : List Uuid,
      (settledRows token claimed T).map EmbeddingJobClaim.jobId =
        ((T.embeddingJobs.rows.filter fun r => r.1 ∈ claimed).filter fun r =>
          T.live r.2.entity).map Prod.fst := by
    intro claimed
    rw [settledRows, List.map_filterMap, List.filter_filter, ← List.filterMap_eq_filter,
      List.map_filterMap]
    refine congrArg (fun f => T.embeddingJobs.rows.filterMap f) (funext fun r => ?_)
    by_cases hr : r.1 ∈ claimed
    · rcases hm : T.memory.get? r.2.entity with - | m
      · simp [hr, hm, Tables.live]
      · cases hf : m.forgotten <;> simp [hr, hm, hf, Tables.live, Option.filter]
    · simp [hr]
  rw [hsettled]
  unfold claimedRows
  rw [hrows]

/-- Where every job has a live memory, the limit counts claimable jobs only. -/
lemma claim_of_live (hlive : ∀ id job, T.embeddingJobs.get? id = some job → T.live job.entity)
    (now : ℕ) (token : Uuid → Uuid) (locked : Uuid → Bool) (limit : ℕ) (skipOwners : List Uuid)
    (skipOwnerSpaces : List (Uuid × EmbeddingSpace)) :
    ∃ claims, claimPendingEmbeddingJobs now token locked limit skipOwners skipOwnerSpaces T =
        .ok (claims, claimJobs now token (claims.map EmbeddingJobClaim.jobId) T) ∧
      claims.map EmbeddingJobClaim.jobId =
        (claimable locked skipOwners skipOwnerSpaces T).take limit := by
  have hlimit : ensureNonnegativeLimit limit = .ok limit := by
    rw [ensureNonnegativeLimit, if_neg (by omega), Int.toNat_natCast]
  unfold claimPendingEmbeddingJobs
  rw [hlimit]
  by_cases hzero : limit = 0
  · subst hzero
    have hsame : claimJobs now token [] T = T := by
      refine Tables.mk.injEq .. |>.mpr ⟨rfl, rfl, rfl, SortedMap.ext ?_⟩
      simp [SortedMap.adjust]
    exact ⟨[], by simp [Except.map, hsame], by simp⟩
  · refine ⟨settledRows token (claimedRows locked limit skipOwners skipOwnerSpaces T) T, ?_, ?_⟩
    · simp [Except.map, hzero]
    · have hall : ∀ r ∈ T.embeddingJobs.rows, T.live r.2.entity := fun r hr =>
        hlive r.1 r.2 (SortedMap.get?_eq_some.2 hr)
      rw [settledRows_jobId, claimable, List.filter_eq_self.2, List.map_take]
      · have hcongr := List.filter_congr (l := T.embeddingJobs.rows)
          (p := fun r => decide (r.2.wanted skipOwners skipOwnerSpaces ∧ !locked r.1))
          (q := fun r => decide
            (r.2.wanted skipOwners skipOwnerSpaces ∧ !locked r.1 ∧ T.live r.2.entity))
          fun r hr => by simp [hall r hr]
        rw [hcongr]
      · intro r hr
        exact hall r (List.mem_of_mem_filter (List.mem_of_mem_take hr))

/-! ### What a transaction does to the jobs -/

/-- A transaction that forgets nothing: live memories stay live, and each job there was there
before, or its memory is live and not `closed`. -/
structure Grows (closed : Uuid → Prop) (T T' : Tables) : Prop where
  live : ∀ t, T.live t → T'.live t
  present : ∀ t, (T.memory.get? t).isSome → (T'.memory.get? t).isSome
  jobs : ∀ id job, T'.embeddingJobs.get? id = some job →
    (∃ old, T.embeddingJobs.get? id = some old ∧ old.entity = job.entity) ∨
      (T'.live job.entity ∧ ¬ closed job.entity)

variable {closed : Uuid → Prop}

lemma Grows.refl (T : Tables) : Grows closed T T :=
  ⟨fun _ h => h, fun _ h => h, fun _ job h => .inl ⟨job, h, rfl⟩⟩

lemma Grows.trans (h : Grows closed T T') (h' : Grows closed T' T'') : Grows closed T T'' where
  live t ht := h'.live t (h.live t ht)
  present t ht := h'.present t (h.present t ht)
  jobs id job hjob := by
    rcases h'.jobs id job hjob with ⟨mid, hmid, hentity⟩ | hnew
    · rcases h.jobs id mid hmid with ⟨old, hold, hsame⟩ | ⟨hlive, hopen⟩
      · exact .inl ⟨old, hold, hsame.trans hentity⟩
      · exact .inr ⟨hentity ▸ h'.live _ hlive, hentity ▸ hopen⟩
    · exact .inr hnew

/-- Jobs are changed, not their memories. -/
lemma grows_adjust {f : Uuid → EmbeddingJob → EmbeddingJob}
    (hf : ∀ id job, (f id job).entity = job.entity) (T : Tables) :
    Grows closed T { T with embeddingJobs := T.embeddingJobs.adjust f } where
  live _ h := h
  present _ h := h
  jobs id job hjob := by
    obtain ⟨old, hold, rfl⟩ := Option.map_eq_some_iff.1 ((SortedMap.get?_adjust ..).symm.trans hjob)
    exact .inl ⟨old, hold, (hf id old).symm⟩

variable {ids : List Uuid}

lemma mem_newJobs {targets : List (Uuid × Uuid × EmbeddingSpace)} {r : Uuid × EmbeddingJob}
    (hr : r ∈ newJobs T targets ids) : ∃ p ∈ targets, r.2.entity = p.2.1 := by
  have hfold : ∀ (ps : List ((Uuid × Uuid × EmbeddingSpace) × Uuid))
    (rows : List (Uuid × EmbeddingJob)),
      r ∈ ps.foldl (newJob T) rows → r ∈ rows ∨ ∃ p ∈ ps, r.2.entity = p.1.2.1 := by
    intro ps
    induction ps with
    | nil => exact fun rows h => .inl h
    | cons p ps ih =>
      intro rows h
      rcases ih _ h with hrows | ⟨q, hq, hentity⟩
      · unfold newJob at hrows
        split at hrows
        · exact .inl hrows
        · rcases List.mem_append.1 hrows with hold | hnew
          · exact .inl hold
          · exact .inr ⟨p, List.mem_cons_self, by rw [List.mem_singleton.1 hnew]⟩
      · exact .inr ⟨q, List.mem_cons_of_mem _ hq, hentity⟩
  rcases hfold _ _ hr with h | ⟨p, hp, hentity⟩
  · exact absurd h List.not_mem_nil
  · exact ⟨p.1, (List.of_mem_zip hp).1, hentity⟩

lemma grows_addJobs {rows : List (Uuid × EmbeddingJob)}
    (hrows : ∀ r ∈ rows, T.live r.2.entity ∧ ¬ closed r.2.entity) :
    Grows closed T (addJobs rows T) where
  live _ h := h
  present _ h := h
  jobs id job hjob := by
    have hfold : ∀ (rows : List (Uuid × EmbeddingJob)) (jobs : SortedMap Uuid EmbeddingJob),
        (rows.foldl (fun jobs r => jobs.insert r.1 r.2) jobs).get? id = some job →
        jobs.get? id = some job ∨ ∃ r ∈ rows, r.2 = job := by
      intro rows
      induction rows with
      | nil => exact fun jobs h => .inl h
      | cons r rows ih =>
        intro jobs h
        rcases ih _ h with hjobs | ⟨q, hq, hsame⟩
        · rw [SortedMap.get?_insert] at hjobs
          split at hjobs
          · exact .inr ⟨r, List.mem_cons_self, Option.some.inj hjobs⟩
          · exact .inl hjobs
        · exact .inr ⟨q, List.mem_cons_of_mem _ hq, hsame⟩
    rcases hfold rows T.embeddingJobs hjob with hold | ⟨r, hr, rfl⟩
    · exact .inl ⟨job, hold, rfl⟩
    · exact .inr (hrows r hr)

lemma grows_enqueue (hlive : T.live t) (hopen : ¬ closed t) (owner : Uuid)
    (spaces : List EmbeddingSpace) (ids : List Uuid) :
    Grows closed T (enqueueEmbeddingJobsInTx owner t spaces ids T) := by
  refine grows_addJobs fun r hr => ?_
  obtain ⟨p, hp, hentity⟩ := mem_newJobs hr
  obtain ⟨space, -, rfl⟩ := List.mem_map.1 hp
  rw [hentity]
  exact ⟨hlive, hopen⟩

variable {claim : EmbeddingJobClaim} {claims : List EmbeddingJobClaim}

lemma grows_exitClaim {exit : ClaimExit} {error : String}
    (h : exitClaim exit error T claim = .ok T') : Grows closed T T' := by
  unfold exitClaim at h
  rcases hheld : claimHeld claim T with e | u
  · rw [hheld] at h
    cases h
  · rw [hheld] at h
    obtain rfl := Except.ok.inj h
    refine grows_adjust (fun id job => ?_) T
    split <;> rfl

lemma grows_release {error : String} (h : releaseEmbeddingJobs claims error T = .ok T') :
    Grows closed T T' := by
  unfold releaseEmbeddingJobs at h
  induction claims generalizing T with
  | nil =>
    obtain rfl := Except.ok.inj h
    exact .refl T
  | cons claim claims ih =>
    rw [List.foldlM_cons] at h
    rcases hexit : exitClaim .released error T claim with e | T₁
    · rw [hexit] at h
      cases h
    · rw [hexit] at h
      exact (grows_exitClaim hexit).trans (ih h)

lemma grows_complete (h : completeEmbeddingJob claim T = .ok T') : Grows closed T T' := by
  unfold completeEmbeddingJob at h
  rcases hheld : claimHeld claim T with e | u
  · rw [hheld] at h
    cases h
  · rw [hheld] at h
    obtain rfl := Except.ok.inj h
    refine ⟨fun _ h => h, fun _ h => h, fun id job hjob => .inl ⟨job, ?_, rfl⟩⟩
    have hfilter := (SortedMap.get?_filter T.embeddingJobs _ id).symm.trans hjob
    exact (Option.filter_eq_some_iff.1 hfilter).1

lemma grows_renew (now : ℕ) (claims : List EmbeddingJobClaim) (T : Tables) :
    Grows closed T (renewEmbeddingJobs now claims T) := by
  refine grows_adjust (fun id job => ?_) T
  split <;> rfl

lemma grows_reclaim {now : ℕ} {olderThanSeconds : ℤ}
    (h : reclaimStaleEmbeddingJobs now olderThanSeconds T = .ok T') : Grows closed T T' := by
  unfold reclaimStaleEmbeddingJobs at h
  split at h
  · cases h
  · obtain rfl := Except.ok.inj h
    refine grows_adjust (fun id job => ?_) T
    split <;> rfl

lemma grows_claim {now : ℕ} {token : Uuid → Uuid} {locked : Uuid → Bool} {limit : ℤ}
    {skipOwners : List Uuid} {skipOwnerSpaces : List (Uuid × EmbeddingSpace)}
    (h : claimPendingEmbeddingJobs now token locked limit skipOwners skipOwnerSpaces T =
      .ok (claims, T')) : Grows closed T T' := by
  unfold claimPendingEmbeddingJobs at h
  rcases hlimit : ensureNonnegativeLimit limit with e | n
  · rw [hlimit] at h
    cases h
  · rw [hlimit] at h
    have hpair := Except.ok.inj h
    beta_reduce at hpair
    split at hpair
    · obtain rfl := (Prod.mk.inj hpair).2
      exact .refl T
    · obtain rfl := (Prod.mk.inj hpair).2
      refine grows_adjust (fun id job => ?_) T
      split <;> rfl

@[simp] lemma syncMemoryHead_memory (handle : Uuid) (T : Tables) :
    (syncMemoryHead handle T).memory = T.memory := by
  unfold syncMemoryHead
  dsimp only
  split <;> rfl

@[simp] lemma syncMemoryHead_embeddingJobs (handle : Uuid) (T : Tables) :
    (syncMemoryHead handle T).embeddingJobs = T.embeddingJobs := by
  unfold syncMemoryHead
  dsimp only
  split <;> rfl

lemma grows_syncMemoryHead (handle : Uuid) (T : Tables) :
    Grows closed T (syncMemoryHead handle T) where
  live t h := by simpa [Tables.live] using h
  present t h := by simpa using h
  jobs id job hjob := .inl ⟨job, by simpa using hjob, rfl⟩

lemma get?_setForgotten (t : Uuid) (forgotten : Bool) (T : Tables) (k : Uuid) :
    (setForgotten t forgotten T).memory.get? k =
      (T.memory.get? k).map fun m => if k = t then { m with forgotten := forgotten } else m :=
  SortedMap.get?_adjust ..

lemma live_setForgotten_ne {k : Uuid} (h : k ≠ t) (forgotten : Bool) (T : Tables) :
    (setForgotten t forgotten T).live k = T.live k := by
  simp only [Tables.live, get?_setForgotten, if_neg h, Option.map_id']

lemma live_setForgotten_self (forgotten : Bool) (T : Tables) :
    (setForgotten t forgotten T).live t = ((T.memory.get? t).isSome && !forgotten) := by
  rcases hm : T.memory.get? t with - | m
  · simp [Tables.live, get?_setForgotten, hm]
  · simp [Tables.live, get?_setForgotten, hm]

lemma isSome_setForgotten (forgotten : Bool) (T : Tables) (k : Uuid) :
    ((setForgotten t forgotten T).memory.get? k).isSome = (T.memory.get? k).isSome := by
  rw [get?_setForgotten, Option.isSome_map]

lemma grows_admitMemory (hfresh : T.memory.get? t = none) (hopen : ¬ closed t) (row : MemoryRow)
    (spaces : List EmbeddingSpace) (ids : List Uuid) :
    Grows closed T (admitMemory t row spaces ids T) := by
  refine Grows.trans ?_ (grows_enqueue ?_ hopen row.owner spaces ids)
  · refine ⟨fun k hk => ?_, fun k hk => ?_, fun id job hjob => .inl ⟨job, hjob, rfl⟩⟩
    · have hne : k ≠ t := fun h => by simp [Tables.live, h, hfresh] at hk
      simpa [Tables.live, SortedMap.get?_insert, hne] using hk
    · rw [SortedMap.get?_insert]
      split
      · rfl
      · exact hk
  · simp [Tables.live, SortedMap.get?_insert]

lemma grows_restore {reach : Reach} {route : RouteSpaces} (hopen : ¬ closed t)
    (h : restoreMemory t reach route ids T = .ok T') : Grows closed T T' := by
  unfold restoreMemory at h
  rcases hm : T.memory.get? t with - | m
  · simp [hm] at h
  simp only [hm] at h
  split at h
  · cases h
  split at h
  · obtain rfl := Except.ok.inj h
    have hmark : Grows closed T (setForgotten t false T) := by
      refine ⟨fun k hk => ?_, fun k hk => ?_, fun id job hjob => .inl ⟨job, hjob, rfl⟩⟩
      · by_cases hkt : k = t
        · subst hkt
          rw [live_setForgotten_self, hm]
          rfl
        · rw [live_setForgotten_ne hkt]
          exact hk
      · rw [isSome_setForgotten]
        exact hk
    refine (hmark.trans ?_).trans (grows_syncMemoryHead m.handle _)
    split
    · exact .refl _
    · refine grows_enqueue ?_ hopen reach.owner route.spaces ids
      rw [live_setForgotten_self, hm]
      rfl
  · obtain rfl := Except.ok.inj h
    exact .refl T

/-- The scan locks the memories it queues: they are live and no forget of theirs is open. -/
lemma grows_reconcileInsert {eligible : List (Uuid × Uuid)} {limit : ℕ}
    (hopen : ∀ r ∈ reconcileLimited eligible limit T, ¬ closed r.1) (space : EmbeddingSpace)
    (ids : List Uuid) :
    Grows closed T (reconcileInsert space (reconcileLimited eligible limit T) ids T) := by
  refine Grows.trans (grows_adjust (f := _) (fun id job => ?_) T) (grows_addJobs fun r hr => ?_)
  · split <;> rfl
  · obtain ⟨p, hp, hentity⟩ := mem_newJobs hr
    obtain ⟨q, hq, rfl⟩ := List.mem_map.1 hp
    rw [hentity]
    have hlive := (List.mem_filter.1 (List.mem_of_mem_take hq)).2
    exact ⟨hlive, hopen q hq⟩

/-! ### Runs -/

namespace JobStore

variable {s s' : JobStore}

/-- An enqueue of missing jobs and a forget of one of its memories do not overlap: a forget starts
while no open enqueue has read its memory, and an enqueue reads while no forget of the owner's
memories is open. -/
def Apart (s : JobStore) : Action → Prop
  | .forget t _ =>
    (∀ permit space ids, .selected permit space ids ∈ s.opened → t ∉ ids) ∧
      ∀ r ∈ s.uncommitted, r.2.entity ≠ t
  | .enqueueMissing permit _ _ _ =>
    ∀ t, s.lockedMemory t → ∀ m, s.tables.memory.get? t = some m → m.owner ≠ permit.owner
  | _ => True

/-- The states of the runs in which they do not. -/
inductive ReachedApart (createdAt : Uuid → ℕ) : JobStore → Prop where
  | init : ReachedApart createdAt init
  | step {s s' : JobStore} {action : Action} (before : ReachedApart createdAt s)
      (apart : s.Apart action) (taken : s.step createdAt action = some s') :
      ReachedApart createdAt s'

/-- Every job has a live memory, an open forget has deleted every job of its memory, and what an
open enqueue read or inserted is live and not being forgotten. -/
structure Sound (s : JobStore) : Prop where
  jobs : ∀ id job, s.tables.embeddingJobs.get? id = some job → s.tables.live job.entity
  present : ∀ t, s.lockedMemory t → (s.tables.memory.get? t).isSome
  doomed : ∀ t doomed, .forgetting t doomed ∈ s.opened → ∀ id job,
    s.tables.embeddingJobs.get? id = some job → job.entity = t → id ∈ doomed
  selected : ∀ permit space ids, .selected permit space ids ∈ s.opened → ∀ t ∈ ids,
    s.tables.live t ∧ ¬ s.lockedMemory t
  inserted : ∀ rows, .inserted rows ∈ s.opened → ∀ r ∈ rows,
    s.tables.live r.2.entity ∧ ¬ s.lockedMemory r.2.entity

lemma lockedMemory_iff : s.lockedMemory t ↔ ∃ doomed, .forgetting t doomed ∈ s.opened := by
  unfold lockedMemory
  rw [List.any_eq_true]
  constructor
  · rintro ⟨tx, hmem, htx⟩
    cases tx with
    | forgetting t' doomed =>
      obtain rfl := of_decide_eq_true htx
      exact ⟨doomed, hmem⟩
    | selected | inserted | reconciling => cases htx
  · rintro ⟨doomed, hmem⟩
    exact ⟨_, hmem, decide_eq_true rfl⟩

lemma sound_init : Sound init where
  jobs _ _ h := by cases h
  present _ h := by cases h
  doomed _ _ h := absurd h List.not_mem_nil
  selected _ _ _ h := absurd h List.not_mem_nil
  inserted _ h := absurd h List.not_mem_nil

variable {opened : List OpenTx} {doomed : List Uuid} {createdAt : Uuid → ℕ}

/-- A transaction that forgets nothing, after which no other transaction is open than before. -/
lemma Sound.grows (h : Sound s) (hgrows : Grows (fun t => s.lockedMemory t) s.tables T')
    (hopened : opened ⊆ s.opened) : Sound ⟨T', opened⟩ := by
  have hlocked : ∀ t, (JobStore.mk T' opened).lockedMemory t → s.lockedMemory t := fun t ht => by
    obtain ⟨doomed, hmem⟩ := lockedMemory_iff.1 ht
    exact lockedMemory_iff.2 ⟨doomed, hopened hmem⟩
  refine ⟨fun id job hjob => ?_, fun t ht => hgrows.present t (h.present t (hlocked t ht)),
    fun t doomed hmem id job hjob hentity => ?_, fun permit space ids hmem t ht => ?_,
    fun rows hmem r hr => ?_⟩
  · rcases hgrows.jobs id job hjob with ⟨old, hold, hsame⟩ | ⟨hlive, -⟩
    · exact hsame ▸ hgrows.live _ (h.jobs id old hold)
    · exact hlive
  · rcases hgrows.jobs id job hjob with ⟨old, hold, hsame⟩ | ⟨-, hopen⟩
    · exact h.doomed t doomed (hopened hmem) id old hold (hsame.trans hentity)
    · exact absurd (lockedMemory_iff.2 ⟨doomed, hopened hmem⟩) (hentity ▸ hopen)
  · obtain ⟨hlive, hopen⟩ := h.selected permit space ids (hopened hmem) t ht
    exact ⟨hgrows.live t hlive, fun ht => hopen (hlocked t ht)⟩
  · obtain ⟨hlive, hopen⟩ := h.inserted rows (hopened hmem) r hr
    exact ⟨hgrows.live _ hlive, fun ht => hopen (hlocked _ ht)⟩

lemma Sound.finish {result : Except StorageError Tables} (h : Sound s)
    (hgrows : ∀ T', result = .ok T' → Grows (fun t => s.lockedMemory t) s.tables T') :
    Sound (s.finish result) := by
  cases result with
  | error e => exact h
  | ok T' => exact h.grows (hgrows T' rfl) (List.Subset.refl _)

lemma Sound.closing (h : Sound s) (n : ℕ) : Sound ⟨s.tables, s.opened.eraseIdx n⟩ :=
  h.grows (.refl _) (List.eraseIdx_subset ..)

/-- A transaction other than a forget reaches its next statement. -/
lemma Sound.advance (h : Sound s) (tx : OpenTx)
    (hselected : ∀ permit space ids, tx = .selected permit space ids → ∀ t ∈ ids,
      s.tables.live t ∧ ¬ s.lockedMemory t)
    (hinserted : ∀ rows, tx = .inserted rows → ∀ r ∈ rows,
      s.tables.live r.2.entity ∧ ¬ s.lockedMemory r.2.entity)
    (hforget : ∀ t doomed, tx ≠ .forgetting t doomed)
    (hopened : ∀ x ∈ opened, x ∈ s.opened ∨ x = tx) : Sound ⟨s.tables, opened⟩ := by
  have hold : ∀ t doomed, .forgetting t doomed ∈ opened → .forgetting t doomed ∈ s.opened :=
    fun t doomed hmem => (hopened _ hmem).resolve_right fun h => hforget t doomed h.symm
  have hlocked : ∀ t, (JobStore.mk s.tables opened).lockedMemory t → s.lockedMemory t :=
    fun t ht => by
    obtain ⟨doomed, hmem⟩ := lockedMemory_iff.1 ht
    exact lockedMemory_iff.2 ⟨doomed, hold t doomed hmem⟩
  refine ⟨h.jobs, fun t ht => h.present t (hlocked t ht), fun t doomed hmem =>
    h.doomed t doomed (hold t doomed hmem), fun permit space ids hmem t ht => ?_,
    fun rows hmem r hr => ?_⟩
  · have hboth : s.tables.live t ∧ ¬ s.lockedMemory t := by
      rcases hopened _ hmem with hmem | heq
      · exact h.selected permit space ids hmem t ht
      · exact hselected permit space ids heq.symm t ht
    exact ⟨hboth.1, fun ht => hboth.2 (hlocked t ht)⟩
  · have hboth : s.tables.live r.2.entity ∧ ¬ s.lockedMemory r.2.entity := by
      rcases hopened _ hmem with hmem | heq
      · exact h.inserted rows hmem r hr
      · exact hinserted rows heq.symm r hr
    exact ⟨hboth.1, fun ht => hboth.2 (hlocked _ ht)⟩

lemma Sound.enqueueMissing {permit : OwnerWritePermit} {space : EmbeddingSpace} {limit : ℤ}
    {nonEmbeddable : List String} (h : Sound s)
    (hapart : ∀ t, s.lockedMemory t → ∀ m, s.tables.memory.get? t = some m →
      m.owner ≠ permit.owner) :
    Sound (s.enqueueMissing permit space limit nonEmbeddable) := by
  unfold JobStore.enqueueMissing
  split
  · exact h
  rename_i n _
  dsimp only
  split
  · exact h
  refine h.advance (.selected permit space (missingEmbeddingIds s.tables permit.owner space n
    nonEmbeddable (kindsWithin permit.accessKind))) (fun permit' space' ids' heq t ht => ?_)
      (fun rows heq => by cases heq)
    (fun t doomed heq => by cases heq) (fun x hx => ?_)
  · obtain ⟨-, -, rfl⟩ := OpenTx.selected.inj heq
    obtain ⟨r, hr, rfl⟩ := List.mem_map.1 ht
    obtain ⟨hrow, hr⟩ := List.mem_filter.1 (List.mem_of_mem_take hr)
    simp only [decide_eq_true_eq] at hr
    obtain ⟨-, hforgotten, howner, -⟩ := hr
    have hget := SortedMap.get?_eq_some.2 hrow
    exact ⟨by simpa [Tables.live, hget] using hforgotten, fun ht => hapart r.1 ht r.2 hget howner⟩
  · rcases List.mem_append.1 hx with hx | hx
    · exact .inl hx
    · exact .inr (List.mem_singleton.1 hx)

variable {n : ℕ}

lemma Sound.insertMissing (h : Sound s) (hstep : s.insertMissing n ids = some s') : Sound s' := by
  unfold JobStore.insertMissing at hstep
  split at hstep
  · rename_i permit space read hget
    obtain ⟨-, hstep⟩ := Option.ite_none_left_eq_some.1 hstep
    split at hstep
    · obtain rfl := Option.some.inj hstep
      exact h.closing n
    · obtain rfl := Option.some.inj hstep
      refine h.advance
        (.inserted (newJobs s.tables (read.map fun t => (permit.owner, t, space)) ids))
        (fun permit' space' ids' heq => by cases heq) (fun rows heq r hr => ?_)
        (fun t doomed heq => by cases heq) (fun x hx => List.mem_or_eq_of_mem_set hx)
      obtain rfl := OpenTx.inserted.inj heq
      obtain ⟨p, hp, hentity⟩ := mem_newJobs hr
      obtain ⟨t, ht, rfl⟩ := List.mem_map.1 hp
      rw [hentity]
      exact h.selected permit space read (List.mem_of_getElem? hget) t ht
  · cases hstep

/-- A forget that starts while no open enqueue has its memory deletes every job of it. -/
lemma Sound.forget {reach : Reach} (h : Sound s)
    (hselected : ∀ permit space ids, .selected permit space ids ∈ s.opened → t ∉ ids)
    (hinserted : ∀ r ∈ s.uncommitted, r.2.entity ≠ t)
    (hstep : s.forget t reach = some s') : Sound s' := by
  unfold JobStore.forget at hstep
  rcases hm : s.tables.memory.get? t with - | m
  · simp only [hm] at hstep
    obtain rfl := Option.some.inj hstep
    exact h
  simp only [hm] at hstep
  split at hstep
  · obtain rfl := Option.some.inj hstep
    exact h
  obtain ⟨-, ⟨⟩⟩ := Option.ite_none_left_eq_some.1 hstep
  have hold : ∀ {x : OpenTx}, x ∈ s.opened ++ [.forgetting t ((s.tables.embeddingJobs.rows.filter
      fun r => r.2.entity = t).map Prod.fst)] → x ∈ s.opened ∨ x = .forgetting t
        ((s.tables.embeddingJobs.rows.filter fun r => r.2.entity = t).map Prod.fst) := fun hx =>
    (List.mem_append.1 hx).imp_right List.mem_singleton.1
  -- besides the memories that were locked, the new forget locks its own
  have hlocked : ∀ k, (JobStore.mk s.tables (s.opened ++ [.forgetting t
      ((s.tables.embeddingJobs.rows.filter fun r => r.2.entity = t).map Prod.fst)])).lockedMemory
        k →
      s.lockedMemory k ∨ k = t := fun k hk => by
    obtain ⟨doomed, hmem⟩ := lockedMemory_iff.1 hk
    rcases hold hmem with hmem | heq
    · exact .inl (lockedMemory_iff.2 ⟨doomed, hmem⟩)
    · exact .inr (OpenTx.forgetting.inj heq).1
  refine ⟨h.jobs, fun k hk => ?_, fun k doomed hmem id job hjob hentity => ?_,
    fun permit space ids hmem k hk => ?_, fun rows hmem r hr => ?_⟩
  · rcases hlocked k hk with hk | rfl
    · exact h.present k hk
    · rw [hm]
      rfl
  · rcases hold hmem with hmem | heq
    · exact h.doomed k doomed hmem id job hjob hentity
    · obtain ⟨rfl, rfl⟩ := OpenTx.forgetting.inj heq
      exact List.mem_map.2 ⟨(id, job), List.mem_filter.2
        ⟨SortedMap.get?_eq_some.1 hjob, decide_eq_true hentity⟩, rfl⟩
  · have hread := (hold hmem).resolve_right (fun heq => by cases heq)
    obtain ⟨hlive, hopen⟩ := h.selected permit space ids hread k hk
    refine ⟨hlive, fun hk' => ?_⟩
    rcases hlocked k hk' with hk' | rfl
    · exact hopen hk'
    · exact hselected permit space ids hread hk
  · have hrows := (hold hmem).resolve_right (fun heq => by cases heq)
    obtain ⟨hlive, hopen⟩ := h.inserted rows hrows r hr
    refine ⟨hlive, fun hk' => ?_⟩
    rcases hlocked _ hk' with hk' | hk'
    · exact hopen hk'
    · exact hinserted r (List.mem_flatMap.2 ⟨_, hrows, hr⟩) hk'

lemma forgetMemory_memory (t : Uuid) (doomed : List Uuid) (T : Tables) :
    (forgetMemory t doomed T).memory = (setForgotten t true T).memory := by
  unfold forgetMemory
  dsimp only
  split
  · rw [syncMemoryHead_memory]
    rfl
  · rfl

lemma get?_forgetMemory (t : Uuid) (doomed : List Uuid) (T : Tables) (id : Uuid) :
    (forgetMemory t doomed T).embeddingJobs.get? id =
      (T.embeddingJobs.get? id).filter fun _ => id ∉ doomed := by
  unfold forgetMemory
  dsimp only
  split
  · rw [syncMemoryHead_embeddingJobs]
    exact SortedMap.get?_filter ..
  · exact SortedMap.get?_filter ..

lemma live_forgetMemory {k : Uuid} (hk : k ≠ t) (hlive : T.live k) :
    (forgetMemory t doomed T).live k := by
  rw [← live_setForgotten_ne hk true] at hlive
  simpa only [Tables.live, forgetMemory_memory] using hlive

lemma Sound.commitForget (h : Sound s) (hget : s.opened[n]? = some (.forgetting t doomed)) :
    Sound ⟨forgetMemory t doomed s.tables, s.opened.eraseIdx n⟩ := by
  have hmem := List.mem_of_getElem? hget
  have hsub : s.opened.eraseIdx n ⊆ s.opened := List.eraseIdx_subset ..
  have hjob : ∀ {id job}, (forgetMemory t doomed s.tables).embeddingJobs.get? id = some job →
      s.tables.embeddingJobs.get? id = some job ∧ id ∉ doomed := fun hjob => by
    rw [get?_forgetMemory, Option.filter_eq_some_iff] at hjob
    simpa using hjob
  have hlocked : ∀ k, (JobStore.mk (forgetMemory t doomed s.tables)
      (s.opened.eraseIdx n)).lockedMemory k → s.lockedMemory k := fun k hk => by
    obtain ⟨doomed', hmem'⟩ := lockedMemory_iff.1 hk
    exact lockedMemory_iff.2 ⟨doomed', hsub hmem'⟩
  have hself : s.lockedMemory t := lockedMemory_iff.2 ⟨doomed, hmem⟩
  have hstays : ∀ k, s.tables.live k ∧ ¬ s.lockedMemory k →
      (forgetMemory t doomed s.tables).live k ∧ ¬ (JobStore.mk (forgetMemory t doomed s.tables)
        (s.opened.eraseIdx n)).lockedMemory k := fun k ⟨hlive, hopen⟩ =>
    ⟨live_forgetMemory (fun heq => hopen (heq ▸ hself)) hlive, fun hk => hopen (hlocked k hk)⟩
  refine ⟨fun id job hid => ?_, fun k hk => ?_, fun k doomed' hmem' id job hid hentity => ?_,
    fun permit space ids hmem' k hk => hstays k (h.selected permit space ids (hsub hmem') k hk),
    fun rows hmem' r hr => hstays _ (h.inserted rows (hsub hmem') r hr)⟩
  · obtain ⟨hold, hkept⟩ := hjob hid
    exact live_forgetMemory (fun heq => hkept (h.doomed t doomed hmem id job hold heq))
      (h.jobs id job hold)
  · rw [forgetMemory_memory, isSome_setForgotten]
    exact h.present k (hlocked k hk)
  · exact h.doomed k doomed' (hsub hmem') id job (hjob hid).1 hentity

lemma Sound.commit (h : Sound s) (hstep : s.commit n = some s') : Sound s' := by
  unfold JobStore.commit at hstep
  split at hstep
  · rename_i rows hget
    obtain rfl := Option.some.inj hstep
    exact h.grows (grows_addJobs (h.inserted rows (List.mem_of_getElem? hget)))
      (List.eraseIdx_subset ..)
  · rename_i t doomed hget
    obtain rfl := Option.some.inj hstep
    exact h.commitForget hget
  · cases hstep

lemma Sound.reconcileInsert (h : Sound s) (hstep : s.reconcileInsert n ids = some s') :
    Sound s' := by
  unfold JobStore.reconcileInsert at hstep
  split at hstep
  · rename_i space limit eligible hget
    obtain ⟨hwait, ⟨⟩⟩ := Option.ite_none_left_eq_some.1 hstep
    refine h.grows (grows_reconcileInsert (fun r hr hlocked => hwait (.inl ?_)) space ids)
      (List.eraseIdx_subset ..)
    exact List.any_eq_true.2 ⟨r, hr, hlocked⟩
  · cases hstep

/-- **Step**: an action that keeps enqueues and forgets apart leaves every job a live memory. -/
lemma Sound.step {action : Action} (h : Sound s) (hapart : s.Apart action)
    (hstep : s.step createdAt action = some s') : Sound s' := by
  cases action with
  | enqueueMissing permit space limit nonEmbeddable =>
    obtain rfl := Option.some.inj hstep
    exact h.enqueueMissing hapart
  | insertMissing n ids => exact h.insertMissing hstep
  | commit n => exact h.commit hstep
  | rollback n =>
    obtain rfl := Option.some.inj hstep
    exact h.closing n
  | admitMemory t row spaces ids =>
    obtain ⟨hfresh, ⟨⟩⟩ := Option.ite_none_right_eq_some.1 hstep
    refine h.grows (grows_admitMemory hfresh.1 (fun hlocked => ?_) row spaces ids)
      (List.Subset.refl _)
    have := h.present t hlocked
    rw [hfresh.1] at this
    cases this
  | reconcile options limit after =>
    obtain rfl := Option.some.inj hstep
    refine h.advance (.reconciling options.space limit
      ((reconcileEligible createdAt options after s.tables).map fun r => (r.1, r.2.owner)))
      (fun _ _ _ heq => by cases heq) (fun _ heq => by cases heq) (fun _ _ heq => by cases heq)
      (fun x hx => ?_)
    exact (List.mem_append.1 hx).imp_right List.mem_singleton.1
  | reconcileInsert n ids => exact h.reconcileInsert hstep
  | claim now token limit skipOwners skipOwnerSpaces =>
    obtain rfl := Option.some.inj hstep
    refine h.finish fun T' hT' => ?_
    rcases hclaim : claimPendingEmbeddingJobs now token s.lockedJob limit skipOwners skipOwnerSpaces
        s.tables with e | ⟨claims, T₁⟩
    · rw [hclaim] at hT'
      cases hT'
    · rw [hclaim] at hT'
      obtain rfl := Except.ok.inj hT'
      exact grows_claim hclaim
  | release claims error =>
    obtain ⟨-, ⟨⟩⟩ := Option.ite_none_left_eq_some.1 hstep
    exact h.finish fun T' hT' => grows_release hT'
  | fail claim permanently error =>
    obtain ⟨-, ⟨⟩⟩ := Option.ite_none_left_eq_some.1 hstep
    refine h.finish fun T' hT' => ?_
    cases permanently with
    | false | true => exact grows_exitClaim hT'
  | complete claim =>
    obtain ⟨-, ⟨⟩⟩ := Option.ite_none_left_eq_some.1 hstep
    exact h.finish fun T' hT' => grows_complete hT'
  | renew now claims =>
    obtain ⟨-, ⟨⟩⟩ := Option.ite_none_left_eq_some.1 hstep
    refine h.finish fun T' hT' => ?_
    obtain rfl := Except.ok.inj hT'
    exact grows_renew now claims s.tables
  | reclaim now olderThanSeconds =>
    obtain ⟨-, ⟨⟩⟩ := Option.ite_none_left_eq_some.1 hstep
    exact h.finish fun T' hT' => grows_reclaim hT'
  | forget t reach => exact h.forget hapart.1 hapart.2 hstep
  | restore t reach route ids =>
    obtain ⟨hwait, ⟨⟩⟩ := Option.ite_none_left_eq_some.1 hstep
    exact h.finish fun T' hT' => grows_restore (fun hlocked => hwait (.inl hlocked)) hT'

lemma sound_reachedApart (h : ReachedApart createdAt s) : Sound s := by
  induction h with
  | init => exact sound_init
  | step _ hapart hstep ih => exact ih.step hapart hstep

/-- **A claim takes the first live jobs**: where enqueues of missing jobs and forgets of their
memories never overlap, a claim takes exactly the first of the pending jobs, by id, that are not
skipped or locked and whose memory is live, as many as the limit allows. -/
theorem claimPendingEmbeddingJobs_takes_first {createdAt : Uuid → ℕ}
    (h : ReachedApart createdAt s) (now : ℕ) (token : Uuid → Uuid) (limit : ℕ)
    (skipOwners : List Uuid) (skipOwnerSpaces : List (Uuid × EmbeddingSpace)) :
    ∃ claims,
      claimPendingEmbeddingJobs now token s.lockedJob limit skipOwners skipOwnerSpaces s.tables =
        .ok (claims, claimJobs now token (claims.map EmbeddingJobClaim.jobId) s.tables) ∧
      claims.map EmbeddingJobClaim.jobId =
        (claimable s.lockedJob skipOwners skipOwnerSpaces s.tables).take
          (min limit (claimable s.lockedJob skipOwners skipOwnerSpaces s.tables).length) := by
  obtain ⟨claims, hclaims, hids⟩ := claim_of_live (sound_reachedApart h).jobs now token s.lockedJob
    limit skipOwners skipOwnerSpaces
  exact ⟨claims, hclaims, hids.trans List.take_eq_take_min⟩

theorem claimPendingEmbeddingJobs_takes_first_queued :
    ∃ s, ReachedApart (fun _ => 0) s ∧ ∃ claims,
      claimPendingEmbeddingJobs 5 (fun id => id + 100) s.lockedJob (1 : ℕ) [] [] s.tables =
        .ok (claims,
          claimJobs 5 (fun id => id + 100) (claims.map EmbeddingJobClaim.jobId) s.tables) ∧
      claims.map EmbeddingJobClaim.jobId = [10] := by
  let admitted :=
    Action.admitMemory 1 { handle := 101, owner := 7, kind := .fact, schema := "note" }
    [⟨"model", .d384⟩] [10]
  have hqueued : (init.step (fun _ => 0) admitted).map
      (fun s => claimable s.lockedJob [] [] s.tables) = some [10] := by decide +kernel
  obtain ⟨s, hs, hclaimable⟩ := Option.map_eq_some_iff.1 hqueued
  have hapart : init.Apart admitted := trivial
  have hreached : ReachedApart (fun _ => 0) s := .step .init hapart hs
  obtain ⟨claims, hclaims, hids⟩ :=
    claimPendingEmbeddingJobs_takes_first hreached 5 (fun id => id + 100) 1 [] []
  rw [hclaimable] at hids
  exact ⟨s, hreached, claims, hclaims, hids⟩

/-- A forget between the read and the insert of an enqueue leaves a job of its memory, which holds
back the job of the next one. -/
def overtaken : List Action :=
  let permit : OwnerWritePermit := ⟨7, .goal, true⟩
  let space : EmbeddingSpace := ⟨"model", .d384⟩
  [.admitMemory 1 { handle := 101, owner := 7, kind := .fact, schema := "note" } [] [],
    .admitMemory 2 { handle := 102, owner := 7, kind := .fact, schema := "note" } [] [],
    .enqueueMissing permit space 1 [], .forget 1 ⟨7, [.fact]⟩, .commit 1,
    .insertMissing 0 [10], .commit 0,
    .enqueueMissing permit space 1 [], .insertMissing 0 [11], .commit 0]

theorem claimPendingEmbeddingJobs_held_back :
    ∃ s, init.run (fun _ => 0) overtaken = some s ∧ s.opened = [] ∧
      claimable s.lockedJob [] [] s.tables = [11] ∧
      claimPendingEmbeddingJobs 5 (fun id => id + 100) s.lockedJob (1 : ℕ) [] [] s.tables =
        .ok ([], s.tables) := by
  have hrun : (init.run (fun _ => 0) overtaken).map (fun s => (s.opened,
      claimable s.lockedJob [] [] s.tables,
      decide ((claimPendingEmbeddingJobs 5 (fun id => id + 100) s.lockedJob (1 : ℕ) [] []
        s.tables).toOption = some ([], s.tables)))) = some ([], [11], true) := by decide +kernel
  obtain ⟨s, hs, hobserved⟩ := Option.map_eq_some_iff.1 hrun
  obtain ⟨hopened, hclaimable, hclaim⟩ : s.opened = [] ∧ _ = _ ∧ _ = _ := by
    simpa only [Prod.mk.injEq] using hobserved
  refine ⟨s, hs, hopened, hclaimable, ?_⟩
  have hclaim := of_decide_eq_true hclaim
  rcases hresult : claimPendingEmbeddingJobs 5 (fun id => id + 100) s.lockedJob (1 : ℕ) [] []
      s.tables with e | r
  · rw [hresult] at hclaim
    cases hclaim
  · rw [hresult] at hclaim
    exact congrArg Except.ok (Option.some.inj hclaim)

end JobStore

end Proxiima.Embedding
