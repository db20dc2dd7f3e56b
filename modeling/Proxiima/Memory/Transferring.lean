import Proxiima.Memory.Forgetting

/-!
# Transfers under their locks

A transfer holds the exclusive fences of both owners and the lock of the handle. The versions
of the series stand still, so the ids it reads stay the ids of the series while it moves one
version after the other, drops receipts, and then moves the head and the counter.
-/

namespace Proxiima.Memory

open ReadCommitted Prog Setting

variable {H : Hashes} {c : Command} {σ σ' : Side} {X : StorageError → Side → Prop}
variable {fromOwner toOwner handle t : Uuid} {ts xs : List Uuid} {u : Uuid}

lemma mem_seriesTs {v : Tables} :
    u ∈ seriesTs v handle fromOwner ↔ ∃ m, memoryOf v u = some m ∧ m.handle = handle ∧
      m.ownerId = fromOwner := by
  simp only [seriesTs, List.mem_insertionSort, List.mem_dedup, List.mem_map, List.mem_filter,
    Prod.exists, exists_and_right, exists_eq_right, decide_eq_true_eq]
  constructor
  · rintro ⟨m, hmem, ho⟩
    obtain ⟨hm, hh⟩ := mem_versions.1 hmem
    exact ⟨m, hm, hh, ho⟩
  · rintro ⟨m, hm, hh, ho⟩
    exact ⟨m, mem_versions.2 ⟨hm, hh⟩, ho⟩

lemma nodup_seriesTs (v : Tables) : (seriesTs v handle fromOwner).Nodup :=
  (List.perm_insertionSort _ _).nodup_iff.2 (List.nodup_dedup _)

/-! ### The series under the locks -/

/-- The locks of a transfer, and the ids of the series. -/
structure Fixed (H : Hashes) (fromOwner toOwner handle : Uuid) (ts : List Uuid) (σ : Side) :
    Prop where
  source : H.exclusive (.ownerFence fromOwner) ∈ σ.held
  target : H.exclusive (.ownerFence toOwner) ∈ σ.held
  locked : H.exclusive (.memoryHandle handle) ∈ σ.held
  members : ∀ u, u ∈ ts ↔ ∃ m, memoryOf σ.db u = some m ∧ m.handle = handle ∧
    m.ownerId = fromOwner
  nodup : ts.Nodup

lemma lasting_fixed : Lasting H (Fixed H fromOwner toOwner handle ts) where
  rely σ σ' h hr := by
    refine ⟨hr.keeps.2 ▸ h.source, hr.keeps.2 ▸ h.target, hr.keeps.2 ▸ h.locked, fun u => ?_,
      h.nodup⟩
    have hv := (sameSeries_of_rely hr h.locked).versions u
    rw [h.members u]
    exact exists_congr fun m => ⟨fun hm => ⟨(hv m hm.2.1).1 hm.1, hm.2⟩,
      fun hm => ⟨(hv m hm.2.1).2 hm.1, hm.2⟩⟩
  mono σ τ h hdb hheld := ⟨hheld h.source, hheld h.target, hheld h.locked, hdb ▸ h.members,
    h.nodup⟩

/-- The locks of a transfer before the series is read. -/
def Gathered (H : Hashes) (c : Command) (fromOwner toOwner : Uuid) (σ : Side) : Prop :=
  At H c [] σ ∧ H.exclusive (.ownerFence fromOwner) ∈ σ.held ∧
    H.exclusive (.ownerFence toOwner) ∈ σ.held

lemma gathered_stable : (setting H).Stable (Gathered H c fromOwner toOwner) :=
  at_stable.and fun _ _ _ h hr => hr.keeps.2 ▸ h

lemma gathered_monotone : Setting.Monotone (Gathered H c fromOwner toOwner) := fun σ ls hσ =>
  ⟨at_monotone σ ls hσ.1, List.mem_append_right _ hσ.2.1, List.mem_append_right _ hσ.2.2⟩

theorem lockSeriesMembership_spec (hreq : c.request = none) :
    (setting H).Triple (Gathered H c fromOwner toOwner)
      (lockSeriesMembership H handle fromOwner)
      (fun ts σ => At H c [] σ ∧ Fixed H fromOwner toOwner handle ts σ) (Refused H c) := by
  have hP : ∀ ts, (setting H).Stable fun σ => At H c [] σ ∧
      Fixed H fromOwner toOwner handle ts σ := fun ts => at_lasting_stable lasting_fixed
  have hm : ∀ ts, Setting.Monotone fun σ => At H c [] σ ∧
      Fixed H fromOwner toOwner handle ts σ := fun ts => at_lasting_monotone lasting_fixed
  refine (lockAdvisoryIds_first .memoryHandle handle [] gathered_stable gathered_monotone).bind
    fun _ => ?_
  refine (Triple.view (Q := fun v σ => At H c [] σ ∧
    Fixed H fromOwner toOwner handle (seriesTs v handle fromOwner) σ) (gathered_stable.held _)
    (fun v => hP _) fun σ _ hσ => ?_).bind fun v => ?_
  · obtain ⟨⟨hat, hfrom, hto⟩, hl⟩ := hσ
    refine ⟨hat, hfrom, hto, hl, fun u => ?_, nodup_seriesTs _⟩
    rw [hat.view_eq]
    exact mem_seriesTs
  dsimp only
  split
  · rename_i hnil
    rw [hnil]
    exact Triple.ret (hP []) fun σ _ hσ => hσ
  · refine (lockAdvisoryIds_keeps .lifecycle _ (hP _) (hm _)).bind fun _ => ?_
    refine (Triple.look (hP _)).bind fun w => ?_
    refine (Triple.failIf (hP _) fun σ _ hσ _ =>
      hσ.1.unkeyed hreq _).bind fun _ => ?_
    exact Triple.ret (hP _).pure fun σ _ hσ => hσ.1

/-! ### The rows on their way -/

/-- How far the head is. -/
inductive HeadMoved (fromOwner toOwner handle : Uuid) (σ : Side) : Bool → Prop where
  | still (h : ∀ x, headOf σ.view x = headOf σ.db x) : HeadMoved fromOwner toOwner handle σ false
  | moved {head : Head} (hold : headOf σ.db handle = some head) (howner : head.ownerId = fromOwner)
      (hwrote : Key.head handle ∈ σ.writes.keys)
      (hself : headOf σ.view handle = some { head with ownerId := toOwner })
      (h : ∀ x, x ≠ handle → headOf σ.view x = headOf σ.db x) :
      HeadMoved fromOwner toOwner handle σ true

lemma HeadMoved.rely {b : Bool} (ho : Own H σ) (hr : (setting H).Rely σ σ')
    (h : HeadMoved fromOwner toOwner handle σ b) : HeadMoved fromOwner toOwner handle σ' b := by
  have hkeep : ∀ x, headOf σ.view x = headOf σ.db x → headOf σ'.view x = headOf σ'.db x :=
    fun x hx => ho.rel_rely hr (k := .head x) (R := fun o o' => o' = o) (fun _ => rfl) hx
  cases h with
  | still h => exact .still fun x => hkeep x (h x)
  | moved hold howner hwrote hself h =>
    obtain ⟨hdb, hview⟩ := ho.written_rely hr hwrote
    exact .moved (hdb.trans hold) howner (hr.keeps.1 ▸ hwrote) (hview.trans hself)
      fun x hx => hkeep x (h x hx)

/-- A transfer at work: the versions of the series but for those in `xs` have moved. -/
structure Moving (H : Hashes) (c : Command) (fromOwner toOwner handle : Uuid) (ts xs : List Uuid)
    (head : Bool) (σ : Side) : Prop where
  at_ : At H c σ.writes σ
  fixed : Fixed H fromOwner toOwner handle ts σ
  subset : ∀ u ∈ xs, u ∈ ts
  moved : ∀ u ∈ ts, u ∉ xs → Key.memory u ∈ σ.writes.keys ∧
    memoryOf σ.view u = (memoryOf σ.db u).map (·.rehome handle fromOwner toOwner)
  still : ∀ u, (u ∈ ts → u ∈ xs) → memoryOf σ.view u = memoryOf σ.db u
  heads : HeadMoved fromOwner toOwner handle σ head
  counters : ∀ x, (counterOf σ.view x).map (·.sequence) = (counterOf σ.db x).map (·.sequence)
  keys : ∀ o source k, keyOf σ.view o source k = keyOf σ.db o source k ∨
    keyOf σ.view o source k = none

variable {head : Bool}

lemma moving_stable : (setting H).Stable (Moving H c fromOwner toOwner handle ts xs head) where
  own _ hσ := hσ.at_.own
  rely σ σ' hσ hr := by
    have ho := hσ.at_.own
    refine ⟨?_, lasting_fixed.rely σ σ' hσ.fixed hr, hσ.subset, fun u hu hx => ?_, fun u hu => ?_,
      hσ.heads.rely ho hr, fun x => ?_, fun o source k => ?_⟩
    · rw [hr.keeps.1]
      exact at_stable.rely σ σ' hσ.at_ hr
    · obtain ⟨hwrote, hrow⟩ := hσ.moved u hu hx
      obtain ⟨hdb, hview⟩ := ho.written_rely hr hwrote
      refine ⟨hr.keeps.1 ▸ hwrote, ?_⟩
      rw [show memoryOf σ'.view u = memoryOf σ.view u from hview,
        show memoryOf σ'.db u = memoryOf σ.db u from hdb, hrow]
    · exact ho.rel_rely hr (k := .memory u) (R := fun o o' => o' = o) (fun _ => rfl) (hσ.still u hu)
    · exact ho.rel_rely hr (k := .counter x)
        (R := fun o o' => o'.map (·.sequence) = o.map (·.sequence)) (fun _ => rfl) (hσ.counters x)
    · exact ho.rel_rely hr (k := .ingestKey o source k) (R := fun o o' => o' = o ∨ o' = none)
        (fun _ => .inl rfl) (hσ.keys o source k)

lemma moving_monotone : Setting.Monotone (Moving H c fromOwner toOwner handle ts xs head) :=
  fun σ ls hσ => ⟨at_monotone σ ls hσ.at_,
    lasting_fixed.mono _ _ hσ.fixed rfl (List.subset_append_right _ _), hσ.subset, hσ.moved,
    hσ.still, by cases hσ.heads with
      | still h => exact .still h
      | moved h1 h2 h3 h4 h5 => exact .moved h1 h2 h3 h4 h5, hσ.counters, hσ.keys⟩

/-- A transfer starts with every version still to be moved. -/
lemma moving_start (h : At H c [] σ ∧ Fixed H fromOwner toOwner handle ts σ) :
    Moving H c fromOwner toOwner handle ts ts false σ where
  at_ := by rw [h.1.writes]; exact h.1
  fixed := h.2
  subset _ hu := hu
  moved u hu hx := absurd hu hx
  still u _ := by rw [h.1.view_eq]
  heads := .still fun x => by rw [h.1.view_eq]
  counters x := by rw [h.1.view_eq]
  keys o source k := .inl (by rw [h.1.view_eq])

/-! ### Moving the rows -/

/-- Both fences and the handle lock let a version change hands. -/
lemma Fixed.mayRehome {m : MemoryRow} (h : Fixed H fromOwner toOwner handle ts σ)
    (hm : memoryOf σ.db u = some m) (hh : m.handle = handle) (ho : m.ownerId = fromOwner) :
    MayWrite H σ u (some { m with ownerId := toOwner }) where
  old m0 hm0 := by
    obtain rfl := Option.mem_unique hm hm0
    exact ⟨hh ▸ h.locked, fun _ => ho ▸ h.source⟩
  new m' hm' := by
    obtain rfl := Option.some.inj hm'
    exact hh ▸ h.locked
  both m0 m' hm0 hm' := by
    obtain rfl := Option.mem_unique hm hm0
    obtain rfl := Option.some.inj hm'
    exact ⟨rfl, rfl, rfl, fun _ => h.target⟩
  added m' key hnone := by simp [hm] at hnone

lemma HeadMoved.written_other {k : Key} {o : Option (Row k)}
    (hk : ∀ x, headOf (⟨k, o⟩ :: σ.view) x = headOf σ.view x)
    (h : HeadMoved fromOwner toOwner handle σ head) :
    HeadMoved fromOwner toOwner handle (written σ k o) head := by
  cases h with
  | still h => exact .still fun x => (hk x).trans (h x)
  | moved h1 h2 h3 h4 h5 =>
    exact .moved h1 h2 (List.mem_cons_of_mem _ h3) ((hk _).trans h4) fun x hx =>
      (hk x).trans (h5 x hx)

lemma Moving.at_written {k : Key} {o : Option (Row k)}
    (h : Moving H c fromOwner toOwner handle ts xs head σ) (ho : Own H (written σ k o)) :
    At H c (written σ k o).writes (written σ k o) :=
  h.at_.written ho

lemma Moving.fixed_written (h : Moving H c fromOwner toOwner handle ts xs head σ) (k : Key)
    (o : Option (Row k)) : Fixed H fromOwner toOwner handle ts (written σ k o) :=
  lasting_fixed.mono _ _ h.fixed rfl (List.subset_cons_self _ _)

theorem rehomeMemory_spec (hu : u ∉ xs) :
    (setting H).Triple (Moving H c fromOwner toOwner handle ts (u :: xs) head)
      (rehomeMemory fromOwner toOwner u)
      (fun _ => Moving H c fromOwner toOwner handle ts xs head) X := by
  -- the version is one of the series, and so stands still
  refine Triple.pre (Triple.of_exists (P := fun m σ =>
    Moving H c fromOwner toOwner handle ts (u :: xs) head σ ∧ memoryOf σ.db u = some m ∧
      m.handle = handle ∧ m.ownerId = fromOwner) fun m => ?_) fun σ hσ => ?_
  · have hP : (setting H).Stable fun σ =>
        Moving H c fromOwner toOwner handle ts (u :: xs) head σ ∧ memoryOf σ.db u = some m ∧
        m.handle = handle ∧ m.ownerId = fromOwner :=
      moving_stable.and fun σ σ' hσ h hr =>
        ⟨((sameSeries_of_rely hr hσ.fixed.locked).versions u m h.2.1).1 h.1, h.2⟩
    have hm : Setting.Monotone fun σ : Side =>
        Moving H c fromOwner toOwner handle ts (u :: xs) head σ ∧ memoryOf σ.db u = some m ∧
        m.handle = handle ∧ m.ownerId = fromOwner := fun σ ls hσ =>
      ⟨moving_monotone σ ls hσ.1, hσ.2⟩
    refine (Triple.lockRow_protected hP hm fun σ hσ =>
      (hσ.1.still u fun _ => List.mem_cons_self).trans hσ.2.1).bind fun o => ?_
    refine Triple.of_pure (fun σ hσ => And.intro hσ.2 hσ.1.2.2.2) ?_
    rintro ⟨rfl, howner⟩
    change (setting H).Triple _ (if m.ownerId = fromOwner then _ else _) _ _
    rw [if_pos howner]
    refine Triple.write hP.pure moving_stable ?_
    rintro σ _ ⟨⟨hσ, hrow, hh, -⟩, -⟩
    have hown := hσ.at_.own.written_memory (hσ.fixed.mayRehome hrow hh howner)
    change Moving H c fromOwner toOwner handle ts xs head
      (written σ (.memory u) (some { m with ownerId := toOwner }))
    refine ⟨hσ.at_written hown, hσ.fixed_written _ _, fun w hw =>
      hσ.subset w (List.mem_cons_of_mem _ hw), fun w hw hx => ?_, fun w hw => ?_,
      hσ.heads.written_other fun x => congrFun (headOf_cons_memory ..) x, fun x => ?_,
      fun o source k => ?_⟩
    · by_cases hwu : w = u
      · subst hwu
        refine ⟨List.mem_cons_self, ?_⟩
        rw [written_view, written_db, memoryOf_cons_memory, Function.update_self, hrow]
        simp [MemoryRow.rehome, hh, howner]
      · obtain ⟨hwrote, hview⟩ := hσ.moved w hw (by simp [hwu, hx])
        refine ⟨List.mem_cons_of_mem _ hwrote, ?_⟩
        rw [written_view, memoryOf_cons_memory, Function.update_of_ne hwu]
        exact hview
    · have hwu : w ≠ u := by
        rintro rfl
        exact hu (hw (hσ.subset w List.mem_cons_self))
      rw [written_view, memoryOf_cons_memory, Function.update_of_ne hwu]
      exact hσ.still w fun hmem => List.mem_cons_of_mem _ (hw hmem)
    · rw [written_view, counterOf_cons_memory]
      exact hσ.counters x
    · rw [written_view, keyOf_cons_memory]
      exact hσ.keys o source k
  · obtain ⟨m, hm⟩ := (hσ.fixed.members u).1 (hσ.subset u List.mem_cons_self)
    exact ⟨m, hσ, hm⟩

lemma Moving.dropKey (h : Moving H c fromOwner toOwner handle ts xs head σ) (owner : Uuid)
    (source : SourceId) (key : String) :
    Moving H c fromOwner toOwner handle ts xs head
      (written σ (.ingestKey owner source key) none) where
  at_ := h.at_written (h.at_.own.written_key _ _ _ _)
  fixed := h.fixed_written _ _
  subset := h.subset
  moved u hu hx := by
    rw [written_view, memoryOf_cons_key]
    exact ⟨List.mem_cons_of_mem _ (h.moved u hu hx).1, (h.moved u hu hx).2⟩
  still u hu := by
    rw [written_view, memoryOf_cons_key]
    exact h.still u hu
  heads := h.heads.written_other fun x => congrFun (headOf_cons_key ..) x
  counters x := by
    rw [written_view, counterOf_cons_key]
    exact h.counters x
  keys o s k := by
    by_cases hk : Key.ingestKey o s k = Key.ingestKey owner source key
    · obtain ⟨rfl, rfl, rfl⟩ := Key.ingestKey.inj hk
      exact .inr (get_cons_self _ _ _)
    · have hold : keyOf (written σ (.ingestKey owner source key) none).view o s k =
          keyOf σ.view o s k := get_cons_ne _ _ hk
      rw [hold]
      exact h.keys o s k

lemma moving_found (k : Key) (o : Option (Row k)) : (setting H).Stable fun σ =>
    Moving H c fromOwner toOwner handle ts xs head σ ∧
      ∀ r, o = some r → Lock.row k ∈ σ.held ∧ get σ.view k = some r :=
  moving_stable.found ((system H).row_conflict k) o

theorem persistSeriesHeadTransfer_spec (hreq : c.request = none) (expectedHeadT : Uuid) :
    (setting H).Triple (Moving H c fromOwner toOwner handle ts [] false)
      (persistSeriesHeadTransfer handle fromOwner toOwner expectedHeadT)
      (fun _ => Moving H c fromOwner toOwner handle ts [] true) (Refused H c) := by
  have hrefused : ∀ {P : Side → Prop}, (setting H).Stable P →
      (∀ σ, P σ → Moving H c fromOwner toOwner handle ts [] false σ) →
      (setting H).Triple P (do
        let v ← view
        if (headOf v handle).any fun head => head.ownerId = fromOwner then
          fail (.retryable "series head advanced before transfer could persist")
        else
          fail .notTransferred : Tx PUnit) (fun _ => Moving H c fromOwner toOwner handle ts [] true)
        (Refused H c) := by
    intro P hP hmoving
    refine (Triple.look hP).bind fun v => ?_
    split
    all_goals exact Triple.fail hP fun σ _ hσ => (hmoving σ hσ).at_.unkeyed hreq _
  refine (Triple.lockRow moving_stable moving_monotone ((system H).row_conflict _)).bind fun o => ?_
  cases o with
  | none => exact hrefused (moving_found _ _) fun σ hσ => hσ.1
  | some head =>
    change (setting H).Triple _ (if head.ownerId = fromOwner ∧ head.t = expectedHeadT then _
      else _) _ _
    split
    · rename_i hcond
      refine Triple.write (moving_found _ _) moving_stable ?_
      rintro σ _ ⟨hσ, hhead⟩
      have hview : headOf σ.view handle = some head := (hhead head rfl).2
      have hstill : ∀ x, headOf σ.view x = headOf σ.db x := by
        cases hσ.heads with
        | still h => exact h
      have hown := hσ.at_.own.written_head hσ.fixed.locked (some { head with ownerId := toOwner })
      change Moving H c fromOwner toOwner handle ts [] true
        (written σ (.head handle) (some { head with ownerId := toOwner }))
      refine ⟨hσ.at_written hown, hσ.fixed_written _ _, hσ.subset, fun u hu hx => ?_,
        fun u hu => ?_, .moved ((hstill handle).symm.trans hview) hcond.1 List.mem_cons_self ?_
        fun x hx => ?_, fun x => ?_, fun o source k => ?_⟩
      · rw [written_view, memoryOf_cons_head]
        exact ⟨List.mem_cons_of_mem _ (hσ.moved u hu hx).1, (hσ.moved u hu hx).2⟩
      · rw [written_view, memoryOf_cons_head]
        exact hσ.still u hu
      · rw [written_view, headOf_cons_head, Function.update_self]
      · rw [written_view, headOf_cons_head, Function.update_of_ne hx]
        exact hstill x
      · rw [written_view, counterOf_cons_head]
        exact hσ.counters x
      · rw [written_view, keyOf_cons_head]
        exact hσ.keys o source k
    · exact hrefused (moving_found _ _) fun σ hσ => hσ.1

theorem transferCounter_spec :
    (setting H).Triple (Moving H c fromOwner toOwner handle ts [] head)
      (transferCounter handle fromOwner toOwner)
      (fun _ => Moving H c fromOwner toOwner handle ts [] head) X := by
  refine (Triple.lockRow moving_stable moving_monotone ((system H).row_conflict _)).bind fun o => ?_
  cases o with
  | none => exact Triple.ret (moving_found _ _) fun σ _ hσ => hσ.1
  | some counter =>
    change (setting H).Triple _ (if counter.ownerId = fromOwner then _ else _) _ _
    split
    · refine Triple.write (moving_found _ _) moving_stable ?_
      rintro σ _ ⟨hσ, hcounter⟩
      have hview : counterOf σ.view handle = some counter := (hcounter counter rfl).2
      have hown := hσ.at_.own.written_counter hσ.fixed.locked
        (some { counter with ownerId := toOwner })
      change Moving H c fromOwner toOwner handle ts [] head
        (written σ (.counter handle) (some { counter with ownerId := toOwner }))
      refine ⟨hσ.at_written hown, hσ.fixed_written _ _, hσ.subset, fun u hu hx => ?_,
        fun u hu => ?_, hσ.heads.written_other fun x => congrFun (headOf_cons_counter ..) x,
        fun x => ?_, fun o source k => ?_⟩
      · rw [written_view, memoryOf_cons_counter]
        exact ⟨List.mem_cons_of_mem _ (hσ.moved u hu hx).1, (hσ.moved u hu hx).2⟩
      · rw [written_view, memoryOf_cons_counter]
        exact hσ.still u hu
      · rw [written_view, counterOf_cons_counter]
        by_cases hx : x = handle
        · subst hx
          rw [Function.update_self, written_db, ← hσ.counters x, hview]
          rfl
        · rw [Function.update_of_ne hx]
          exact hσ.counters x
      · rw [written_view, keyOf_cons_counter]
        exact hσ.keys o source k
    · exact Triple.ret (moving_found _ _) fun σ _ hσ => hσ.1

/-! ### The transfer -/

/-- All rows have moved. -/
lemma Moving.transfers (h : Moving H c fromOwner toOwner handle ts [] true σ) (ht : t ∈ ts)
    (hne : fromOwner ≠ toOwner) :
    Transfers (store σ.db) fromOwner toOwner t handle (store σ.view) where
  apart := hne
  requested := (h.fixed.members t).1 ht
  memory u := by
    by_cases hu : u ∈ ts
    · exact (h.moved u hu List.not_mem_nil).2
    · -- a row that is not one of the series is rehomed to itself
      refine (h.still u fun hmem => absurd hmem hu).trans ?_
      change memoryOf σ.db u = (memoryOf σ.db u).map _
      cases hm : memoryOf σ.db u with
      | none => rfl
      | some m =>
        have hno : ¬ (m.handle = handle ∧ m.ownerId = fromOwner) := fun hcols =>
          hu ((h.fixed.members u).2 ⟨m, hm, hcols⟩)
        simp [MemoryRow.rehome, hno]
  head := by
    cases h.heads with
    | @moved head hold howner hwrote hself hother =>
      refine ⟨head, hold, howner, funext fun x => ?_⟩
      by_cases hx : x = handle
      · subst hx
        rw [Function.update_self]
        exact hself
      · rw [Function.update_of_ne hx]
        exact hother x hx
  counter := h.counters
  key := h.keys

theorem transferMemoryHandle_spec (hreq : c.request = none) :
    (setting H).Triple (Gathered H c fromOwner toOwner)
      (transferMemoryHandle H t handle fromOwner toOwner)
      (fun _ σ => ∃ ts, t ∈ ts ∧ Moving H c fromOwner toOwner handle ts [] true σ)
      (Refused H c) := by
  refine (lockSeriesMembership_spec hreq).bind fun ts => ?_
  have hP : (setting H).Stable fun σ => At H c [] σ ∧ Fixed H fromOwner toOwner handle ts σ :=
    at_lasting_stable lasting_fixed
  have hfail : ∀ {φ : Prop} [Decidable φ] {e : StorageError},
      (setting H).Triple (fun σ => At H c [] σ ∧ Fixed H fromOwner toOwner handle ts σ)
        (failIf φ e) (fun _ σ => (At H c [] σ ∧ Fixed H fromOwner toOwner handle ts σ) ∧ ¬ φ)
        (Refused H c) := fun {φ _ e} =>
    Triple.failIf hP fun σ _ hσ _ => hσ.1.unkeyed hreq _
  have hprobe : (setting H).Triple
      (fun σ => At H c [] σ ∧ Fixed H fromOwner toOwner handle ts σ) probe
      (fun _ σ => At H c [] σ ∧ Fixed H fromOwner toOwner handle ts σ) (Refused H c) :=
    Triple.call hP (fun _ => hP) fun _ _ _ _ hσ => hσ
  refine hfail.bind fun _ => ?_
  refine (hprobe.pre fun σ hσ => hσ.1).bind fun guidance => ?_
  refine hfail.bind fun _ => ?_
  refine (hfail.pre fun σ hσ => hσ.1).bind fun _ => ?_
  refine Triple.of_pure (fun σ hσ => not_not.1 hσ.2) fun ht => ?_
  refine Triple.pre ?_ fun σ hσ => hσ.1
  refine (Triple.look hP).bind fun v => ?_
  refine (liftExcept_spec (transferHead v handle fromOwner ts) hP
    fun e σ _ hσ => hσ.1.unkeyed hreq _).bind fun expectedHeadT => ?_
  refine (hprobe.pre fun σ hσ => hσ.1).bind fun upload => ?_
  refine hfail.bind fun _ => ?_
  refine Triple.of_pure (fun σ hσ => hσ.1.2.nodup) fun hnodup => ?_
  refine Triple.bind (M := fun _ => Moving H c fromOwner toOwner handle ts [] false) ?_
    fun _ => ?_
  · -- the versions still to be moved are distinct
    refine ((Triple.forM (P := fun xs σ => Moving H c fromOwner toOwner handle ts xs false σ
      ∧ xs.Nodup) moving_stable.pure (fun u xs => ?_) ts).pre fun σ hσ =>
      ⟨moving_start hσ.1, hnodup⟩).post fun _ σ hσ => hσ.1
    refine Triple.of_pure (fun σ hσ => List.nodup_cons.1 hσ.2) ?_
    rintro ⟨hu, hxs⟩
    exact (rehomeMemory_spec hu).conseq (fun σ hσ => hσ.1) fun _ σ hσ => ⟨hσ, hxs⟩
  refine (deleteIngestKeys_spec moving_stable moving_monotone
    (fun σ _ _ _ hσ => hσ.dropKey _ _ _) _).bind fun _ => ?_
  refine (persistSeriesHeadTransfer_spec hreq expectedHeadT).bind fun _ => ?_
  exact transferCounter_spec.post fun _ σ hσ => ⟨ts, ht, hσ⟩

theorem transferToOwner_spec (fromOwner toOwner t : Uuid) :
    Meets H (.transfer fromOwner toOwner t) (transferToOwner H fromOwner toOwner t) := by
  refine (Triple.failIf at_stable fun σ _ hσ _ =>
    hσ.unkeyed rfl _).bind fun _ => ?_
  refine Triple.of_pure (fun σ hσ => hσ.2) fun hne => ?_
  refine Triple.bind (M := fun _ => Gathered H (.transfer fromOwner toOwner t) fromOwner
    toOwner) ?_ fun _ => ?_
  · exact (lockAdvisoryIds_spec .ownerFence [fromOwner, toOwner] at_stable at_monotone).conseq
      (fun _ h => h.1) fun _ σ hσ => ⟨hσ.1, hσ.2 _ (by simp), hσ.2 _ (by simp)⟩
  refine (Triple.passive (passive_view.bind fun _ => passive_pure _)
    gathered_stable gathered_monotone fun e σ _ hσ => hσ.1.unkeyed rfl e).bind fun o => ?_
  cases o with
  | none => exact Triple.fail gathered_stable fun σ _ hσ => hσ.1.unkeyed rfl _
  | some handle =>
    refine (transferMemoryHandle_spec rfl).bind fun _ => ?_
    refine Triple.of_exists fun ts => ?_
    refine Triple.of_pure (fun σ hσ => hσ.1) fun ht => ?_
    refine Triple.pre ?_ fun σ hσ => hσ.2
    refine Triple.ret moving_stable fun σ _ hσ => ?_
    rw [Local.ended, hσ.at_.cmd]
    exact .transferred (hσ.transfers ht hne)

end Proxiima.Memory
