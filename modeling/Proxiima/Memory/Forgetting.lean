import Proxiima.Memory.Judging

/-!
# Forget, restore and erase under their locks

Each of these replaces one version of a series and then moves the head, all under the handle
lock. `Replacing` is the one step `Replaces` describes, between two points of a transaction's
own writes: what it says of the committed rows is either under the handle lock or about rows
the transaction has locked, so it stands whatever the others commit. An erase of a whole
series is a chain of such steps.
-/

namespace Proxiima.Memory

open ReadCommitted Prog Setting

variable {H : Hashes} {c : Command} {σ σ' τ : Side} {P Q : Side → Prop}
variable {X : StorageError → Side → Prop} {ws ws' : Tables} {handle t : Uuid}

/-! ### A series behind the transaction's writes -/

lemma headOf_append_rely (hr : (setting H).Rely σ σ')
    (hl : H.exclusive (.memoryHandle handle) ∈ σ.held) (ws : Tables) :
    headOf (ws ++ σ'.db) handle = headOf (ws ++ σ.db) handle :=
  get_append_congr ws (sameSeries_of_rely hr hl).head

lemma sameVersions_append_rely (hr : (setting H).Rely σ σ')
    (hl : H.exclusive (.memoryHandle handle) ∈ σ.held) (ws : Tables) :
    SameVersions handle (memoryOf (ws ++ σ.db)) (memoryOf (ws ++ σ'.db)) := by
  intro t r hh
  by_cases hk : Key.memory t ∈ List.keys ws
  · rw [show memoryOf (ws ++ σ.db) t = memoryOf (ws ++ σ'.db) t from get_append_of_mem hk _ _]
  · rw [show memoryOf (ws ++ σ.db) t = memoryOf σ.db t from get_append_of_notMem hk,
      show memoryOf (ws ++ σ'.db) t = memoryOf σ'.db t from get_append_of_notMem hk]
    exact (sameSeries_of_rely hr hl).versions t r hh

/-- Where two points of the writes agree, they agree whatever the others commit. -/
lemma append_eq_rely (hr : (setting H).Rely σ σ') (hsuffix : ws <:+ ws')
    (hrows : ∀ k ∈ ws'.keys, Lock.row k ∈ σ.held) {k : Key}
    (h : get (ws' ++ σ.db) k = get (ws ++ σ.db) k) :
    get (ws' ++ σ'.db) k = get (ws ++ σ'.db) k := by
  by_cases hk : k ∈ ws'.keys
  · have hdb := get_db_of_row hr (hrows k hk)
    rw [get_append_congr ws' hdb, get_append_congr ws hdb, h]
  · have hk' : k ∉ ws.keys := fun hmem => hk ((hsuffix.map _).subset hmem)
    rw [get_append_of_notMem hk, get_append_of_notMem hk']

/-- The newest version that remains, or none. -/
def IsRemaining (memory : Uuid → Option MemoryRow) (handle : Uuid) : Option Uuid → Prop
  | none => ∀ t m, memory t = some m → m.handle ≠ handle
  | some t => IsNewest memory handle t

lemma isRemaining_remaining (v : Tables) (handle : Uuid) :
    IsRemaining (memoryOf v) handle (remaining v handle) := by
  cases h : remaining v handle with
  | none => exact remaining_eq_none.1 h
  | some t => exact remaining_eq_some h

variable {m : Uuid → Option MemoryRow} {owner : Uuid} {m' : Uuid → Option MemoryRow}

lemma IsRemaining.congr {o : Option Uuid} (h : SameVersions handle m m')
    (hr : IsRemaining m handle o) : IsRemaining m' handle o := by
  cases o with
  | none => exact fun t r hm hh => hr t r ((h t r hh).2 hm) hh
  | some t => exact IsNewest.congr h hr

lemma SyncedHead.congr {o o' : Option Head} (h : SameVersions handle m m')
    (hs : SyncedHead m handle o o') : SyncedHead m' handle o o' := by
  cases hs with
  | missing => exact .missing
  | gone hno => exact .gone fun t r hm hh => hno t r ((h t r hh).2 hm) hh
  | moved hn => exact .moved (hn.congr h)

lemma IsRemaining.synced {o : Option Uuid} (h : IsRemaining m handle o) (head : Head) :
    SyncedHead m handle (some head) (o.map fun t => { head with t := t }) := by
  cases o with
  | none => exact .gone h
  | some t => exact .moved h

/-- The head is moved to what remains. -/
theorem syncMemoryHead_spec (hP : (setting H).Stable P) (hm : Setting.Monotone P)
    (hQ : (setting H).Stable Q) (hl : ∀ σ, P σ → H.exclusive (.memoryHandle handle) ∈ σ.held)
    (hnone : ∀ σ, P σ → headOf σ.view handle = none → Q σ)
    (hsome : ∀ σ head newest, P σ → headOf σ.view handle = some head →
      IsRemaining (memoryOf σ.view) handle newest →
      Q (written σ (.head handle) (newest.map fun t => { head with t := t }))) :
    (setting H).Triple P (syncMemoryHead handle) (fun _ => Q) X := by
  -- the head and what remains stand still: name them
  refine (Triple.view (Q := fun v σ => P σ ∧
    IsRemaining (memoryOf σ.view) handle (remaining v handle)) hP (fun v => ?_)
    fun σ _ hσ => ⟨hσ, isRemaining_remaining _ _⟩).bind fun v => ?_
  · refine hP.and fun σ σ' hσ h hr => h.congr ?_
    rw [Local.view, Local.view, hr.keeps.1]
    exact sameVersions_append_rely hr (hl σ hσ) _
  generalize remaining v handle = newest
  refine Triple.fix (fun σ => headOf σ.view handle) fun o => ?_
  have hview : ∀ σ σ', P σ → (setting H).Rely σ σ' →
      headOf σ'.view handle = headOf σ.view handle := fun σ σ' hσ hr =>
    hr.get_view_of_db (sameSeries_of_rely hr (hl σ hσ)).head
  have hP1 : (setting H).Stable fun σ => (P σ ∧ IsRemaining (memoryOf σ.view) handle newest) ∧
      headOf σ.view handle = o := by
    refine (hP.and fun σ σ' hσ h hr => h.congr ?_).and fun σ σ' hσ h hr =>
      (hview σ σ' hσ.1 hr).trans h
    rw [Local.view, Local.view, hr.keeps.1]
    exact sameVersions_append_rely hr (hl σ hσ) _
  have hm1 : Setting.Monotone fun σ : Side => (P σ ∧
      IsRemaining (memoryOf σ.view) handle newest) ∧ headOf σ.view handle = o :=
    fun σ ls hσ => ⟨⟨hm σ ls hσ.1.1, hσ.1.2⟩, hσ.2⟩
  refine (Triple.lockRow_protected hP1 hm1 fun σ hσ => hσ.2).bind fun o' => ?_
  refine Triple.of_pure (fun σ hσ => hσ.2) ?_
  rintro rfl
  refine Triple.pre ?_ fun σ hσ => hσ.1
  cases o' with
  | none => exact Triple.ret hP1 fun σ _ hσ => hnone σ hσ.1.1 hσ.2
  | some head =>
    exact Triple.write hP1 hQ fun σ _ hσ => hsome σ head newest hσ.1.1 hσ.2 hσ.1.2

/-! ### One version replaced -/

/-- Between the writes `ws` and `ws'` a version is replaced and its head follows. -/
structure Replacing (H : Hashes) (ws ws' : Tables) (t : Uuid) (m : MemoryRow)
    (o : Option MemoryRow) (σ : Side) : Prop where
  suffix : ws <:+ ws'
  rows : ∀ k ∈ ws'.keys, Lock.row k ∈ σ.held
  handle : H.exclusive (.memoryHandle m.handle) ∈ σ.held
  wrote : Key.memory t ∈ ws'.keys
  replaces : Replaces (store (ws ++ σ.db)) t m o (store (ws' ++ σ.db))
  keys : ∀ owner source k, keyOf (ws' ++ σ.db) owner source k = keyOf (ws ++ σ.db) owner source k ∨
    (o = none ∧ keyOf (ws' ++ σ.db) owner source k = none)

variable {m : MemoryRow} {o : Option MemoryRow}

lemma Replacing.rely (h : Replacing H ws ws' t m o σ) (hr : (setting H).Rely σ σ') :
    Replacing H ws ws' t m o σ' := by
  have hkeep : ∀ {k : Key}, get (ws' ++ σ.db) k = get (ws ++ σ.db) k →
      get (ws' ++ σ'.db) k = get (ws ++ σ'.db) k := append_eq_rely hr h.suffix h.rows
  have hversions := sameVersions_append_rely hr h.handle
  have hhead := headOf_append_rely hr h.handle
  refine ⟨h.suffix, hr.keeps.2 ▸ h.rows, hr.keeps.2 ▸ h.handle, h.wrote, ⟨?_, ?_, ?_, ?_, ?_⟩, ?_⟩
  · exact (hversions ws t m rfl).1 h.replaces.found
  · funext u
    have hu := congrFun h.replaces.memory u
    change memoryOf (ws' ++ σ'.db) u = _
    by_cases hut : u = t
    · subst hut
      rw [Function.update_self] at hu ⊢
      exact (get_append_of_mem h.wrote _ _).trans hu
    · rw [Function.update_of_ne hut] at hu ⊢
      exact hkeep hu
  · change SyncedHead (memoryOf (ws' ++ σ'.db)) m.handle (headOf (ws ++ σ'.db) m.handle)
      (headOf (ws' ++ σ'.db) m.handle)
    rw [hhead ws, hhead ws']
    exact h.replaces.head.congr (hversions ws')
  · exact fun x hx => hkeep (h.replaces.otherHeads x hx)
  · exact funext fun x => hkeep (congrFun h.replaces.counter x)
  · intro owner source k
    rcases h.keys owner source k with heq | ⟨ho, hnone⟩
    · exact .inl (hkeep heq)
    · by_cases hk : Key.ingestKey owner source k ∈ ws'.keys
      · exact .inr ⟨ho, (get_append_of_mem hk _ _).trans hnone⟩
      · have hk' : Key.ingestKey owner source k ∉ ws.keys := fun hmem =>
          hk ((h.suffix.map _).subset hmem)
        left
        rw [keyOf, keyOf, get_append_of_notMem hk, get_append_of_notMem hk']

lemma Replacing.mono (h : Replacing H ws ws' t m o σ) (hdb : τ.db = σ.db)
    (hheld : σ.held ⊆ τ.held) : Replacing H ws ws' t m o τ where
  suffix := h.suffix
  rows k hk := hheld (h.rows k hk)
  handle := hheld h.handle
  wrote := h.wrote
  replaces := hdb ▸ h.replaces
  keys := hdb ▸ h.keys

/-- A receipt may be dropped after an erase. -/
lemma Replacing.dropKey (h : Replacing H ws ws' t m none σ) (owner : Uuid) (source : SourceId)
    (key : String) :
    Replacing H ws (⟨.ingestKey owner source key, none⟩ :: ws') t m none
      (written σ (.ingestKey owner source key) none) where
  suffix := h.suffix.trans (List.suffix_cons _ _)
  rows k hk := by
    rcases List.mem_cons.1 hk with rfl | hk
    · exact List.mem_cons_self
    · exact List.mem_cons_of_mem _ (h.rows k hk)
  handle := List.mem_cons_of_mem _ h.handle
  wrote := List.mem_cons_of_mem _ h.wrote
  replaces := by
    refine ⟨h.replaces.found, ?_, ?_, fun x hx => ?_, ?_⟩
    all_goals simp only [store, written_db, List.cons_append, memoryOf_cons_key, headOf_cons_key,
      counterOf_cons_key]
    · exact h.replaces.memory
    · exact h.replaces.head
    · exact h.replaces.otherHeads x hx
    · exact h.replaces.counter
  keys o s k := by
    by_cases hk : Key.ingestKey o s k = Key.ingestKey owner source key
    · obtain ⟨rfl, rfl, rfl⟩ := Key.ingestKey.inj hk
      exact .inr ⟨rfl, get_cons_self _ _ _⟩
    · have hold : keyOf (⟨.ingestKey owner source key, none⟩ :: (ws' ++ σ.db)) o s k =
          keyOf (ws' ++ σ.db) o s k := get_cons_ne _ _ hk
      rw [written_db, List.cons_append, hold]
      exact h.keys o s k

/-- Facts about the committed rows that the transaction's own locks and writes leave alone. -/
structure Lasting (H : Hashes) (F : Side → Prop) : Prop where
  rely : ∀ σ σ', F σ → (setting H).Rely σ σ' → F σ'
  mono : ∀ σ τ, F σ → τ.db = σ.db → σ.held ⊆ τ.held → F τ

variable {F : Side → Prop}

/-- A transaction that has replaced a version since its writes were `ws`. -/
def Replaced (H : Hashes) (c : Command) (ws : Tables) (t : Uuid) (m : MemoryRow)
    (o : Option MemoryRow) (F : Side → Prop) (σ : Side) : Prop :=
  ∃ ws', (At H c ws' σ ∧ F σ) ∧ Replacing H ws ws' t m o σ

lemma replaced_stable (hF : Lasting H F) : (setting H).Stable (Replaced H c ws t m o F) :=
  Setting.Stable.exists fun _ => (at_stable.and fun σ σ' _ h hr => hF.rely σ σ' h hr).and
    fun _ _ _ h hr => h.rely hr

lemma replaced_monotone (hF : Lasting H F) : Setting.Monotone (Replaced H c ws t m o F) := by
  rintro σ ls ⟨ws', ⟨hat, hf⟩, h⟩
  exact ⟨ws', ⟨at_monotone σ ls hat, hF.mono _ _ hf rfl (List.subset_append_right _ _)⟩,
    h.mono rfl (List.subset_append_right _ _)⟩

lemma At.written (h : At H c ws σ) {k : Key} {r : Option (Row k)} (ho : Own H (written σ k r)) :
    At H c (⟨k, r⟩ :: ws) (written σ k r) where
  cmd := h.cmd
  since := h.since
  writes := by rw [written_writes, h.writes]
  own := ho

/-- The version is written and the head still to be moved. -/
structure Rewritten (H : Hashes) (c : Command) (ws : Tables) (t : Uuid) (m : MemoryRow)
    (o : Option MemoryRow) (F : Side → Prop) (σ : Side) : Prop where
  at_ : At H c (⟨.memory t, o⟩ :: ws) σ
  handle : H.exclusive (.memoryHandle m.handle) ∈ σ.held
  found : memoryOf (ws ++ σ.db) t = some m
  frame : F σ

lemma rewritten_stable (hF : Lasting H F) : (setting H).Stable (Rewritten H c ws t m o F) where
  own _ hσ := hσ.at_.own
  rely σ σ' hσ hr := ⟨at_stable.rely σ σ' hσ.at_ hr, hr.keeps.2 ▸ hσ.handle,
    (sameVersions_append_rely hr hσ.handle ws t m rfl).1 hσ.found, hF.rely σ σ' hσ.frame hr⟩

lemma rewritten_monotone (hF : Lasting H F) : Setting.Monotone (Rewritten H c ws t m o F) :=
  fun σ ls hσ => ⟨at_monotone σ ls hσ.at_, List.mem_append_right _ hσ.handle, hσ.found,
    hF.mono _ _ hσ.frame rfl (List.subset_append_right _ _)⟩

/-- After the version is written, moving the head completes the replacement. -/
theorem replaceHead_spec (hF : Lasting H F) :
    (setting H).Triple (Rewritten H c ws t m o F) (syncMemoryHead m.handle)
      (fun _ => Replaced H c ws t m o F) X := by
  have hview : ∀ σ, Rewritten H c ws t m o F σ → σ.view = ⟨.memory t, o⟩ :: (ws ++ σ.db) := by
    intro σ hσ
    rw [Local.view, hσ.at_.writes]
    rfl
  have hrows : ∀ σ, Rewritten H c ws t m o F σ →
      ∀ k ∈ List.keys (⟨.memory t, o⟩ :: ws : Tables), Lock.row k ∈ σ.held := by
    intro σ hσ k hk
    exact hσ.at_.own.row k (by rwa [hσ.at_.writes])
  refine syncMemoryHead_spec (rewritten_stable hF) (rewritten_monotone hF) (replaced_stable hF)
    (fun σ hσ => hσ.handle) (fun σ hσ hnone => ?_) fun σ head newest hσ hsome hnew => ?_
  · rw [hview σ hσ, headOf_cons_memory] at hnone
    refine ⟨_, ⟨hσ.at_, hσ.frame⟩, List.suffix_cons _ _, hrows σ hσ, hσ.handle, List.mem_cons_self,
      ⟨hσ.found, ?_, ?_, fun x _ => ?_, ?_⟩, fun owner source k => .inl ?_⟩
    · exact memoryOf_cons_memory ..
    · simp only [store, List.cons_append, headOf_cons_memory, hnone]
      exact .missing
    · exact congrFun (headOf_cons_memory ..) x
    · exact counterOf_cons_memory ..
    · rw [List.cons_append, keyOf_cons_memory]
  · have hown := hσ.at_.own.written_head hσ.handle (newest.map fun t => { head with t := t })
    rw [hview σ hσ] at hsome hnew
    rw [headOf_cons_memory] at hsome
    refine ⟨_, ⟨hσ.at_.written hown, hF.mono _ _ hσ.frame rfl (List.subset_cons_self _ _)⟩,
      (List.suffix_cons _ _).trans (List.suffix_cons _ _), fun k hk => ?_,
      List.mem_cons_of_mem _ hσ.handle, List.mem_cons_of_mem _ List.mem_cons_self,
      ⟨hσ.found, ?_, ?_, fun x hx => ?_, ?_⟩, fun owner source k => .inl ?_⟩
    · rcases List.mem_cons.1 hk with rfl | hk
      · exact List.mem_cons_self
      · exact List.mem_cons_of_mem _ (hrows σ hσ k hk)
    all_goals simp only [store, written_db, List.cons_append, memoryOf_cons_head,
      memoryOf_cons_memory, headOf_cons_head, headOf_cons_memory, counterOf_cons_head,
      counterOf_cons_memory, keyOf_cons_head, keyOf_cons_memory, Function.update_self]
    · rw [hsome]
      rw [memoryOf_cons_memory] at hnew
      exact hnew.synced head
    · exact Function.update_of_ne hx _ _

/-! ### Forget and restore -/

/-- A transaction that has found and locked an owner's version. -/
structure Found (H : Hashes) (c : Command) (owner t : Uuid) (m : MemoryRow) (σ : Side) : Prop where
  at_ : At H c [] σ
  handle : H.exclusive (.memoryHandle m.handle) ∈ σ.held
  row : memoryOf σ.db t = some m
  owner : m.ownerId = owner

lemma found_stable : (setting H).Stable (Found H c owner t m) where
  own _ hσ := hσ.at_.own
  rely σ σ' hσ hr := ⟨at_stable.rely σ σ' hσ.at_ hr, hr.keeps.2 ▸ hσ.handle,
    ((sameSeries_of_rely hr hσ.handle).versions t m rfl).1 hσ.row, hσ.owner⟩

lemma lockForgetFootprint_spec (hreq : c.request = none) (sourceT : Uuid) :
    (setting H).Triple (At H c []) (lockForgetFootprint H sourceT handle)
      (fun _ σ => At H c [] σ ∧ H.exclusive (.memoryHandle handle) ∈ σ.held) (Refused H c) := by
  have hP1 := (@at_stable H c []).held (H.exclusive (.memoryHandle handle))
  have hfail : ∀ {φ : Prop} [Decidable φ] {e : StorageError},
      (setting H).Triple (fun σ => At H c [] σ ∧ H.exclusive (.memoryHandle handle) ∈ σ.held)
        (failIf φ e) (fun _ σ => At H c [] σ ∧ H.exclusive (.memoryHandle handle) ∈ σ.held)
        (Refused H c) := fun {φ _ e} =>
    (Triple.failIf hP1 fun σ _ hσ _ => hσ.1.unkeyed hreq _).post fun _ σ hσ => hσ.1
  refine (Triple.look at_stable).bind fun v => ?_
  refine (lockAdvisoryIds_first .memoryHandle handle _ at_stable at_monotone).bind fun _ => ?_
  refine (Triple.look hP1).bind fun w => hfail.bind fun _ => ?_
  refine (lockAdvisoryIds_keeps .lifecycle _ hP1 (at_monotone.held _)).bind fun _ => ?_
  exact (Triple.look hP1).bind fun _ => hfail

theorem lockOwned_spec (hreq : c.request = none) (owner t : Uuid) :
    (setting H).Triple (At H c []) (lockOwned H owner t) (Found H c owner t) (Refused H c) := by
  have hprobe : (setting H).Triple (At H c []) (probeMemoryHandleForOwner owner t)
      (fun _ => At H c []) (Refused H c) :=
    Triple.passive (passive_view.bind fun _ => passive_pure _) at_stable at_monotone
      fun e σ _ hσ => hσ.unkeyed hreq e
  refine hprobe.bind fun probed => ?_
  cases probed with
  | none => exact Triple.fail at_stable fun σ _ hσ => hσ.unkeyed hreq _
  | some handle =>
    have hP1 := (@at_stable H c []).held (H.exclusive (.memoryHandle handle))
    refine (lockForgetFootprint_spec hreq t).bind fun _ => ?_
    refine (Triple.lockRow hP1 (at_monotone.held _) ((system H).row_conflict _)).bind fun o => ?_
    cases o with
    | none =>
      refine Triple.fail (hP1.and fun _ _ _ _ _ r hr => by cases hr) fun σ _ hσ => ?_
      exact hσ.1.1.unkeyed hreq _
    | some m =>
      -- the row is locked, and with it what it says
      have hrow : (setting H).Stable fun σ => (At H c [] σ ∧
          H.exclusive (.memoryHandle handle) ∈ σ.held) ∧ ∀ r, some m = some r →
          Lock.row (.memory t) ∈ σ.held ∧ memoryOf σ.view t = some r :=
        hP1.found ((system H).row_conflict _) _
      refine (Triple.failIf hrow fun σ _ hσ _ =>
        hσ.1.1.unkeyed hreq _).bind fun _ => ?_
      refine Triple.ret hrow.pure fun σ _ ⟨⟨⟨hat, hl⟩, hm⟩, hcols⟩ => ?_
      rw [not_or, not_not, not_not] at hcols
      exact ⟨hat, hcols.2 ▸ hl, hat.view_eq ▸ (hm m rfl).2, hcols.1⟩

lemma lasting_true : Lasting H fun _ => True := ⟨fun _ _ _ _ => trivial, fun _ _ _ _ _ => trivial⟩

/-- A mark keeps every other column, so the handle lock is enough to write it. -/
lemma Found.mayMark (h : Found H c owner t m σ) (forgotten : Bool) :
    MayWrite H σ t (some { m with forgotten := forgotten }) where
  old m0 hm0 := by
    obtain rfl := Option.mem_unique h.row hm0
    exact ⟨h.handle, fun hne => absurd rfl hne⟩
  new m' hm' := by
    obtain rfl := Option.some.inj hm'
    exact h.handle
  both m0 m' hm0 hm' := by
    obtain rfl := Option.mem_unique h.row hm0
    obtain rfl := Option.some.inj hm'
    exact ⟨rfl, rfl, rfl, fun hne => absurd rfl hne⟩
  added m' key hnone := by simp [h.row] at hnone

lemma Replaced.marks {forgotten : Bool} (howner : m.ownerId = owner) (hf : m.forgotten = !forgotten)
    (h : Replaced H c [] t m (some { m with forgotten := forgotten }) (fun _ => True) σ) :
    σ.cmd = c ∧ Marks (store σ.db) owner t forgotten (store σ.view) := by
  obtain ⟨ws', ⟨hat, -⟩, hr⟩ := h
  have hview : σ.view = ws' ++ σ.db := by rw [Local.view, hat.writes]
  refine ⟨hat.cmd, m, howner, hf, hview ▸ hr.replaces, ?_⟩
  funext o source k
  rcases hr.keys o source k with heq | ⟨hnone, -⟩
  · exact hview ▸ heq
  · cases hnone

theorem markForgotten_spec (forgotten : Bool) :
    (setting H).Triple (Found H c owner t m) (markForgotten t m forgotten)
      (fun _ => Replaced H c [] t m (some { m with forgotten := forgotten }) fun _ => True) X := by
  refine Triple.bind (M := fun _ => Rewritten H c [] t m
    (some { m with forgotten := forgotten }) fun _ => True) ?_
      fun _ => replaceHead_spec lasting_true
  refine Triple.write found_stable (rewritten_stable lasting_true) fun σ _ hσ => ?_
  have hown := hσ.at_.own.written_memory (hσ.mayMark forgotten)
  exact ⟨hσ.at_.written hown, List.mem_cons_of_mem _ hσ.handle, hσ.row, trivial⟩

theorem forgetInLifecycle_spec (owner t : Uuid) (kinds : Option (List MemoryKind)) :
    Meets H (.forget owner t kinds) (forgetInLifecycle H owner t kinds) := by
  refine (lockOwned_spec rfl owner t).bind fun m => ?_
  refine (Triple.failIf found_stable fun σ _ hσ _ =>
    hσ.at_.unkeyed rfl _).bind fun _ => ?_
  refine Triple.of_pure (fun σ hσ => And.intro hσ.1.owner hσ.2) ?_
  rintro ⟨howner, hcond⟩
  have hlive : m.forgotten = !true := by
    rw [not_or] at hcond
    simpa using hcond.1
  refine ((markForgotten_spec true).pre fun σ hσ => hσ.1).bind fun _ => ?_
  refine Triple.ret (replaced_stable lasting_true) fun σ _ hσ => ?_
  obtain ⟨hcmd, hmarks⟩ := hσ.marks howner hlive
  rw [Local.ended, hcmd]
  exact .forgotten hmarks

theorem restoreInLifecycle_spec (owner t : Uuid) (kinds : List MemoryKind) :
    Meets H (.restore owner t kinds) (restoreInLifecycle H owner t kinds) := by
  refine (lockOwned_spec rfl owner t).bind fun m => ?_
  refine (Triple.failIf found_stable fun σ _ hσ _ =>
    hσ.at_.unkeyed rfl _).bind fun _ => ?_
  refine Triple.of_pure (fun σ hσ => hσ.1.owner) fun howner => ?_
  refine Triple.pre ?_ fun σ hσ => hσ.1
  cases hf : m.forgotten with
  | true =>
    have hgone : m.forgotten = !false := hf
    refine (markForgotten_spec false).bind fun _ => ?_
    refine Triple.ret (replaced_stable lasting_true) fun σ _ hσ => ?_
    obtain ⟨hcmd, hmarks⟩ := hσ.marks howner hgone
    rw [Local.ended, hcmd]
    exact .restored hmarks
  | false =>
    refine Triple.ret found_stable fun σ _ hσ => ?_
    rw [Local.ended, hσ.at_.cmd, hσ.at_.view_eq]
    exact .live

/-! ### Erase -/

/-- The transaction has the exclusive fence of the owner. -/
def Sole (H : Hashes) (owner : Uuid) (F : Side → Prop) (σ : Side) : Prop :=
  F σ ∧ H.exclusive (.ownerFence owner) ∈ σ.held

lemma Lasting.sole (hF : Lasting H F) (owner : Uuid) : Lasting H (Sole H owner F) where
  rely σ σ' h hr := ⟨hF.rely σ σ' h.1 hr, hr.keeps.2 ▸ h.2⟩
  mono σ τ h hdb hheld := ⟨hF.mono σ τ h.1 hdb hheld, hheld h.2⟩

lemma at_lasting_stable (hF : Lasting H F) : (setting H).Stable fun σ => At H c ws σ ∧ F σ :=
  at_stable.and fun σ σ' _ h hr => hF.rely σ σ' h hr

lemma at_lasting_monotone (hF : Lasting H F) : Setting.Monotone fun σ => At H c ws σ ∧ F σ :=
  fun σ ls hσ => ⟨at_monotone σ ls hσ.1, hF.mono _ _ hσ.2 rfl (List.subset_append_right _ _)⟩

/-- A version is removed under its handle lock and the fence of its owner. Whatever the
transaction did to the row before, it is of the same series, and it has the fence of the
owner the committed row names. -/
lemma mayErase (ho : Own H σ) (hm : memoryOf σ.view t = some m)
    (hl : H.exclusive (.memoryHandle m.handle) ∈ σ.held)
    (hf : H.exclusive (.ownerFence m.ownerId) ∈ σ.held) : MayWrite H σ t none where
  old m0 hm0 := by
    refine ⟨(ho.columns t m0 m hm0 hm).1 ▸ hl, fun _ => ?_⟩
    by_cases heq : m.ownerId = m0.ownerId
    · exact heq ▸ hf
    · refine ho.ownerGone t m0 hm0 fun hsame => heq ?_
      rw [hm] at hsame
      exact Option.some.inj hsame
  new m' hm' := by cases hm'
  both m0 m' _ hm' := by cases hm'
  added m' key _ hm' := by cases hm'

/-- Receipts are deleted one by one. -/
theorem deleteIngestKeys_spec (hP : (setting H).Stable P) (hm : Setting.Monotone P)
    (hdrop : ∀ σ owner source key, P σ → P (written σ (.ingestKey owner source key) none))
    (asked : Uuid → Uuid → Bool) :
    (setting H).Triple P (deleteIngestKeys asked) (fun _ => P) X := by
  refine (Triple.look hP).bind fun v => ?_
  refine Triple.forM (P := fun _ => P) hP (fun r _ => ?_) _
  refine ((Triple.lockRow hP hm ((system H).row_conflict _)).post fun _ σ hσ => hσ.1).bind
    fun o => ?_
  cases o with
  | none => exact Triple.ret hP fun _ _ hσ => hσ
  | some _ => exact Triple.write hP hP fun σ _ hσ => hdrop σ _ _ _ hσ

lemma Replaced.dropKey (hF : Lasting H F) (h : Replaced H c ws t m none F σ) (owner : Uuid)
    (source : SourceId) (key : String) :
    Replaced H c ws t m none F (written σ (.ingestKey owner source key) none) := by
  obtain ⟨ws', ⟨hat, hf⟩, hr⟩ := h
  exact ⟨_, ⟨hat.written (hat.own.written_key _ _ _ _),
    hF.mono _ _ hf rfl (List.subset_cons_self _ _)⟩, hr.dropKey _ _ _⟩

/-- A version of the owner, seen behind the writes `ws` under its handle lock. -/
structure Targeted (H : Hashes) (c : Command) (ws : Tables) (owner t : Uuid) (m : MemoryRow)
    (F : Side → Prop) (σ : Side) : Prop where
  at_ : At H c ws σ
  frame : Sole H owner F σ
  handle : H.exclusive (.memoryHandle m.handle) ∈ σ.held
  row : memoryOf σ.view t = some m
  owner : m.ownerId = owner

variable {owner : Uuid}

lemma targeted_stable (hF : Lasting H F) : (setting H).Stable (Targeted H c ws owner t m F) where
  own _ hσ := hσ.at_.own
  rely σ σ' hσ hr := by
    refine ⟨at_stable.rely σ σ' hσ.at_ hr, (hF.sole owner).rely σ σ' hσ.frame hr,
      hr.keeps.2 ▸ hσ.handle, ?_, hσ.owner⟩
    rw [Local.view, hr.keeps.1]
    exact (sameVersions_append_rely hr hσ.handle _ t m rfl).1 hσ.row

lemma targeted_monotone (hF : Lasting H F) :
    Setting.Monotone (Targeted H c ws owner t m F) := fun σ ls hσ =>
  ⟨at_monotone σ ls hσ.at_, (hF.sole owner).mono _ _ hσ.frame rfl (List.subset_append_right _ _),
    List.mem_append_right _ hσ.handle, hσ.row, hσ.owner⟩

/-- What the second probe of an erase knows: when it finds the handle that is locked, the
version stands still. -/
def Reprobed (H : Hashes) (c : Command) (ws : Tables) (owner t probed : Uuid) (F : Side → Prop)
    (o : Option Uuid) (σ : Side) : Prop :=
  ((At H c ws σ ∧ Sole H owner F σ) ∧ H.exclusive (.memoryHandle probed) ∈ σ.held) ∧
    (o = some probed → ∃ m, Targeted H c ws owner t m F σ ∧ m.handle = probed)

lemma reprobed_stable {probed : Uuid} (hF : Lasting H F) (o : Option Uuid) :
    (setting H).Stable (Reprobed H c ws owner t probed F o) :=
  ((at_lasting_stable (hF.sole owner)).held _).and fun σ σ' _ h hr ho => by
    obtain ⟨m, hm, hh⟩ := h ho
    exact ⟨m, (targeted_stable hF).rely σ σ' hm hr, hh⟩

lemma reprobe_spec {probed : Uuid} (hF : Lasting H F) :
    (setting H).Triple (fun σ => (At H c ws σ ∧ Sole H owner F σ) ∧
        H.exclusive (.memoryHandle probed) ∈ σ.held)
      (probeMemoryHandleForOwner owner t) (Reprobed H c ws owner t probed F) X := by
  have hP := (@at_lasting_stable H c ws _ (hF.sole owner)).held (H.exclusive (.memoryHandle probed))
  refine (Triple.view (Q := fun v => Reprobed H c ws owner t probed F
    ((ownedMemory v owner t).map (·.handle))) hP (fun v => reprobed_stable hF _)
    fun σ _ hσ => ⟨hσ, fun ho => ?_⟩).bind fun v => ?_
  · obtain ⟨m, hm, hh⟩ := Option.map_eq_some_iff.1 ho
    obtain ⟨hrow, howner⟩ := Option.filter_eq_some_iff.1 hm
    exact ⟨m, ⟨hσ.1.1, hσ.1.2, hh ▸ hσ.2, hrow, by simpa using howner⟩, hh⟩
  · exact Triple.ret (reprobed_stable hF _) fun σ _ hσ => hσ

/-- The erase of a version that is there: the row, the head, the receipts. -/
lemma eraseTarget_spec (hF : Lasting H F) (howner : m.ownerId = owner) :
    (setting H).Triple (Targeted H c ws owner t m F)
      (do
        match ← lockRow (V := Row) (.row (.memory t)) (.memory t) with
        | none => pure ()
        | some m => if m.ownerId = owner then write [⟨.memory t, none⟩]
        syncMemoryHead m.handle
        deleteIngestKeys fun o t' => o = owner ∧ t' = t)
      (fun _ σ => ∃ m, m.ownerId = owner ∧ Replaced H c ws t m none F σ) X := by
  refine (Triple.lockRow_protected (targeted_stable hF)
    (targeted_monotone hF) fun σ hσ => hσ.row).bind fun o => ?_
  refine Triple.of_pure (fun σ hσ => hσ.2) ?_
  rintro rfl
  simp only [howner, if_true]
  refine Triple.bind (M := fun _ => Rewritten H c ws t m none F) ?_ fun _ => ?_
  · refine Triple.write (targeted_stable hF).pure (rewritten_stable hF) fun σ _ hσ => ?_
    obtain ⟨hσ, -⟩ := hσ
    have hown := hσ.at_.own.written_memory
      (mayErase hσ.at_.own hσ.row hσ.handle (howner ▸ hσ.frame.2))
    refine ⟨hσ.at_.written hown, List.mem_cons_of_mem _ hσ.handle, ?_,
      hF.mono _ _ hσ.frame.1 rfl (List.subset_cons_self _ _)⟩
    change memoryOf (ws ++ σ.db) t = some m
    rw [← hσ.at_.writes]
    exact hσ.row
  refine (replaceHead_spec hF).bind fun _ => ?_
  exact (deleteIngestKeys_spec (replaced_stable hF) (replaced_monotone hF)
    (fun σ _ _ _ hσ => hσ.dropKey hF _ _ _) _).post fun _ σ hσ => ⟨m, howner, hσ⟩

theorem eraseMemoryInLifecycle_spec (hreq : c.request = none) (hF : Lasting H F) (owner t : Uuid) :
    (setting H).Triple (fun σ => At H c ws σ ∧ F σ) (eraseMemoryInLifecycle H owner t)
      (fun _ σ => ∃ m, m.ownerId = owner ∧ Replaced H c ws t m none F σ) (Refused H c) := by
  have hsole := hF.sole owner
  have hrefused : ∀ {F : Side → Prop} {e : StorageError} (σ : Side),
      (At H c ws σ ∧ F σ) → Refused H c e σ := fun σ hσ => hσ.1.unkeyed hreq _
  refine Triple.bind (M := fun _ σ => At H c ws σ ∧ Sole H owner F σ) ?_ fun _ => ?_
  · exact (lockAdvisoryIds_spec .ownerFence [owner] (at_lasting_stable hF)
      (at_lasting_monotone hF)).post fun _ σ hσ => ⟨hσ.1.1, hσ.1.2, hσ.2 _ List.mem_cons_self⟩
  refine (Triple.passive (passive_view.bind fun _ => passive_pure _)
    (at_lasting_stable hsole) (at_lasting_monotone hsole) fun e σ _ hσ => hrefused σ hσ).bind
    fun probed => ?_
  cases probed with
  | none => exact Triple.fail (at_lasting_stable hsole) fun σ _ hσ => hrefused σ hσ
  | some probedHandle =>
    have hP1 := (@at_lasting_stable H c ws _ hsole).held (H.exclusive (.memoryHandle probedHandle))
    have hm1 :=
      (@at_lasting_monotone H c ws _ hsole).held (H.exclusive (.memoryHandle probedHandle))
    refine (lockAdvisoryIds_first .memoryHandle probedHandle [] (at_lasting_stable hsole)
      (at_lasting_monotone hsole)).bind fun _ => ?_
    refine (lockAdvisoryIds_keeps .lifecycle [t] hP1 hm1).bind fun _ => ?_
    refine (reprobe_spec hF).bind fun handle => ?_
    have hreprobed := @reprobed_stable H c ws t F owner probedHandle hF
    cases handle with
    | none => exact Triple.fail (hreprobed none) fun σ _ hσ => hrefused σ hσ.1.1
    | some handle =>
      refine (Triple.failIf (hreprobed (some handle)) fun σ _ hσ _ =>
        hrefused σ hσ.1.1).bind fun _ => ?_
      refine Triple.of_pure (fun σ hσ => not_not.1 hσ.2) ?_
      rintro rfl
      refine Triple.pre ?_ fun σ hσ => hσ.1.2 rfl
      refine Triple.of_exists fun m => ?_
      refine Triple.of_pure (fun σ hσ => And.intro hσ.1.owner hσ.2) ?_
      rintro ⟨howner, rfl⟩
      refine Triple.pre ?_ fun σ hσ => hσ.1
      exact eraseTarget_spec hF howner

lemma Replacing.erases (h : Replacing H ws ws' t m none σ) (howner : m.ownerId = owner) :
    Erases owner t (store (ws ++ σ.db)) (store (ws' ++ σ.db)) := by
  refine ⟨m, howner, h.replaces, fun o source k => ?_⟩
  exact (h.keys o source k).imp_right fun hnone => hnone.2

theorem eraseMemory_spec (owner t : Uuid) : Meets H (.erase owner t) (eraseMemory H owner t) := by
  refine ((eraseMemoryInLifecycle_spec rfl lasting_true owner t).pre
    fun σ hσ => ⟨hσ, trivial⟩).bind fun _ => ?_
  refine Triple.of_exists fun m => ?_
  refine Triple.of_pure (fun σ hσ => hσ.1) fun howner => ?_
  refine Triple.pre ?_ fun σ hσ => hσ.2
  refine Triple.ret (replaced_stable lasting_true) fun σ _ hσ => ?_
  obtain ⟨ws', ⟨hat, -⟩, hr⟩ := hσ
  rw [Local.ended, hat.cmd, Local.view, hat.writes]
  exact .erased (hr.erases howner)

/-- The versions an erase of series has removed so far, one after the other. -/
inductive Erasing (H : Hashes) (owner : Uuid) (σ : Side) : Tables → Prop where
  | nil : Erasing H owner σ []
  | step {ws ws' : Tables} {t : Uuid} {m : MemoryRow} (h : Erasing H owner σ ws)
      (howner : m.ownerId = owner) (hr : Replacing H ws ws' t m none σ) : Erasing H owner σ ws'

lemma lasting_erasing (ws : Tables) : Lasting H fun σ => Erasing H owner σ ws where
  rely σ σ' h hr := by
    induction h with
    | nil => exact .nil
    | step _ howner hrep ih => exact .step ih howner (hrep.rely hr)
  mono σ τ h hdb hheld := by
    induction h with
    | nil => exact .nil
    | step _ howner hrep ih => exact .step ih howner (hrep.mono hdb hheld)

lemma Erasing.chain (h : Erasing H owner σ ws) :
    Relation.ReflTransGen (fun s s' => ∃ t, Erases owner t s s') (store σ.db)
      (store (ws ++ σ.db)) := by
  induction h with
  | nil => exact .refl
  | step _ howner hr ih => exact ih.tail ⟨_, hr.erases howner⟩

theorem eraseMemorySeries_spec (owner : Uuid) (ts : List Uuid) :
    Meets H (.eraseSeries owner ts) (eraseMemorySeries H owner ts) := by
  have hdone : ∀ {n : ℕ} {ws : Tables} (σ : Side), At H (.eraseSeries owner ts) ws σ →
      Erasing H owner σ ws → Effect H σ.hist (σ.ended (.ok (.erased n))) σ.view := by
    intro n ws σ hat h
    rw [Local.ended, hat.cmd, Local.view, hat.writes]
    exact .erasedSeries h.chain
  unfold eraseMemorySeries
  split
  · exact Triple.ret at_stable fun σ _ hσ => hdone σ hσ .nil
  have hkeep : ∀ name ids, (setting H).Triple (At H (.eraseSeries owner ts) [])
      (lockAdvisoryIds H name ids) (fun _ => At H (.eraseSeries owner ts) [])
      (Refused H (.eraseSeries owner ts)) := fun name ids =>
    lockAdvisoryIds_keeps name ids at_stable at_monotone
  refine (hkeep _ _).bind fun _ => (Triple.look at_stable).bind fun v => ?_
  refine (hkeep _ _).bind fun _ => (Triple.look at_stable).bind fun w => ?_
  refine (Triple.failIf at_stable fun σ _ hσ _ =>
    hσ.unkeyed rfl _).bind fun _ => ?_
  refine ((hkeep _ _).pre fun σ hσ => hσ.1).bind fun _ => ?_
  -- the loop erases one version after the other, behind the writes made so far
  have hloop : (setting H).Stable fun σ => ∃ ws, At H (.eraseSeries owner ts) ws σ ∧
      Erasing H owner σ ws :=
    Setting.Stable.exists fun ws => at_lasting_stable (lasting_erasing ws)
  refine ((Triple.forM (P := fun _ σ => ∃ ws,
    At H (.eraseSeries owner ts) ws σ ∧ Erasing H owner σ ws) hloop (fun t _ => ?_) _).pre
    fun σ hσ => ⟨[], hσ, .nil⟩).bind fun _ => ?_
  · refine Triple.of_exists fun ws => ?_
    refine (eraseMemoryInLifecycle_spec rfl (lasting_erasing ws) owner t).post ?_
    rintro _ σ ⟨m, howner, ws', ⟨hat, herasing⟩, hr⟩
    exact ⟨ws', hat, .step herasing howner hr⟩
  · refine Triple.ret hloop fun σ _ hσ => ?_
    obtain ⟨ws, hat, h⟩ := hσ
    exact hdone σ hat h

end Proxiima.Memory
