import Proxiima.Memory.Series

/-!
# Natural keys in serial runs

While no admission names its series itself, all versions of a series carry the natural key
of its first one. When moreover no transfer moves a series to an owner that has one of the
same schema and key, at most one series of an owner and schema carries a key.
-/

namespace Proxiima.Memory

open ReadCommitted

/-- The versions of a series carry one natural key. -/
def Store.Uniform (s : Store) : Prop :=
  ∀ t t' m m', s.memory t = some m → s.memory t' = some m' → m.handle = m'.handle →
    m.sidecar = m'.sidecar

/-- The versions of an owner and schema that carry a natural key are of one series. -/
def Store.Unique (s : Store) : Prop :=
  ∀ owner schemaId key t t' m m', s.memory t = some m → s.memory t' = some m' →
    m.carries owner schemaId key → m'.carries owner schemaId key → m.handle = m'.handle

/-- Every version was there before, in the same series, with the same schema and natural key. -/
def Inherits (s s' : Store) : Prop :=
  ∀ t m', s'.memory t = some m' → ∃ m, s.memory t = some m ∧ m'.handle = m.handle ∧
    m'.schemaId = m.schemaId ∧ m'.sidecar = m.sidecar

/-- .. and of the same owner. -/
def InheritsOwned (s s' : Store) : Prop :=
  ∀ t m', s'.memory t = some m' → ∃ m, s.memory t = some m ∧ m'.handle = m.handle ∧
    m'.schemaId = m.schemaId ∧ m'.sidecar = m.sidecar ∧ m'.ownerId = m.ownerId

variable {m : MemoryRow} {owner fromOwner toOwner handle t : Uuid} {schemaId : String}
  {key : SidecarKey}

section Changes

variable {s s' : Store} {t : Uuid}

lemma InheritsOwned.inherits (h : InheritsOwned s s') : Inherits s s' := by
  intro t m' hm'
  obtain ⟨m, hm, h1, h2, h3, -⟩ := h t m' hm'
  exact ⟨m, hm, h1, h2, h3⟩

lemma InheritsOwned.trans {s'' : Store} (h : InheritsOwned s s') (h' : InheritsOwned s' s'') :
    InheritsOwned s s'' := by
  intro t m'' hm''
  obtain ⟨m', hm', h1, h2, h3, h4⟩ := h' t m'' hm''
  obtain ⟨m, hm, g1, g2, g3, g4⟩ := h t m' hm'
  exact ⟨m, hm, h1.trans g1, h2.trans g2, h3.trans g3, h4.trans g4⟩

lemma Replaces.inheritsOwned {o : Option MemoryRow} (h : Replaces s t m o s')
    (ho : ∀ m', o = some m' → m'.handle = m.handle ∧ m'.schemaId = m.schemaId ∧
      m'.sidecar = m.sidecar ∧ m'.ownerId = m.ownerId) : InheritsOwned s s' := by
  intro u m' hm'
  rw [h.memory] at hm'
  by_cases hu : u = t
  · subst hu
    rw [Function.update_self] at hm'
    exact ⟨m, h.found, ho m' hm'⟩
  · rw [Function.update_of_ne hu] at hm'
    exact ⟨m', hm', rfl, rfl, rfl, rfl⟩

lemma Marks.inheritsOwned {forgotten : Bool} (h : Marks s owner t forgotten s') :
    InheritsOwned s s' := by
  obtain ⟨m, -, -, hr, -⟩ := h
  refine hr.inheritsOwned fun m' hm' => ?_
  obtain rfl := Option.some.inj hm'
  exact ⟨rfl, rfl, rfl, rfl⟩

lemma Erases.inheritsOwned (h : Erases owner t s s') : InheritsOwned s s' := by
  obtain ⟨m, -, hr, -⟩ := h
  exact hr.inheritsOwned fun m' hm' => by cases hm'

lemma erasesSeries_inheritsOwned
    (h : Relation.ReflTransGen (fun s s' => ∃ t, Erases owner t s s') s s') :
    InheritsOwned s s' := by
  induction h with
  | refl => exact fun t m hm => ⟨m, hm, rfl, rfl, rfl, rfl⟩
  | tail _ hstep ih =>
    obtain ⟨t, ht⟩ := hstep
    exact ih.trans ht.inheritsOwned

lemma Transfers.inherits (h : Transfers s fromOwner toOwner t handle s') : Inherits s s' := by
  intro u m' hm'
  rw [h.memory] at hm'
  obtain ⟨m, hm, rfl⟩ := Option.map_eq_some_iff.1 hm'
  obtain ⟨h1, -, -, h2, h3⟩ := rehome_handle m handle fromOwner toOwner
  exact ⟨m, hm, h1, h2, h3⟩

lemma Inherits.uniform (h : Inherits s s') (hu : s.Uniform) : s'.Uniform := by
  intro t t' m m' hm hm' hh
  obtain ⟨r, hr, h1, -, h2⟩ := h t m hm
  obtain ⟨r', hr', h3, -, h4⟩ := h t' m' hm'
  rw [h2, h4]
  exact hu t t' r r' hr hr' (h1.symm.trans (hh.trans h3))

lemma InheritsOwned.carries (h : InheritsOwned s s') {m' : MemoryRow} (hm' : s'.memory t = some m')
    (hc : m'.carries owner schemaId key) :
    ∃ m, s.memory t = some m ∧ m.carries owner schemaId key ∧ m'.handle = m.handle := by
  obtain ⟨m, hm, h1, h2, h3, h4⟩ := h t m' hm'
  exact ⟨m, hm, ⟨h4.symm.trans hc.1, h2.symm.trans hc.2.1, h3.symm.trans hc.2.2⟩, h1⟩

lemma InheritsOwned.unique (h : InheritsOwned s s') (hu : s.Unique) : s'.Unique := by
  intro owner schemaId key t t' m m' hm hm' hc hc'
  obtain ⟨r, hr, hrc, h1⟩ := h.carries hm hc
  obtain ⟨r', hr', hrc', h2⟩ := h.carries hm' hc'
  rw [h1, h2]
  exact hu owner schemaId key t t' r r' hr hr' hrc hrc'

end Changes

/-! ### Admissions that look their series up -/

section Admission

variable {H : Hashes} {hist : List Answer} {s s' : Store} {p : Prepared} {position : Option ℕ}
variable {a : MemoryAdmissionDraft}

/-- The versions after an admission: the new one, and those from before. -/
lemma Admits.memory_cases (h : Admits H s p position s') (hm : s'.memory t = some m) :
    (t = p.t ∧ m = p.row) ∨ s.memory t = some m := by
  rw [h.memory] at hm
  by_cases ht : t = p.t
  · subst ht
    rw [Function.update_self] at hm
    exact .inl ⟨rfl, (Option.some.inj hm).symm⟩
  · rw [Function.update_of_ne ht] at hm
    exact .inr hm

/-- A series without a head has no version. -/
lemma Store.Sound.no_version (hs : s.Sound) (hh : s.head handle = none) (hm : s.memory t = some m) :
    m.handle ≠ handle := by
  intro hmh
  obtain ⟨head, hhead, -⟩ := (hs.series handle).rows t m hm hmh
  simp [hh] at hhead

/-- The versions of the series an admission appends to carry its natural key already. -/
lemma Placed.same_sidecar (h : Placed hist s a p) (hplain : Plain hist) (hs : s.Sound)
    (hu : s.Uniform) (hm : s.memory t = some m) (hh : m.handle = p.handle) :
    m.sidecar = p.sidecar := by
  rw [h.sidecar]
  cases hkey : a.naturalKey with
  | none => exact absurd hh (hs.no_version (h.keyless hkey) hm)
  | some key =>
    rcases h.keyed key hkey hplain with ⟨hno, -⟩ | ⟨t', m', hm', hh', hc⟩
    · exact absurd hh (hs.no_version hno hm)
    · exact (hu t t' m m' hm hm' (hh.trans hh'.symm)).trans hc.2.2

lemma Admits.uniform (h : Admits H s p position s') (hp : Placed hist s a p)
    (hplain : Plain hist) (hs : s.Sound) (hu : s.Uniform) : s'.Uniform := by
  intro t t' m m' hm hm' hh
  rcases h.memory_cases hm with ⟨-, rfl⟩ | hm <;> rcases h.memory_cases hm' with ⟨-, rfl⟩ | hm'
  · rfl
  · exact (hp.same_sidecar hplain hs hu hm' hh.symm).symm
  · exact hp.same_sidecar hplain hs hu hm hh
  · exact hu t t' m m' hm hm' hh

/-- The version of an admission and one that carries its key are of one series. -/
lemma Placed.same_handle (h : Placed hist s a p) (hplain : Plain hist) (hu : s.Unique)
    (howner : p.owner = a.owner) (hm : s.memory t = some m) (hc : m.carries owner schemaId key)
    (hp : p.row.carries owner schemaId key) : m.handle = p.handle := by
  obtain ⟨ho, hs, hk⟩ := hp
  have ho : p.owner = owner := ho
  have hs : p.draft.schemaId = schemaId := hs
  have hk : p.sidecar = some key := hk
  rw [h.sidecar] at hk
  obtain ⟨nkey, hn, rfl⟩ := Option.map_eq_some_iff.1 hk
  have hc' : m.carries a.owner a.draft.schemaId nkey.value := by
    rwa [← howner, ← h.schemaId, ho, hs]
  rcases h.keyed nkey hn hplain with ⟨-, hno⟩ | ⟨t', m', hm', hh', hcar⟩
  · exact absurd hc' (hno t m hm)
  · exact (hu _ _ _ t t' m m' hm hm' hc' hcar).trans hh'

lemma Admits.unique (h : Admits H s p position s') (hp : Placed hist s a p)
    (hplain : Plain hist) (howner : p.owner = a.owner) (hu : s.Unique) : s'.Unique := by
  intro owner schemaId key t t' m m' hm hm' hc hc'
  rcases h.memory_cases hm with ⟨-, rfl⟩ | hm <;> rcases h.memory_cases hm' with ⟨-, rfl⟩ | hm'
  · rfl
  · exact (hp.same_handle hplain hu howner hm' hc' hc).symm
  · exact hp.same_handle hplain hu howner hm hc hc'
  · exact hu owner schemaId key t t' m m' hm hm' hc hc'

end Admission

/-! ### Whole runs -/

/-- A transfer that commits brings no second series of a schema and natural key to its
destination. -/
def cleanTransfer (e : Answer) : Bool :=
  match e.cmd, e.result with
  | .transfer _ toOwner t, .ok .done => (memoryOf e.before t).all fun m => (memories e.before).all
      fun p => p.2.ownerId ≠ toOwner ∨ p.2.schemaId ≠ m.schemaId ∨ p.2.sidecar ≠ m.sidecar ∨
        m.sidecar = none
  | _, _ => true

lemma cleanTransfer_iff {e : Answer} (hcmd : e.cmd = .transfer fromOwner toOwner t)
    (hr : e.result = .ok .done) (hm : memoryOf e.before t = some m) :
    cleanTransfer e = true ↔ ∀ t' m' key, memoryOf e.before t' = some m' →
      m'.carries toOwner m.schemaId key → m.sidecar ≠ some key := by
  simp only [cleanTransfer, hcmd, hr, hm, Option.all_some, List.all_eq_true, Prod.forall,
    mem_memories, decide_eq_true_eq]
  constructor
  · rintro h t' m' key hm' ⟨ho, hs, hk⟩ hsame
    rcases h t' m' hm' with hne | hne | hne | hnone
    · exact hne ho
    · exact hne hs
    · exact hne (hk.trans hsame.symm)
    · simp [hnone] at hsame
  · intro h t' m' hm'
    by_contra hno
    simp only [not_or, not_not] at hno
    obtain ⟨ho, hs, hk, hsome⟩ := hno
    obtain ⟨key, hkey⟩ := Option.ne_none_iff_exists'.1 hsome
    exact h t' m' key hm' ⟨ho, hs, hk.trans hkey⟩ hkey

section Runs

variable {H : Hashes} {hist : List Answer} {e : Answer} {db : Tables}

lemma Transfers.unique {s s' : Store} (h : Transfers s fromOwner toOwner t handle s')
    (hm : s.memory t = some m)
    (hclean : ∀ t' m' key, s.memory t' = some m' → m'.carries toOwner m.schemaId key →
      m.sidecar ≠ some key) (hs : s.Sound) (huni : s.Uniform) (hu : s.Unique) : s'.Unique := by
  obtain ⟨m0, hm0, hh0, -⟩ := h.requested
  obtain rfl := Option.mem_unique hm hm0
  obtain ⟨head, hhead, hfrom, -⟩ := h.head
  -- a version that carries a key afterwards was moved, or carried it before
  have hcases : ∀ owner schemaId key u w', s'.memory u = some w' →
      w'.carries owner schemaId key → ∃ w, s.memory u = some w ∧ w'.handle = w.handle ∧
        ((w.handle = handle ∧ owner = toOwner ∧ m.schemaId = schemaId ∧ m.sidecar = some key) ∨
          w.handle ≠ handle ∧ w.carries owner schemaId key) := by
    intro owner schemaId key u w' hw' hc
    rw [h.memory] at hw'
    obtain ⟨w, hw, rfl⟩ := Option.map_eq_some_iff.1 hw'
    obtain ⟨h1, -, -, h2, h3⟩ := rehome_handle w handle fromOwner toOwner
    refine ⟨w, hw, h1, ?_⟩
    by_cases hwh : w.handle = handle
    · left
      obtain ⟨hd, hhd, hown, -, hsch⟩ := (hs.series handle).rows u w hw hwh
      obtain rfl := Option.mem_unique hhead hhd
      obtain ⟨hd', hhd', -, -, hsch'⟩ := (hs.series handle).rows t m hm hh0
      obtain rfl := Option.mem_unique hhead hhd'
      refine ⟨hwh, ?_, ?_, ?_⟩
      · rw [← hc.1, MemoryRow.rehome, if_pos ⟨hwh, hown.trans hfrom⟩]
      · exact hsch'.trans (hsch.symm.trans (h2.symm.trans hc.2.1))
      · exact (huni t u m w hm hw (hh0.trans hwh.symm)).trans (h3.symm.trans hc.2.2)
    · right
      rw [MemoryRow.rehome, if_neg fun h' => hwh h'.1] at hc
      exact ⟨hwh, hc⟩
  intro owner schemaId key u u' w w' hw hw' hc hc'
  obtain ⟨r, hr, h1, hcase⟩ := hcases owner schemaId key u w hw hc
  obtain ⟨r', hr', h2, hcase'⟩ := hcases owner schemaId key u' w' hw' hc'
  rw [h1, h2]
  rcases hcase with ⟨hh, rfl, hsch, hk⟩ | ⟨-, hrc⟩ <;>
    rcases hcase' with ⟨hh', howner', hsch', hk'⟩ | ⟨-, hrc'⟩
  · exact hh.trans hh'.symm
  · exact absurd hk (hclean u' r' key hr' (hsch ▸ hrc'))
  · subst howner'
    exact absurd hk' (hclean u r key hr (hsch' ▸ hrc))
  · exact hu owner schemaId key u u' r r' hr hr' hrc hrc'

lemma plain_cons (h : Plain (e :: hist)) : e.cmd.namesHandle = false ∧ Plain hist :=
  List.forall_mem_cons.1 h

lemma Effect.uniform (h : Effect H hist e db) (hplain : Plain (e :: hist))
    (hs : (store e.before).Sound) (hu : (store e.before).Uniform) : (store db).Uniform := by
  obtain ⟨hcmd, hpast⟩ := plain_cons hplain
  cases h with
  | refused | replayed => exact hu
  | admitted _ _ h _ hplaced =>
    rcases hplaced with hnames | ⟨a, publish, -, -, hp⟩
    · simp [hcmd] at hnames
    · exact h.uniform hp hpast hs hu
  | forgotten h | restored h => exact h.inheritsOwned.inherits.uniform hu
  | live => exact hu
  | erased h => exact h.inheritsOwned.inherits.uniform hu
  | erasedSeries h => exact (erasesSeries_inheritsOwned h).inherits.uniform hu
  | transferred h => exact h.inherits.uniform hu

theorem uniform_of_run (h : Run (Effect H) db hist) (hplain : Plain hist) : (store db).Uniform := by
  induction h with
  | nil => exact fun t t' m m' hm => by simp [store, memoryOf] at hm
  | step hrun hbefore heff ih =>
    subst hbefore
    exact heff.uniform hplain (sound_of_run hrun) (ih (plain_cons hplain).2)

lemma Effect.unique (h : Effect H hist e db) (hplain : Plain (e :: hist))
    (hclean : cleanTransfer e = true) (hs : (store e.before).Sound)
    (huni : (store e.before).Uniform)
    (hu : (store e.before).Unique) : (store db).Unique := by
  obtain ⟨hcmd, hpast⟩ := plain_cons hplain
  cases h with
  | refused | replayed => exact hu
  | admitted howner _ h _ hplaced =>
    rcases hplaced with hnames | ⟨a, publish, rfl, -, hp⟩
    · simp [hcmd] at hnames
    · exact h.unique hp hpast howner hu
  | forgotten h | restored h => exact h.inheritsOwned.unique hu
  | live => exact hu
  | erased h => exact h.inheritsOwned.unique hu
  | erasedSeries h => exact (erasesSeries_inheritsOwned h).unique hu
  | @transferred fromOwner toOwner t handle since db db' h =>
    obtain ⟨m, hm, -, -⟩ := h.requested
    have hiff := cleanTransfer_iff (e := ⟨.transfer fromOwner toOwner t, since, db, .ok .done⟩)
      rfl rfl hm
    exact h.unique hm (hiff.1 hclean) hs huni hu

theorem unique_of_run (h : Run (Effect H) db hist) (hplain : Plain hist)
    (hclean : ∀ e ∈ hist, cleanTransfer e = true) : (store db).Unique := by
  induction h with
  | nil => exact fun _ _ _ t t' m m' hm => by simp [store, memoryOf] at hm
  | step hrun hbefore heff ih =>
    subst hbefore
    have hplain' := (plain_cons hplain).2
    obtain ⟨hc, hclean'⟩ := List.forall_mem_cons.1 hclean
    exact heff.unique hplain hc (sound_of_run hrun) (uniform_of_run hrun hplain')
      (ih hplain' hclean')

/-- With one natural key to a series, the series that have a version with a key are those
whose head has it. -/
lemma mem_ownedHeads_of_version (hs : (store db).Sound) (hu : (store db).Uniform)
    (hm : memoryOf db t = some m) (hc : m.carries owner schemaId key) :
    m.handle ∈ ownedHeads db owner schemaId key := by
  obtain ⟨head, hhead, h1, -, h3⟩ := (hs.series m.handle).rows t m hm rfl
  obtain ⟨r, hr, hrh, -⟩ := (hs.series m.handle).newest head hhead
  obtain ⟨head', hhead', g1, -, g3⟩ := (hs.series m.handle).rows head.t r hr hrh
  obtain rfl := Option.mem_unique hhead hhead'
  refine mem_ownedHeads.2 ⟨head, r, hhead, hr, hrh, ?_, ?_, ?_⟩
  · exact g1.trans (h1.symm.trans hc.1)
  · exact g3.trans (h3.symm.trans hc.2.1)
  · exact (hu head.t t r m hr hm hrh).trans hc.2.2

/-- A transfer that is not clean leaves two series under one natural key. -/
lemma Transfers.collides {s : Tables}
    (h : Transfers (store s) fromOwner toOwner t handle (store db)) (hm : memoryOf s t = some m)
    (hs : (store s).Sound) (hs' : (store db).Sound) (hu : (store db).Uniform) {t' : Uuid}
    {m' : MemoryRow} (hm' : memoryOf s t' = some m') (hc : m'.carries toOwner m.schemaId key)
    (hk : m.sidecar = some key) :
    ∃ x ∈ ownedHeads db toOwner m.schemaId key, ∃ y ∈ ownedHeads db toOwner m.schemaId key,
      x ≠ y := by
  obtain ⟨m0, hm0, hh0, ho0⟩ := h.requested
  obtain rfl := Option.mem_unique hm hm0
  obtain ⟨head, hhead, hfrom, -⟩ := h.head
  have hrow : ∀ u r, memoryOf s u = some r →
      memoryOf db u = some (r.rehome handle fromOwner toOwner) := fun u r hr =>
    (h.memory u).trans (congrArg _ hr)
  -- the destination's series is not the one that moves
  have hapart : m'.handle ≠ handle := by
    intro hh
    obtain ⟨hd, hhd, hown, -⟩ := (hs.series handle).rows t' m' hm' hh
    obtain rfl := Option.mem_unique hhead hhd
    exact h.apart (hfrom.symm.trans (hown.symm.trans hc.1))
  have hmoved : (m.rehome handle fromOwner toOwner).carries toOwner m.schemaId key := by
    rw [MemoryRow.rehome, if_pos ⟨hh0, ho0⟩]
    exact ⟨rfl, rfl, hk⟩
  have hstays : m'.rehome handle fromOwner toOwner = m' := if_neg fun h => hapart h.1
  refine ⟨_, mem_ownedHeads_of_version hs' hu (hrow t m hm) hmoved, m'.handle,
    mem_ownedHeads_of_version hs' hu (hstays ▸ hrow t' m' hm') hc, ?_⟩
  rw [(rehome_handle m handle fromOwner toOwner).1, hh0]
  exact fun heq => hapart heq.symm

end Runs

end Proxiima.Memory
