import Proxiima.Memory.Serial

/-!
# Series and their heads

In every run of the serial machine a series has a head exactly when it has a version, the
head is its newest live version (or its newest, when none is live), and every version has
the owner, kind and schema of the head. Each change keeps this on its own; the run has it by
induction.
-/

namespace Proxiima.Memory

open ReadCommitted

/-- The head of a series fits its versions. -/
structure Store.SeriesOk (s : Store) (handle : Uuid) : Prop where
  newest : ∀ head, s.head handle = some head → IsNewest s.memory handle head.t
  rows : ∀ t m, s.memory t = some m → m.handle = handle → ∃ head, s.head handle = some head ∧
    m.ownerId = head.ownerId ∧ m.kind = head.kind ∧ m.schemaId = head.schemaId

/-- Every series fits, and every version has a minted id. -/
structure Store.Sound (s : Store) : Prop where
  series : ∀ handle, s.SeriesOk handle
  minted : ∀ t m, s.memory t = some m → IsMinted t

/-- The same versions of a series in two stores. -/
def SameVersions (handle : Uuid) (m m' : Uuid → Option MemoryRow) : Prop :=
  ∀ t r, r.handle = handle → (m t = some r ↔ m' t = some r)

section Frames

variable {handle t : Uuid} {m m' : Uuid → Option MemoryRow} {s s' : Store}

lemma IsNewest.congr (h : SameVersions handle m m') (hn : IsNewest m handle t) :
    IsNewest m' handle t := by
  obtain ⟨r, hr, hh, hbest⟩ := hn
  exact ⟨r, (h t r hh).1 hr, hh, fun t' r' hr' hh' => hbest t' r' ((h t' r' hh').2 hr') hh'⟩

/-- A series whose versions and head are untouched still fits. -/
lemma Store.SeriesOk.congr (h : s.SeriesOk handle) (hv : SameVersions handle s.memory s'.memory)
    (hh : s'.head handle = s.head handle) : s'.SeriesOk handle where
  newest head hhead := (h.newest head (hh ▸ hhead)).congr hv
  rows t m hm hmh := by
    obtain ⟨head, hhead, hcols⟩ := h.rows t m ((hv t m hmh).2 hm) hmh
    exact ⟨head, hh.trans hhead, hcols⟩

/-- Replacing a row of one series by one of the same series leaves the others alone. -/
lemma sameVersions_update {o : Option MemoryRow} {r : MemoryRow} (hr : m t = some r)
    (ho : ∀ r', o = some r' → r'.handle = r.handle) (hne : handle ≠ r.handle) :
    SameVersions handle m (Function.update m t o) := by
  intro u w hw
  by_cases hu : u = t
  · subst hu
    rw [Function.update_self]
    constructor
    · intro h
      obtain rfl := Option.mem_unique hr h
      exact absurd hw.symm hne
    · intro h
      exact absurd ((ho w h).symm.trans hw) hne.symm
  · rw [Function.update_of_ne hu]

end Frames

/-! ### One change at a time -/

section Steps

variable {s s' : Store} {t : Uuid} {m : MemoryRow} {o : Option MemoryRow}

/-- The replaced row stands for the same series. -/
def SameColumns (m : MemoryRow) (o : Option MemoryRow) : Prop :=
  ∀ m', o = some m' → m'.handle = m.handle ∧ m'.ownerId = m.ownerId ∧ m'.kind = m.kind ∧
    m'.schemaId = m.schemaId

lemma Replaces.sound (h : Replaces s t m o s') (ho : SameColumns m o) (hs : s.Sound) :
    s'.Sound := by
  obtain ⟨head, hhead, hcols⟩ := (hs.series m.handle).rows t m h.found rfl
  refine ⟨fun handle => ?_, fun u r hr => ?_⟩
  · by_cases hh : handle = m.handle
    · subst hh
      have hsync := h.head
      rw [hhead] at hsync
      generalize hnew : s'.head m.handle = new at hsync
      cases hsync with
      | gone hno =>
        exact ⟨fun hd hhd => by simp [hnew] at hhd, fun u r hr hrh => absurd hrh (hno u r hr)⟩
      | @moved _ t' hn =>
        refine ⟨fun hd hhd => ?_, fun u r hr hrh => ⟨_, hnew, ?_⟩⟩
        · rw [hnew] at hhd
          obtain rfl := Option.some.inj hhd
          exact hn
        rw [h.memory] at hr
        by_cases hu : u = t
        · subst hu
          rw [Function.update_self] at hr
          obtain ⟨-, h1, h2, h3⟩ := ho r hr
          exact ⟨h1.trans hcols.1, h2.trans hcols.2.1, h3.trans hcols.2.2⟩
        · rw [Function.update_of_ne hu] at hr
          obtain ⟨head', hhead', hcols'⟩ := (hs.series m.handle).rows u r hr hrh
          obtain rfl := Option.mem_unique hhead hhead'
          exact hcols'
    · refine (hs.series handle).congr ?_ (h.otherHeads handle hh)
      rw [h.memory]
      exact sameVersions_update h.found (fun r' hr' => (ho r' hr').1) hh
  · rw [h.memory] at hr
    by_cases hu : u = t
    · subst hu
      exact hs.minted u m h.found
    · rw [Function.update_of_ne hu] at hr
      exact hs.minted u r hr

variable {owner handle : Uuid}

lemma Marks.sound {forgotten : Bool} (h : Marks s owner t forgotten s') (hs : s.Sound) :
    s'.Sound := by
  obtain ⟨m, -, -, hr, -⟩ := h
  refine hr.sound (fun m' hm' => ?_) hs
  obtain rfl := Option.some.inj hm'
  exact ⟨rfl, rfl, rfl, rfl⟩

lemma Erases.sound (h : Erases owner t s s') (hs : s.Sound) : s'.Sound := by
  obtain ⟨m, -, hr, -⟩ := h
  exact hr.sound (fun m' hm' => by cases hm') hs

lemma erasesSeries_sound (h : Relation.ReflTransGen (fun s s' => ∃ t, Erases owner t s s') s s')
    (hs : s.Sound) : s'.Sound := by
  induction h with
  | refl => exact hs
  | tail _ hstep ih =>
    obtain ⟨t, ht⟩ := hstep
    exact ht.sound ih

/-- The live versions of a series are at or below its head. -/
lemma Store.SeriesOk.live_le (h : s.SeriesOk handle) {u : Uuid} {r : MemoryRow}
    (hr : s.memory u = some r) (hrh : r.handle = handle) (hf : r.forgotten = false) :
    ∃ head, s.head handle = some head ∧ u ≤ head.t := by
  obtain ⟨head, hhead, -⟩ := h.rows u r hr hrh
  obtain ⟨_, _, _, hbest⟩ := h.newest head hhead
  exact ⟨head, hhead, ((hbest u r hr hrh).1 hf).2⟩

/-- The head is a version, so it has a minted id. -/
lemma Store.Sound.head_minted (hs : s.Sound) {head : Head} (hhead : s.head handle = some head) :
    IsMinted head.t := by
  obtain ⟨r, hr, -, -⟩ := (hs.series handle).newest head hhead
  exact hs.minted _ r hr

variable {H : Hashes} {position : Option ℕ}

lemma Admits.head_lt {p : Prepared} (h : Admits H s p position s') (hs : s.Sound) {head : Head}
    (hhead : s.head p.handle = some head) : head.t < p.t := by
  have hexp := h.expected
  rw [hhead] at hexp
  exact h.above head.t hexp.symm (hs.head_minted hhead)

lemma Admits.sound {p : Prepared} (h : Admits H s p position s') (hs : s.Sound) : s'.Sound := by
  have hself : s'.memory p.t = some p.row := by rw [h.memory, Function.update_self]
  have hother : ∀ u, u ≠ p.t → s'.memory u = s.memory u := fun u hu => by
    rw [h.memory, Function.update_of_ne hu]
  refine ⟨fun handle => ?_, fun u r hr => ?_⟩
  · by_cases hh : handle = p.handle
    · subst hh
      have hhead : s'.head p.handle = some p.head := by rw [h.head, Function.update_self]
      refine ⟨fun hd hhd => ?_, fun u r hr hrh => ⟨_, hhead, ?_⟩⟩
      · -- the new version is live and above every live one
        obtain rfl := Option.mem_unique hhead hhd
        refine ⟨p.row, hself, rfl, fun u r hr hrh => ⟨fun hf => ⟨rfl, ?_⟩, fun hf => ?_⟩⟩
        · by_cases hu : u = p.t
          · exact hu.le
          · obtain ⟨head, hhd', hle⟩ := (hs.series p.handle).live_le (hother u hu ▸ hr) hrh hf
            exact hle.trans (h.head_lt hs hhd').le
        · exact absurd hf (by simp [Prepared.row])
      · by_cases hu : u = p.t
        · subst hu
          obtain rfl := Option.mem_unique hself hr
          exact ⟨rfl, rfl, rfl⟩
        · obtain ⟨head, hhd', h1, h2, h3⟩ := (hs.series p.handle).rows u r (hother u hu ▸ hr) hrh
          obtain ⟨h4, h5, h6⟩ := h.agrees head hhd'
          exact ⟨h1.trans h6, h2.trans h4, h3.trans h5⟩
    · refine (hs.series handle).congr (fun u w hw => ?_) ?_
      · by_cases hu : u = p.t
        · subst hu
          rw [h.unused, hself]
          constructor
          · intro h'
            cases h'
          · intro h'
            obtain rfl := Option.some.inj h'
            exact absurd hw.symm hh
        · rw [hother u hu]
      · rw [h.head, Function.update_of_ne hh]
  · by_cases hu : u = p.t
    · exact hu ▸ h.minted
    · exact hs.minted u r (hother u hu ▸ hr)

lemma rehome_handle (m : MemoryRow) (handle fromOwner toOwner : Uuid) :
    (m.rehome handle fromOwner toOwner).handle = m.handle ∧
      (m.rehome handle fromOwner toOwner).forgotten = m.forgotten ∧
      (m.rehome handle fromOwner toOwner).kind = m.kind ∧
      (m.rehome handle fromOwner toOwner).schemaId = m.schemaId ∧
      (m.rehome handle fromOwner toOwner).sidecar = m.sidecar := by
  unfold MemoryRow.rehome
  split <;> exact ⟨rfl, rfl, rfl, rfl, rfl⟩

lemma Transfers.sound {fromOwner toOwner : Uuid} (h : Transfers s fromOwner toOwner t handle s')
    (hs : s.Sound) : s'.Sound := by
  obtain ⟨head, hhead, hfrom, hhead'⟩ := h.head
  have hrow : ∀ u r', s'.memory u = some r' → ∃ r, s.memory u = some r ∧
      r' = r.rehome handle fromOwner toOwner := by
    intro u r' hr'
    rw [h.memory] at hr'
    obtain ⟨r, hr, rfl⟩ := Option.map_eq_some_iff.1 hr'
    exact ⟨r, hr, rfl⟩
  refine ⟨fun handle' => ?_, fun u r' hr' => ?_⟩
  · by_cases hh : handle' = handle
    · subst hh
      have hnow : s'.head handle' = some { head with ownerId := toOwner } := by
        rw [hhead', Function.update_self]
      refine ⟨fun hd hhd => ?_, fun u r' hr' hrh => ⟨_, hnow, ?_⟩⟩
      · obtain rfl := Option.mem_unique hnow hhd
        obtain ⟨r, hr, hrh, hbest⟩ := (hs.series handle').newest head hhead
        obtain ⟨h1, h2, -⟩ := rehome_handle r handle' fromOwner toOwner
        refine ⟨_, by rw [h.memory, hr]; rfl, h1.trans hrh, fun u w hw hwh => ?_⟩
        obtain ⟨w, hw', rfl⟩ := hrow u w hw
        obtain ⟨h3, h4, -⟩ := rehome_handle w handle' fromOwner toOwner
        rw [h2, h4]
        exact hbest u w hw' (h3.symm.trans hwh)
      · obtain ⟨r, hr, rfl⟩ := hrow u r' hr'
        obtain ⟨h1, -, h2, h3, -⟩ := rehome_handle r handle' fromOwner toOwner
        obtain ⟨hd, hhd, h4, h5, h6⟩ := (hs.series handle').rows u r hr (h1.symm.trans hrh)
        obtain rfl := Option.mem_unique hhead hhd
        refine ⟨?_, h2.trans h5, h3.trans h6⟩
        rw [MemoryRow.rehome, if_pos ⟨h1.symm.trans hrh, h4.trans hfrom⟩]
    · refine (hs.series handle').congr (fun u w hw => ?_) ?_
      · -- a row of another series is not rehomed
        rw [h.memory]
        constructor
        · intro hu
          rw [hu, Option.map_some, MemoryRow.rehome, if_neg fun hc => hh (hw.symm.trans hc.1)]
        · intro hu
          obtain ⟨r, hr, rfl⟩ := Option.map_eq_some_iff.1 hu
          have hrh := (rehome_handle r handle fromOwner toOwner).1.symm.trans hw
          rw [hr, MemoryRow.rehome, if_neg fun hc => hh (hrh.symm.trans hc.1)]
      · rw [hhead', Function.update_of_ne hh]
  · obtain ⟨r, hr, -⟩ := hrow u r' hr'
    exact hs.minted u r hr

end Steps

/-! ### Whole runs -/

variable {H : Hashes} {hist : List Answer} {e : Answer} {db : Tables}

lemma Effect.sound (h : Effect H hist e db) (hs : (store e.before).Sound) : (store db).Sound := by
  cases h with
  | refused | replayed => exact hs
  | admitted _ _ h | forgotten h | restored h => exact h.sound hs
  | live => exact hs
  | erased h => exact h.sound hs
  | erasedSeries h => exact erasesSeries_sound h hs
  | transferred h => exact h.sound hs

/-- **Heads**: in every run of the serial machine every series fits its head. -/
theorem sound_of_run (h : Run (Effect H) db hist) : (store db).Sound := by
  induction h with
  | nil =>
    refine ⟨fun handle => ⟨fun head hh => ?_, fun t m hm => ?_⟩, fun t m hm => ?_⟩
    · simp [store, headOf] at hh
    · simp [store, memoryOf] at hm
    · simp [store, memoryOf] at hm
  | step _ hbefore heff ih => exact heff.sound (hbefore ▸ ih)

end Proxiima.Memory
