import Proxiima.Memory.Series
import Proxiima.ReadCommitted.Soundness

/-!
# What the locks of a memory transaction protect

A transaction changes the head, the counter or a version of a series only under the lock of
the series handle; it removes a version from an owner, or moves it to one, only under the
exclusive fence of that owner; it adds a version under a natural key only under the lock of
the key, unless its command names the series. `Own` says this of the rows a live transaction
sees and the committed ones, whatever it wrote in between. What a transaction may rely on
follows: under the handle lock a series stands still, under an owner fence the versions of
the owner stay, and under the lock of a natural key no other series takes the key.
-/

namespace Proxiima.Memory

open ReadCommitted

/-- One transaction's side of the memory store. -/
abbrev Side := Local Row Lock StorageError Command Response

abbrev Machine := State Row Lock StorageError Input Processes Command Response

variable (H : Hashes)

structure Own (σ : Side) : Prop where
  row : ∀ k ∈ σ.writes.keys, Lock.row k ∈ σ.held
  head : ∀ h, headOf σ.view h ≠ headOf σ.db h → H.exclusive (.memoryHandle h) ∈ σ.held
  counter : ∀ h, counterOf σ.view h ≠ counterOf σ.db h → H.exclusive (.memoryHandle h) ∈ σ.held
  gone : ∀ t m, memoryOf σ.db t = some m → memoryOf σ.view t ≠ some m →
    H.exclusive (.memoryHandle m.handle) ∈ σ.held
  came : ∀ t m, memoryOf σ.view t = some m → memoryOf σ.db t ≠ some m →
    H.exclusive (.memoryHandle m.handle) ∈ σ.held
  columns : ∀ t m m', memoryOf σ.db t = some m → memoryOf σ.view t = some m' →
    m'.handle = m.handle ∧ m'.schemaId = m.schemaId ∧ m'.sidecar = m.sidecar
  ownerGone : ∀ t m, memoryOf σ.db t = some m →
    (memoryOf σ.view t).map (·.ownerId) ≠ some m.ownerId →
    H.exclusive (.ownerFence m.ownerId) ∈ σ.held
  ownerCame : ∀ t m m', memoryOf σ.db t = some m → memoryOf σ.view t = some m' →
    m'.ownerId ≠ m.ownerId → H.exclusive (.ownerFence m'.ownerId) ∈ σ.held
  natural : ∀ t m key, memoryOf σ.db t = none → memoryOf σ.view t = some m →
    m.sidecar = some key → σ.cmd.namesHandle = false →
    H.exclusive (.naturalSeries m.ownerId m.schemaId key) ∈ σ.held

/-- The memory store with its serial runs as invariant. -/
def setting : Setting Row Lock StorageError Input Processes Command Response where
  toSystem := system H
  inv := Run (Effect H)
  own := Own H

variable {H} {σ σ' : Side}

/-! ### A commit of another transaction -/

/-- The commit of `u`, seen by `σ`, whose locks it does not conflict with. -/
structure Commit (H : Hashes) (σ σ' u : Side) : Prop where
  db : u.db = σ.db
  own : Own H u
  after : σ'.db = u.view
  hist : ∃ result, σ'.hist = u.ended result :: σ.hist
  exclusive : ∀ name, H.exclusive name ∈ u.held → H.exclusive name ∉ σ.held ∧
    H.shared name ∉ σ.held
  rows : ∀ k ∈ u.writes.keys, Lock.row k ∉ σ.held

lemma rely_cases (h : (setting H).Rely σ σ') :
    (σ'.db = σ.db ∧ ∃ e, σ'.hist = e :: σ.hist) ∨ ∃ u, Commit H σ σ' u := by
  cases h with
  | refuse u e hinv hdb hinv' => exact .inl ⟨rfl, _, rfl⟩
  | commit u r hinv hdb hhist hown hrow hcompat hinv' =>
    refine .inr ⟨u, hdb, hown, ?_, ⟨_, rfl⟩, fun name hu => ⟨fun hσ => ?_, fun hσ => ?_⟩,
      fun k hk hσ => ?_⟩
    · rw [Local.view, hdb]
    · simpa [setting, system, Lock.conflict, Hashes.exclusive] using hcompat _ hu _ hσ
    · simpa [setting, system, Lock.conflict, Hashes.exclusive, Hashes.shared] using
        hcompat _ hu _ hσ
    · simpa [setting, system, Lock.conflict] using hcompat _ (hrow k hk) _ hσ

/-! ### A transaction keeps its side -/

variable {k : Key} {t : Uuid}

lemma get_db_of_row (h : (setting H).Rely σ σ') (hl : Lock.row k ∈ σ.held) :
    get σ'.db k = get σ.db k :=
  h.get_db_of_guard hl (fun _ _ hrow hk => hrow k hk) ((system H).row_conflict k)

section

variable (ho : Own H σ) (h : (setting H).Rely σ σ')
include ho h

/-- Either the transaction wrote a row, and then nobody else changes it, or it sees the
committed one. -/
lemma Own.key_cases (k : Key) :
    (get σ'.db k = get σ.db k ∧ get σ'.view k = get σ.view k) ∨ get σ'.view k = get σ'.db k := by
  by_cases hk : k ∈ σ.writes.keys
  · have hdb := get_db_of_row h (ho.row k hk)
    exact .inl ⟨hdb, h.get_view_of_db hdb⟩
  · refine .inr (get_append_of_notMem ?_)
    rwa [h.keeps.1]

/-- How a row the transaction sees relates to the committed one stays, when an untouched row
relates to itself. -/
lemma Own.rel_rely {R : Option (Row k) → Option (Row k) → Prop} (hrefl : ∀ o, R o o)
    (hR : R (get σ.db k) (get σ.view k)) : R (get σ'.db k) (get σ'.view k) := by
  rcases ho.key_cases h k with ⟨h1, h2⟩ | heq
  · rw [h1, h2]
    exact hR
  · rw [heq]
    exact hrefl _

/-- A row the transaction wrote stands still, committed and seen. -/
lemma Own.written_rely (hk : k ∈ σ.writes.keys) :
    get σ'.db k = get σ.db k ∧ get σ'.view k = get σ.view k := by
  have hdb := get_db_of_row h (ho.row k hk)
  exact ⟨hdb, h.get_view_of_db hdb⟩

lemma Own.rely : Own H σ' := by
  have hheld := h.keeps.2
  have hcmd := h.start.1
  refine ⟨?_, ?_, ?_, ?_, ?_, ?_, ?_, ?_, ?_⟩
  · rw [h.keeps.1, hheld]
    exact ho.row
  · intro x hne
    rcases ho.key_cases h (.head x) with ⟨h1, h2⟩ | h1
    · rw [hheld]
      exact ho.head x fun heq => hne (h2.trans (heq.trans h1.symm))
    · exact absurd h1 hne
  · intro x hne
    rcases ho.key_cases h (.counter x) with ⟨h1, h2⟩ | h1
    · rw [hheld]
      exact ho.counter x fun heq => hne (h2.trans (heq.trans h1.symm))
    · exact absurd h1 hne
  · intro t m hm hne
    rcases ho.key_cases h (.memory t) with ⟨h1, h2⟩ | h1
    · rw [hheld]
      exact ho.gone t m (h1.symm.trans hm) fun heq => hne (h2.trans heq)
    · exact absurd (h1.trans hm) hne
  · intro t m hm hne
    rcases ho.key_cases h (.memory t) with ⟨h1, h2⟩ | h1
    · rw [hheld]
      exact ho.came t m (h2.symm.trans hm) fun heq => hne (h1.trans heq)
    · exact absurd (h1.symm.trans hm) hne
  · intro t m m' hm hm'
    rcases ho.key_cases h (.memory t) with ⟨h1, h2⟩ | h1
    · exact ho.columns t m m' (h1.symm.trans hm) (h2.symm.trans hm')
    · obtain rfl := Option.some.inj (hm'.symm.trans (h1.trans hm))
      exact ⟨rfl, rfl, rfl⟩
  · intro t m hm hne
    rcases ho.key_cases h (.memory t) with ⟨h1, h2⟩ | h1
    · rw [hheld]
      exact ho.ownerGone t m (h1.symm.trans hm) fun heq =>
        hne ((congrArg (Option.map (·.ownerId)) h2).trans heq)
    · exact absurd (congrArg (Option.map (·.ownerId)) (h1.trans hm)) hne
  · intro t m m' hm hm' hne
    rcases ho.key_cases h (.memory t) with ⟨h1, h2⟩ | h1
    · rw [hheld]
      exact ho.ownerCame t m m' (h1.symm.trans hm) (h2.symm.trans hm') hne
    · obtain rfl := Option.some.inj (hm'.symm.trans (h1.trans hm))
      exact absurd rfl hne
  · intro t m key hm hm' hs hn
    rcases ho.key_cases h (.memory t) with ⟨h1, h2⟩ | h1
    · rw [hheld]
      exact ho.natural t m key (h1.symm.trans hm) (h2.symm.trans hm') hs (hcmd ▸ hn)
    · have := hm'.symm.trans (h1.trans hm)
      cases this

end

lemma Own.acquire (ho : Own H σ) (ls : List Lock) : Own H (σ.acquire ls) where
  row k hk := List.mem_append_right _ (ho.row k hk)
  head h hne := List.mem_append_right _ (ho.head h hne)
  counter h hne := List.mem_append_right _ (ho.counter h hne)
  gone t m hm hne := List.mem_append_right _ (ho.gone t m hm hne)
  came t m hm hne := List.mem_append_right _ (ho.came t m hm hne)
  columns := ho.columns
  ownerGone t m hm hne := List.mem_append_right _ (ho.ownerGone t m hm hne)
  ownerCame t m m' hm hm' hne := List.mem_append_right _ (ho.ownerCame t m m' hm hm' hne)
  natural t m key hm hm' hs hn := List.mem_append_right _ (ho.natural t m key hm hm' hs hn)

/-- A transaction that wrote nothing. -/
lemma own_of_no_writes (hw : σ.writes = []) : Own H σ := by
  have hv : σ.view = σ.db := by simp [Local.view, hw]
  refine ⟨by simp [hw, List.keys], ?_, ?_, ?_, ?_, ?_, ?_, ?_, ?_⟩
  all_goals rw [hv]
  · exact fun h hne => absurd rfl hne
  · exact fun h hne => absurd rfl hne
  · exact fun t m hm hne => absurd hm hne
  · exact fun t m hm hne => absurd hm hne
  · intro t m m' hm hm'
    obtain rfl := Option.mem_unique hm hm'
    exact ⟨rfl, rfl, rfl⟩
  · exact fun t m hm hne => absurd (by rw [hm]; rfl) hne
  · intro t m m' hm hm' hne
    obtain rfl := Option.mem_unique hm hm'
    exact absurd rfl hne
  · intro t m key hm hm'
    rw [hm] at hm'
    cases hm'

/-! ### Writing one row -/

/-- A transaction after it wrote one row. -/
def written (σ : Side) (k : Key) (o : Option (Row k)) : Side :=
  (σ.acquire [Lock.row k]).put [⟨k, o⟩]

section Written

variable (σ) (k : Key) (o : Option (Row k))

@[simp] lemma written_view : (written σ k o).view = ⟨k, o⟩ :: σ.view := rfl

@[simp] lemma written_db : (written σ k o).db = σ.db := rfl

@[simp] lemma written_writes : (written σ k o).writes = ⟨k, o⟩ :: σ.writes := rfl

end Written

variable {o : Option (Row k)}

lemma Own.written_row (ho : Own H σ) :
    ∀ k' ∈ (written σ k o).writes.keys, Lock.row k' ∈ (written σ k o).held := by
  intro k' hk'
  rcases List.mem_cons.1 hk' with rfl | hk'
  · exact List.mem_cons_self
  · exact List.mem_cons_of_mem _ (ho.row k' hk')

/-- A write outside `memory` under the lock of the handle it belongs to. -/
lemma Own.written_other (ho : Own H σ)
    (hhead : ∀ h, headOf (⟨k, o⟩ :: σ.view) h = headOf σ.view h ∨
      H.exclusive (.memoryHandle h) ∈ σ.held)
    (hcounter : ∀ h, counterOf (⟨k, o⟩ :: σ.view) h = counterOf σ.view h ∨
      H.exclusive (.memoryHandle h) ∈ σ.held) (hmem : memoryOf (⟨k, o⟩ :: σ.view) = memoryOf σ.view)
    : Own H (written σ k o) := by
  have hup : ∀ {l : Lock}, l ∈ σ.held → l ∈ (written σ k o).held := List.mem_cons_of_mem _
  refine ⟨ho.written_row, ?_, ?_, ?_, ?_, ?_, ?_, ?_, ?_⟩
  · intro h hne
    rcases hhead h with heq | hl
    · exact hup (ho.head h fun h' => hne (heq.trans h'))
    · exact hup hl
  · intro h hne
    rcases hcounter h with heq | hl
    · exact hup (ho.counter h fun h' => hne (heq.trans h'))
    · exact hup hl
  all_goals rw [written_view, written_db, hmem]
  · exact fun t m hm hne => hup (ho.gone t m hm hne)
  · exact fun t m hm hne => hup (ho.came t m hm hne)
  · exact ho.columns
  · exact fun t m hm hne => hup (ho.ownerGone t m hm hne)
  · exact fun t m m' hm hm' hne => hup (ho.ownerCame t m m' hm hm' hne)
  · exact fun t m key hm hm' hs hn => hup (ho.natural t m key hm hm' hs hn)

lemma Own.written_head (ho : Own H σ) {h : Uuid} (hl : H.exclusive (.memoryHandle h) ∈ σ.held)
    (o : Option Head) : Own H (written σ (.head h) o) := by
  refine ho.written_other (fun x => ?_) (fun x => .inl (by simp)) (by simp)
  by_cases hx : x = h
  · exact .inr (hx ▸ hl)
  · exact .inl (by simp [Function.update_of_ne hx])

lemma Own.written_counter (ho : Own H σ) {h : Uuid} (hl : H.exclusive (.memoryHandle h) ∈ σ.held)
    (o : Option Counter) : Own H (written σ (.counter h) o) := by
  refine ho.written_other (fun x => .inl (by simp)) (fun x => ?_) (by simp)
  by_cases hx : x = h
  · exact .inr (hx ▸ hl)
  · exact .inl (by simp [Function.update_of_ne hx])

lemma Own.written_key (ho : Own H σ) (owner : Uuid) (source : SourceId) (key : String)
    (o : Option Uuid) : Own H (written σ (.ingestKey owner source key) o) :=
  ho.written_other (fun x => .inl (by simp)) (fun x => .inl (by simp)) (by simp)

/-- What a write of a version needs: the handle lock, the owner fences when it changes hands
or goes, and the lock of its natural key when it is new. -/
structure MayWrite (H : Hashes) (σ : Side) (t : Uuid) (o : Option MemoryRow) : Prop where
  old : ∀ m, memoryOf σ.db t = some m → H.exclusive (.memoryHandle m.handle) ∈ σ.held ∧
    (o.map (·.ownerId) ≠ some m.ownerId → H.exclusive (.ownerFence m.ownerId) ∈ σ.held)
  new : ∀ m', o = some m' → H.exclusive (.memoryHandle m'.handle) ∈ σ.held
  both : ∀ m m', memoryOf σ.db t = some m → o = some m' →
    m'.handle = m.handle ∧ m'.schemaId = m.schemaId ∧ m'.sidecar = m.sidecar ∧
      (m'.ownerId ≠ m.ownerId → H.exclusive (.ownerFence m'.ownerId) ∈ σ.held)
  added : ∀ m' key, memoryOf σ.db t = none → o = some m' → m'.sidecar = some key →
    σ.cmd.namesHandle = false →
    H.exclusive (.naturalSeries m'.ownerId m'.schemaId key) ∈ σ.held

lemma Own.written_memory (ho : Own H σ) {o : Option MemoryRow} (hw : MayWrite H σ t o) :
    Own H (written σ (.memory t) o) := by
  have hup : ∀ {l : Lock}, l ∈ σ.held → l ∈ (written σ (.memory t) o).held :=
    List.mem_cons_of_mem _
  have hself : memoryOf (written σ (.memory t) o).view t = o := by simp
  have hother : ∀ u, u ≠ t → memoryOf (written σ (.memory t) o).view u = memoryOf σ.view u :=
    fun u hu => by simp [Function.update_of_ne hu]
  refine ⟨ho.written_row, ?_, ?_, ?_, ?_, ?_, ?_, ?_, ?_⟩
  · intro h hne
    exact hup (ho.head h (by simpa using hne))
  · intro h hne
    exact hup (ho.counter h (by simpa using hne))
  · intro u m hm hne
    by_cases hu : u = t
    · subst hu
      exact hup (hw.old m hm).1
    · exact hup (ho.gone u m hm (hother u hu ▸ hne))
  · intro u m hm hne
    by_cases hu : u = t
    · subst hu
      exact hup (hw.new m (hself.symm.trans hm))
    · exact hup (ho.came u m (hother u hu ▸ hm) hne)
  · intro u m m' hm hm'
    by_cases hu : u = t
    · subst hu
      obtain ⟨h1, h2, h3, -⟩ := hw.both m m' hm (hself.symm.trans hm')
      exact ⟨h1, h2, h3⟩
    · exact ho.columns u m m' hm (hother u hu ▸ hm')
  · intro u m hm hne
    by_cases hu : u = t
    · subst hu
      rw [hself] at hne
      exact hup ((hw.old m hm).2 hne)
    · exact hup (ho.ownerGone u m hm (hother u hu ▸ hne))
  · intro u m m' hm hm' hne
    by_cases hu : u = t
    · subst hu
      exact hup ((hw.both m m' hm (hself.symm.trans hm')).2.2.2 hne)
    · exact hup (ho.ownerCame u m m' hm (hother u hu ▸ hm') hne)
  · intro u m key hm hm' hs hn
    by_cases hu : u = t
    · subst hu
      exact hup (hw.added m key hm (hself.symm.trans hm') hs hn)
    · exact hup (ho.natural u m key hm (hother u hu ▸ hm') hs hn)

/-! ### What stands still -/

/-- The rows of one series are the same in two logs. -/
structure SameSeries (handle : Uuid) (v v' : Tables) : Prop where
  head : headOf v' handle = headOf v handle
  counter : counterOf v' handle = counterOf v handle
  versions : SameVersions handle (memoryOf v) (memoryOf v')

lemma SameSeries.refl (handle : Uuid) (v : Tables) : SameSeries handle v v :=
  ⟨rfl, rfl, fun _ _ _ => Iff.rfl⟩

/-- Under the handle lock a series stands still. -/
lemma sameSeries_of_rely (h : (setting H).Rely σ σ') {handle : Uuid}
    (hl : H.exclusive (.memoryHandle handle) ∈ σ.held) : SameSeries handle σ.db σ'.db := by
  obtain ⟨hdb, -⟩ | ⟨u, hu⟩ := rely_cases h
  · rw [hdb]
    exact .refl _ _
  have hno : H.exclusive (.memoryHandle handle) ∉ u.held := fun hu' => (hu.exclusive _ hu').1 hl
  rw [hu.after, ← hu.db]
  refine ⟨?_, ?_, fun t r hr => ⟨fun hm => ?_, fun hm => ?_⟩⟩
  · by_contra hne
    exact hno (hu.own.head handle hne)
  · by_contra hne
    exact hno (hu.own.counter handle hne)
  · by_contra hne
    exact hno (hr ▸ hu.own.gone t r hm hne)
  · by_contra hne
    exact hno (hr ▸ hu.own.came t r hm hne)

/-- The transaction has an owner's fence, in either mode. -/
def Fenced (H : Hashes) (owner : Uuid) (σ : Side) : Prop :=
  H.shared (.ownerFence owner) ∈ σ.held ∨ H.exclusive (.ownerFence owner) ∈ σ.held

/-- Under an owner's fence no other transaction takes a version from the owner. -/
lemma version_of_fenced (h : (setting H).Rely σ σ') {owner : Uuid} (hf : Fenced H owner σ)
    {m : MemoryRow} (hm : memoryOf σ.db t = some m) (ho : m.ownerId = owner) :
    ∃ m', memoryOf σ'.db t = some m' ∧ m'.ownerId = owner ∧ m'.handle = m.handle ∧
      m'.schemaId = m.schemaId ∧ m'.sidecar = m.sidecar := by
  obtain ⟨hdb, -⟩ | ⟨u, hu⟩ := rely_cases h
  · exact ⟨m, hdb ▸ hm, ho, rfl, rfl, rfl⟩
  have hm0 : memoryOf u.db t = some m := hu.db ▸ hm
  have hstays : (memoryOf u.view t).map (·.ownerId) = some m.ownerId := by
    by_contra hne
    have hx := hu.exclusive _ (hu.own.ownerGone t m hm0 hne)
    rw [ho] at hx
    exact hf.elim hx.2 hx.1
  obtain ⟨m', hm', hown⟩ := Option.map_eq_some_iff.1 hstays
  obtain ⟨h1, h2, h3⟩ := hu.own.columns t m m' hm0 hm'
  exact ⟨m', hu.after ▸ hm', hown.trans ho, h1, h2, h3⟩

/-- A version carries a natural key for its owner and schema. -/
def Carried (v : Tables) (owner : Uuid) (schemaId : String) (key : SidecarKey) (t : Uuid) : Prop :=
  ∃ m, memoryOf v t = some m ∧ m.carries owner schemaId key

/-- Under the owner's fence and the lock of a natural key, only a transaction whose command
names its series brings a new version of the key. -/
lemma carried_of_natural (h : (setting H).Rely σ σ') {owner : Uuid} (hf : Fenced H owner σ)
    {schemaId : String} {key : SidecarKey}
    (hn : H.exclusive (.naturalSeries owner schemaId key) ∈ σ.held) (hplain : Plain σ'.hist)
    (hc : Carried σ'.db owner schemaId key t) : Carried σ.db owner schemaId key t := by
  obtain ⟨m', hm', ho, hs, hk⟩ := hc
  obtain ⟨hdb, -⟩ | ⟨u, hu⟩ := rely_cases h
  · exact ⟨m', hdb ▸ hm', ho, hs, hk⟩
  rw [hu.after] at hm'
  obtain ⟨result, hhist⟩ := hu.hist
  have hcmd : u.cmd.namesHandle = false := hplain _ (hhist ▸ List.mem_cons_self)
  cases hm : memoryOf u.db t with
  | none =>
    have := hu.own.natural t m' key hm hm' hk hcmd
    rw [ho, hs] at this
    exact absurd hn (hu.exclusive _ this).1
  | some m =>
    obtain ⟨h1, h2, h3⟩ := hu.own.columns t m m' hm hm'
    refine ⟨m, hu.db ▸ hm, ?_, h2.symm.trans hs, h3.symm.trans hk⟩
    by_contra hne
    have := hu.exclusive _ (hu.own.ownerCame t m m' hm hm' fun heq => hne (heq.symm.trans ho))
    rw [ho] at this
    exact hf.elim this.2 this.1

end Proxiima.Memory
