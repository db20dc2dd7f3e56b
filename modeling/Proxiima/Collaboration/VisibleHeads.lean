import Proxiima.Collaboration.Routes
import Proxiima.Memory.Refinement

/-!
# The heads a caller sees

A caller who reaches a series through Goals sees some of its versions, and the newest of those
stands for the series unless the caller may read a newer head as an owner. So the head a caller
sees is the newest version that caller can see, and no version out of their sight has a say in it.
-/

namespace Proxiima.Collaboration

open ReadCommitted Authz

/-- The tables with the column `memory_head.t`, which no route reads. A version agrees with the
head of its series, and the head is on the newest version that is not forgotten: `memory_align_head`
and `sync_memory_head` see to it. -/
structure Store where
  tables : Tables
  headT : Uuid → Uuid
  aligned : ∀ t m, get tables (.memory t) = some m →
    ∃ h, get tables (.memoryHead m.handle) = some h ∧ h.ownerId = m.ownerId ∧ h.kind = m.kind
  newest : ∀ t m, get tables (.memory t) = some m → m.forgotten = false → t ≤ headT m.handle ∧
    ∃ h, get tables (.memory (headT m.handle)) = some h ∧ h.handle = m.handle ∧ h.forgotten = false

/-- The versions and heads of the tables are columns of those of the memory tables. -/
structure Projects (v : Memory.Tables) (db : Tables) : Prop where
  memory : ∀ t, get db (.memory t) =
    (Memory.memoryOf v t).map fun m => ⟨m.handle, m.ownerId, m.kind, m.forgotten⟩
  head : ∀ handle, (get db (.memoryHead handle)).map (fun h => (h.ownerId, h.kind)) =
    (Memory.headOf v handle).map fun h => (h.ownerId, h.kind)

/-- Every state that admissions, forgets, erases and transfers reach is such a store. -/
def Store.ofReachable {H : Memory.Hashes} {processes : Memory.Processes}
    {s : Memory.Machine} (h : Reachable (Memory.system H) processes s) {db : Tables}
    (hdb : Projects s.db db) : Store where
  tables := db
  headT handle := ((Memory.headOf s.db handle).map (·.t)).getD 0
  aligned t m hm := by
    rw [hdb.memory] at hm
    obtain ⟨r, hr, rfl⟩ := Option.map_eq_some_iff.1 hm
    have hsound := Memory.sound_of_run (Memory.run_of_reachable H h)
    obtain ⟨head, hhead, howner, hkind, -⟩ := (hsound.series r.handle).rows t r hr rfl
    have hcolumns := (hdb.head r.handle).trans (congrArg _ hhead)
    obtain ⟨h', hh', heq⟩ := Option.map_eq_some_iff.1 hcolumns
    obtain ⟨howner', hkind'⟩ := Prod.mk.inj heq
    exact ⟨h', hh', howner'.trans howner.symm, hkind'.trans hkind.symm⟩
  newest t m hm hlive := by
    rw [hdb.memory] at hm
    obtain ⟨r, hr, rfl⟩ := Option.map_eq_some_iff.1 hm
    have hsound := Memory.sound_of_run (Memory.run_of_reachable H h)
    obtain ⟨head, hhead, hle⟩ := (hsound.series r.handle).live_le hr rfl hlive
    obtain ⟨r', hr', hh', hbest⟩ := (hsound.series r.handle).newest head hhead
    have hheadT : ((Memory.headOf s.db r.handle).map (·.t)).getD 0 = head.t :=
      congrArg (fun o => (o.map Memory.Head.t).getD 0) hhead
    rw [hheadT, hdb.memory]
    exact ⟨hle, _, congrArg _ hr', hh', ((hbest t r hr rfl).1 hlive).1⟩

structure VisibleMemory where
  memoryT : Uuid
  memoryHandle : Uuid
  ownerId : Uuid
  deriving DecidableEq

def goalVisibleMemoryIds (db : Tables) (s : Session) : List VisibleMemory :=
  ((goalMemoryReadRoutes db s).map fun r => ⟨r.memoryT, r.memoryHandle, r.ownerId⟩).dedup

/-- `DISTINCT ON (memory_handle)`, by `memory_t DESC`. -/
def distinctOnHandle (rows : List VisibleMemory) : List VisibleMemory :=
  (rows.map (·.memoryHandle)).dedup.filterMap fun handle =>
    (rows.filter fun v => v.memoryHandle = handle).argmax (·.memoryT)

/-- The owners whose memories of this kind the session reads. -/
def Session.readers (s : Session) : Memory.MemoryKind → List Uuid
  | .fact => s.owner
  | .abstraction => s.readAbstraction
  | .perspective => s.readPerspective

/-- The head of the series with its version, if that is live and read by its owner and kind. -/
def Store.readableHead (S : Store) (s : Session) (handle : Uuid) : Option VisibleMemory := do
  let h ← get S.tables (.memoryHead handle)
  let m ← get S.tables (.memory (S.headT handle))
  if m.handle = handle ∧ m.forgotten = false ∧ h.ownerId ∈ s.readers h.kind then
    some ⟨S.headT handle, handle, h.ownerId⟩
  else none

def goalVisibleMemoryHeads (S : Store) (s : Session) : List VisibleMemory :=
  (distinctOnHandle (goalVisibleMemoryIds S.tables s)).filter fun v =>
    !(S.readableHead s v.memoryHandle).any (v.memoryT < ·.memoryT)

/-- The live series heads under the owner policies of `memory_head` and `memory`. -/
def ownerMemoryHeads (S : Store) (s : Session) : List VisibleMemory :=
  (live S.tables).filterMap fun
    | .memoryHead handle => (S.readableHead s handle).filter (·.ownerId ∈ s.owner)
    | _ => none

/-! ### What a caller can see -/

/-- A live version of an owner that the session reads. -/
def Owned (S : Store) (s : Session) (v : VisibleMemory) : Prop :=
  ∃ m, get S.tables (.memory v.memoryT) = some m ∧ m.handle = v.memoryHandle ∧
    m.ownerId = v.ownerId ∧ m.forgotten = false ∧ m.ownerId ∈ s.owner ∧ m.ownerId ∈ s.readers m.kind

/-- The caller sees the version by ownership or by a route. -/
def Sees (S : Store) (s : Session) (v : VisibleMemory) : Prop :=
  Owned S s v ∨ v ∈ goalVisibleMemoryIds S.tables s

/-- The versions of the series that the caller sees. -/
def Store.visible (S : Store) (s : Session) (handle : Uuid) : Set Uuid :=
  { t | ∃ owner, Sees S s ⟨t, handle, owner⟩ }

variable {S S' : Store} {s : Session} {v w : VisibleMemory}

lemma mem_ids {db : Tables} : v ∈ goalVisibleMemoryIds db s ↔
    ∃ r ∈ goalMemoryReadRoutes db s,
      (⟨r.memoryT, r.memoryHandle, r.ownerId⟩ : VisibleMemory) = v := by
  simp [goalVisibleMemoryIds]

lemma Sees.row (h : Sees S s v) : ∃ m, get S.tables (.memory v.memoryT) = some m ∧
    m.handle = v.memoryHandle ∧ m.ownerId = v.ownerId ∧ m.forgotten = false := by
  rcases h with ⟨m, hm, hh, ho, hf, -⟩ | h
  · exact ⟨m, hm, hh, ho, hf⟩
  · obtain ⟨r, hr, rfl⟩ := mem_ids.1 h
    obtain ⟨gh, m, mh, hreached, -⟩ := mem_routes.1 hr
    exact ⟨m, hreached.memory, hreached.handle, hreached.owner, hreached.live⟩

/-- A version that is seen is one row. -/
lemma Sees.ext (h : Sees S s v) (h' : Sees S s w) (ht : v.memoryT = w.memoryT) : v = w := by
  obtain ⟨m, hm, hh, ho, -⟩ := h.row
  obtain ⟨m', hm', hh', ho', -⟩ := h'.row
  rw [ht] at hm
  obtain rfl := Option.mem_unique hm hm'
  cases v
  cases w
  simp_all

lemma Sees.mem_visible (h : Sees S s v) : v.memoryT ∈ S.visible s v.memoryHandle := ⟨v.ownerId, h⟩

lemma Sees.le_headT (h : Sees S s v) : v.memoryT ≤ S.headT v.memoryHandle := by
  obtain ⟨m, hm, hh, -, hf⟩ := h.row
  exact hh ▸ (S.newest _ m hm hf).1

/-! ### The heads -/

/-- Whoever reads a kind of an owner reads its facts. -/
def Session.Nested (s : Session) : Prop := ∀ kind, s.readers kind ⊆ s.owner

lemma readableHead_eq_some (hs : s.Nested) {handle : Uuid} : S.readableHead s handle = some v ↔
    v.memoryHandle = handle ∧ v.memoryT = S.headT handle ∧ Owned S s v := by
  simp only [Store.readableHead, Option.bind_eq_bind, Option.bind_eq_some_iff,
    Option.ite_none_right_eq_some]
  constructor
  · rintro ⟨h, hh, m, hm, ⟨hmh, hf, hread⟩, heq⟩
    obtain rfl := Option.some.inj heq
    obtain ⟨h', hh', howner, hkind⟩ := S.aligned _ m hm
    rw [hmh] at hh'
    obtain rfl := Option.mem_unique hh hh'
    refine ⟨rfl, rfl, m, hm, hmh, howner.symm, hf, ?_⟩
    rw [← howner, ← hkind]
    exact ⟨hs _ hread, hread⟩
  · rintro ⟨rfl, ht, m, hm, hmh, howner, hf, -, hread⟩
    obtain ⟨h, hh, howner', hkind⟩ := S.aligned _ m hm
    rw [hmh] at hh
    refine ⟨h, hh, m, ht ▸ hm, ⟨hmh, hf, by rwa [howner', hkind]⟩, ?_⟩
    cases v
    simp_all

/-- Whoever sees a version as an owner sees the head as an owner. -/
lemma Owned.readableHead (hs : s.Nested) (h : Owned S s v) :
    ∃ w, S.readableHead s v.memoryHandle = some w ∧ w.memoryT = S.headT v.memoryHandle := by
  obtain ⟨m, hm, hh, -, hf, howner, hread⟩ := h
  obtain ⟨-, m', hm', hh', hf'⟩ := S.newest _ m hm hf
  obtain ⟨mh, hmh, howner₁, hkind₁⟩ := S.aligned _ m hm
  obtain ⟨mh', hmh', howner₂, hkind₂⟩ := S.aligned _ m' hm'
  rw [hh'] at hmh'
  obtain rfl := Option.mem_unique hmh hmh'
  rw [hh] at hm' hh'
  refine ⟨⟨S.headT v.memoryHandle, v.memoryHandle, m'.ownerId⟩, (readableHead_eq_some hs).2
    ⟨rfl, rfl, m', hm', hh', rfl, hf', ?_⟩, rfl⟩
  rw [← howner₂, ← hkind₂, howner₁, hkind₁]
  exact ⟨howner, hread⟩

lemma mem_distinctOnHandle {rows : List VisibleMemory} (hrows : ∀ v ∈ rows, ∀ w ∈ rows,
    v.memoryT = w.memoryT → v = w) : v ∈ distinctOnHandle rows ↔
      v ∈ rows ∧ ∀ w ∈ rows, w.memoryHandle = v.memoryHandle → w.memoryT ≤ v.memoryT := by
  simp only [distinctOnHandle, List.mem_filterMap, List.mem_dedup, List.mem_map]
  constructor
  · rintro ⟨_, ⟨u, hu, rfl⟩, hmax⟩
    obtain ⟨hv, hhandle⟩ := List.mem_filter.1 (List.argmax_mem hmax)
    have hhandle : v.memoryHandle = u.memoryHandle := of_decide_eq_true hhandle
    refine ⟨hv, fun w hw hwv => List.le_of_mem_argmax (List.mem_filter.2 ⟨hw, ?_⟩) hmax⟩
    exact decide_eq_true (hwv.trans hhandle)
  · rintro ⟨hv, hmax⟩
    have hmem : v ∈ rows.filter fun w => w.memoryHandle = v.memoryHandle :=
      List.mem_filter.2 ⟨hv, decide_eq_true rfl⟩
    obtain ⟨u, hu⟩ : ∃ u, u ∈ (rows.filter fun w => w.memoryHandle = v.memoryHandle).argmax
        (·.memoryT) :=
      Option.ne_none_iff_exists'.1
        fun hnone => List.ne_nil_of_mem hmem (List.argmax_eq_none.1 hnone)
    obtain ⟨hrow, hhandle⟩ := List.mem_filter.1 (List.argmax_mem hu)
    have hle := List.le_of_mem_argmax hmem hu
    have hge := hmax u hrow (of_decide_eq_true hhandle)
    obtain rfl := hrows u hrow v hv (le_antisymm hge hle)
    exact ⟨_, ⟨u, hv, rfl⟩, hu⟩

/-- The head seen through Goals is the newest version in sight, where a route leads to it. -/
lemma mem_goalVisibleMemoryHeads (hs : s.Nested) : v ∈ goalVisibleMemoryHeads S s ↔
    v ∈ goalVisibleMemoryIds S.tables s ∧ IsGreatest (S.visible s v.memoryHandle) v.memoryT := by
  rw [goalVisibleMemoryHeads, List.mem_filter, mem_distinctOnHandle fun v hv w hw =>
    Sees.ext (S := S) (s := s) (.inr hv) (.inr hw)]
  constructor
  · rintro ⟨⟨hv, hmax⟩, hnewer⟩
    refine ⟨hv, (Sees.mem_visible (.inr hv)), ?_⟩
    rintro t ⟨owner, howned | hrouted⟩
    · -- the head is read as well, and it is not newer than `v`
      obtain ⟨w, hw, hwt⟩ := howned.readableHead hs
      have hle : t ≤ w.memoryT := hwt ▸ Sees.le_headT (.inl howned)
      simp only [hw, Option.any_some, Bool.not_eq_true', decide_eq_false_iff_not, not_lt] at hnewer
      exact hle.trans hnewer
    · exact hmax _ hrouted rfl
  · rintro ⟨hv, -, hmax⟩
    refine ⟨⟨hv, fun w hw hhandle => hmax (hhandle ▸ Sees.mem_visible (.inr hw))⟩, ?_⟩
    rw [Bool.not_eq_true', Option.any_eq_false]
    intro w hw
    obtain ⟨hhandle, -, howned⟩ := (readableHead_eq_some hs).1 hw
    have := hmax (hhandle ▸ Sees.mem_visible (.inl howned))
    simpa using this

lemma mem_ownerMemoryHeads (hs : s.Nested) : v ∈ ownerMemoryHeads S s ↔
    Owned S s v ∧ IsGreatest (S.visible s v.memoryHandle) v.memoryT := by
  have hhead : v ∈ ownerMemoryHeads S s ↔ S.readableHead s v.memoryHandle = some v := by
    simp only [ownerMemoryHeads, List.mem_filterMap]
    constructor
    · rintro ⟨k, -, hk⟩
      cases k with
      | memoryHead handle =>
        obtain ⟨hr, -⟩ := Option.filter_eq_some_iff.1 hk
        rwa [((readableHead_eq_some hs).1 hr).1]
      | _ => cases hk
    · intro hr
      obtain ⟨-, -, m, hm, hh, howner, -, hread, -⟩ := (readableHead_eq_some hs).1 hr
      obtain ⟨h, hget, -⟩ := S.aligned _ m hm
      refine ⟨.memoryHead v.memoryHandle, isSome_of_get (hh ▸ hget), Option.filter_eq_some_iff.2
        ⟨hr, decide_eq_true (howner ▸ hread)⟩⟩
  rw [hhead, readableHead_eq_some hs]
  constructor
  · rintro ⟨-, ht, howned⟩
    refine ⟨howned, Sees.mem_visible (.inl howned), ?_⟩
    rintro t ⟨owner, hsees⟩
    exact ht ▸ hsees.le_headT
  · rintro ⟨howned, -, hmax⟩
    obtain ⟨w, hw, hwt⟩ := howned.readableHead hs
    obtain ⟨hhandle, -, howned'⟩ := (readableHead_eq_some hs).1 hw
    refine ⟨rfl, le_antisymm (Sees.le_headT (.inl howned)) ?_, howned⟩
    rw [← hwt]
    exact hmax (hhandle ▸ Sees.mem_visible (.inl howned'))

lemma nodup_goalVisibleMemoryHeads : ((goalVisibleMemoryHeads S s).map (·.memoryHandle)).Nodup := by
  have hone : ∀ {f : Uuid → Option VisibleMemory}, (∀ handle v, f handle = some v →
      v.memoryHandle = handle) → ∀ {handles : List Uuid}, handles.Nodup →
      ((handles.filterMap f).map (·.memoryHandle)).Nodup := by
    intro f hf handles hnodup
    rw [List.map_filterMap]
    refine hnodup.filterMap fun a b c hc hc' => ?_
    obtain ⟨u, hu, rfl⟩ := Option.map_eq_some_iff.1 hc
    obtain ⟨w, hw, heq⟩ := Option.map_eq_some_iff.1 hc'
    rw [← hf a u hu, ← hf b w hw, heq]
  refine ((List.filter_sublist).map _).nodup (hone (fun handle v hv => ?_) (List.nodup_dedup _))
  exact of_decide_eq_true (List.mem_filter.1 (List.argmax_mem hv)).2

/-! ### Versions out of sight -/

/-- The stores differ only in versions that the session does not see, in their publications, and in
the head rows and bindings of series without any other. -/
structure AlikeFor (s : Session) (S S' : Store) : Prop where
  version : ∀ t, get S'.tables (.memory t) = get S.tables (.memory t) ∨
    ∀ v : VisibleMemory, v.memoryT = t → ¬ Sees S s v ∧ ¬ Sees S' s v
  publication : ∀ goal t, get S'.tables (.goalMemoryPublication goal t) =
    get S.tables (.goalMemoryPublication goal t) ∨
      ∀ v : VisibleMemory, v.memoryT = t → ¬ Sees S s v ∧ ¬ Sees S' s v
  head : ∀ handle, get S'.tables (.memoryHead handle) = get S.tables (.memoryHead handle) ∨
    S.visible s handle = ∅ ∧ S'.visible s handle = ∅
  binding : ∀ goal handle, get S'.tables (.goalWorkBinding goal handle) =
    get S.tables (.goalWorkBinding goal handle) ∨ S.visible s handle = ∅ ∧ S'.visible s handle = ∅
  goalHead : ∀ goal, get S'.tables (.goalHead goal) = get S.tables (.goalHead goal)
  grant : ∀ goal subject, get S'.tables (.goalAccessGrant goal subject) =
    get S.tables (.goalAccessGrant goal subject)

lemma AlikeFor.symm (h : AlikeFor s S S') : AlikeFor s S' S where
  version t := (h.version t).imp Eq.symm fun h v hv => (h v hv).symm
  publication goal t := (h.publication goal t).imp Eq.symm fun h v hv => (h v hv).symm
  head handle := (h.head handle).imp Eq.symm And.symm
  binding goal handle := (h.binding goal handle).imp Eq.symm And.symm
  goalHead goal := (h.goalHead goal).symm
  grant goal subject := (h.grant goal subject).symm

lemma AlikeFor.owned (h : AlikeFor s S S') (hv : Owned S s v) : Owned S' s v := by
  rcases h.version v.memoryT with heq | hunseen
  · obtain ⟨m, hm, hrest⟩ := hv
    exact ⟨m, heq.trans hm, hrest⟩
  · exact absurd (.inl hv) (hunseen v rfl).1

lemma AlikeFor.ids (h : AlikeFor s S S') (hv : v ∈ goalVisibleMemoryIds S.tables s) :
    v ∈ goalVisibleMemoryIds S'.tables s := by
  have hsees : Sees S s v := .inr hv
  have hseries : S.visible s v.memoryHandle ≠ ∅ := (Set.nonempty_of_mem hsees.mem_visible).ne_empty
  obtain ⟨r, hr, rfl⟩ := mem_ids.1 hv
  refine mem_ids.2 ⟨r, route_of_agree hr (h.goalHead _) (h.grant _) ?_ ?_ ?_ ?_, rfl⟩
  · exact (h.publication _ _).resolve_right fun hu => (hu _ rfl).1 hsees
  · exact (h.binding _ _).resolve_right fun hu => hseries hu.1
  · exact (h.version _).resolve_right fun hu => (hu _ rfl).1 hsees
  · exact (h.head _).resolve_right fun hu => hseries hu.1

lemma AlikeFor.visible (h : AlikeFor s S S') (handle : Uuid) :
    S'.visible s handle = S.visible s handle := by
  ext t
  exact ⟨fun ⟨owner, hv⟩ => ⟨owner, hv.imp h.symm.owned h.symm.ids⟩,
    fun ⟨owner, hv⟩ => ⟨owner, hv.imp h.owned h.ids⟩⟩

lemma AlikeFor.ownerMemoryHeads (hs : s.Nested) (h : AlikeFor s S S') :
    v ∈ ownerMemoryHeads S' s ↔ v ∈ ownerMemoryHeads S s := by
  rw [mem_ownerMemoryHeads hs, mem_ownerMemoryHeads hs, h.visible]
  exact and_congr_left fun _ => ⟨h.symm.owned, h.owned⟩

lemma AlikeFor.goalVisibleMemoryHeads (hs : s.Nested) (h : AlikeFor s S S') :
    (goalVisibleMemoryHeads S' s).Perm (goalVisibleMemoryHeads S s) := by
  rw [List.perm_ext_iff_of_nodup nodup_goalVisibleMemoryHeads.of_map
    nodup_goalVisibleMemoryHeads.of_map]
  intro v
  rw [mem_goalVisibleMemoryHeads hs, mem_goalVisibleMemoryHeads hs, h.visible]
  exact and_congr_left fun _ => ⟨h.symm.ids, h.ids⟩

end Proxiima.Collaboration
