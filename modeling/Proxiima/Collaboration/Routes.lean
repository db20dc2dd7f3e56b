import Proxiima.Collaboration.Tables

/-!
# What opens a route

A session reaches a version of a series through a Goal when it belongs to the Goal's audience
up to the version's kind, and a publication of the version or a work binding of its series was
recorded for the Goal under the owners and generations there are.
-/

namespace Proxiima.Collaboration

open ReadCommitted Authz

/-- The session enters the audience of the Goal up to this ceiling: by a grant, or by a role
on its owner. -/
def Enters (db : Tables) (s : Session) (goal : Uuid) (gh : GoalHead) (ceiling : ℕ) : Prop :=
  (∃ subject a, s.goalSubject = some subject ∧ get db (.goalAccessGrant goal subject) = some a ∧
    a.controllerGeneration = gh.authorityGeneration ∧ a.unexpired s.now = true ∧
    ceiling = a.role.read.rank) ∨
  (s.goalSubject ≠ none ∧ gh.ownerId ∈ s.owner ∧ ceiling = s.ceiling gh.ownerId)

/-- The version is published to the Goal under the owner and generations there are. -/
def Published (db : Tables) (goal t : Uuid) (gh : GoalHead) (mh : MemoryHead) : Prop :=
  ∃ p, get db (.goalMemoryPublication goal t) = some p ∧
    p.controllerGeneration = gh.authorityGeneration ∧ p.sourceOwner = mh.ownerId ∧
    p.sourceGeneration = mh.authorityGeneration

/-- The series is bound to the Goal as work under the owner and generations there are. -/
def Working (db : Tables) (goal handle : Uuid) (gh : GoalHead) (mh : MemoryHead) : Prop :=
  ∃ w, get db (.goalWorkBinding goal handle) = some w ∧
    w.controllerGeneration = gh.authorityGeneration ∧ w.sourceOwner = gh.ownerId ∧
    w.sourceOwner = mh.ownerId ∧ w.sourceGeneration = mh.authorityGeneration

/-- A version of the series that a route can lead to. -/
structure Reached (db : Tables) (r : Route) (gh : GoalHead) (m : MemoryRow) (mh : MemoryHead) :
    Prop where
  goal : get db (.goalHead r.goalHandle) = some gh
  controller : gh.ownerId = r.controllerOwner
  memory : get db (.memory r.memoryT) = some m
  handle : m.handle = r.memoryHandle
  owner : m.ownerId = r.ownerId
  head : get db (.memoryHead r.memoryHandle) = some mh
  current : mh.ownerId = m.ownerId
  live : m.forgotten = false

variable {db db' : Tables} {s : Session} {a : Audience} {r : Route}

/-! ### Audiences -/

lemma isSome_of_get {k : Key} {x : Row k} (h : get db k = some x) : k ∈ live db := by
  rw [mem_live, h]
  rfl

lemma mem_audienceRoutes : a ∈ audienceRoutes db s ↔
    ∃ gh, get db (.goalHead a.goalHandle) = some gh ∧ gh.ownerId = a.ownerId ∧
      gh.authorityGeneration = a.authorityGeneration ∧
        Enters db s a.goalHandle gh a.readCeiling := by
  obtain ⟨goal, ceiling, owner, generation⟩ := a
  simp only [audienceRoutes, List.mem_filterMap]
  constructor
  · rintro ⟨k, -, hk⟩
    cases k with
    | goalAccessGrant goal' subject =>
      simp only [Option.bind_eq_bind, Option.bind_eq_some_iff] at hk
      obtain ⟨a, ha, h, hh, hif⟩ := hk
      obtain ⟨⟨hgen, hsub, hexp⟩, heq⟩ := Option.ite_none_right_eq_some.1 hif
      obtain ⟨rfl, rfl, rfl, rfl⟩ := Audience.mk.inj (Option.some.inj heq)
      exact ⟨h, hh, rfl, rfl, .inl ⟨subject, a, hsub, ha, hgen.symm, hexp, rfl⟩⟩
    | goalHead handle =>
      simp only [Option.bind_eq_bind, Option.bind_eq_some_iff] at hk
      obtain ⟨h, hh, hif⟩ := hk
      obtain ⟨⟨hsub, hown⟩, heq⟩ := Option.ite_none_right_eq_some.1 hif
      obtain ⟨rfl, rfl, rfl, rfl⟩ := Audience.mk.inj (Option.some.inj heq)
      exact ⟨h, hh, rfl, rfl, .inr ⟨hsub, hown, rfl⟩⟩
    | _ => cases hk
  · rintro ⟨gh, hgh, rfl, rfl, ⟨subject, a, hsub, ha, hgen, hexp, rfl⟩ | ⟨hsub, hown, rfl⟩⟩
    · refine ⟨.goalAccessGrant goal subject, isSome_of_get ha, ?_⟩
      have hgh' : get db (.goalHead goal) = some gh := hgh
      simp [ha, hgh', hgen, hsub, hexp]
    · refine ⟨.goalHead goal, isSome_of_get hgh, ?_⟩
      have hgh' : get db (.goalHead goal) = some gh := hgh
      simp [hgh', hsub, hown]

lemma le_foldr_max {n : ℕ} {ns : List ℕ} (hn : 0 < n) : n ≤ ns.foldr max 0 ↔ ∃ m ∈ ns, n ≤ m := by
  induction ns with
  | nil => simp; omega
  | cons m ns ih =>
    rw [List.foldr_cons, le_max_iff, ih]
    simp

/-- An audience reaches as far as the highest of its ways in. -/
lemma exists_audience {n : ℕ} (hn : 0 < n) {goal owner : Uuid} {generation : ℕ} :
    (∃ a ∈ audience db s, a.goalHandle = goal ∧ a.ownerId = owner ∧
      a.authorityGeneration = generation ∧ n ≤ a.readCeiling) ↔
    ∃ a ∈ audienceRoutes db s, a.goalHandle = goal ∧ a.ownerId = owner ∧
      a.authorityGeneration = generation ∧ n ≤ a.readCeiling := by
  simp only [audience, List.mem_dedup, List.mem_map]
  constructor
  · rintro ⟨_, ⟨a, ha, rfl⟩, rfl, rfl, rfl, hle⟩
    obtain ⟨m, hm, hnm⟩ := (le_foldr_max hn).1 hle
    obtain ⟨b, hb, rfl⟩ := List.mem_map.1 hm
    obtain ⟨hb, hsame⟩ := List.mem_filter.1 hb
    obtain ⟨h₁, h₂, h₃⟩ := of_decide_eq_true hsame
    exact ⟨b, hb, h₁, h₂, h₃, hnm⟩
  · rintro ⟨a, ha, rfl, rfl, rfl, hle⟩
    refine ⟨_, ⟨a, ha, rfl⟩, rfl, rfl, rfl, (le_foldr_max hn).2 ⟨_, ?_, hle⟩⟩
    exact List.mem_map_of_mem (List.mem_filter.2 ⟨ha, by simp⟩)

/-! ### Routes -/

lemma rank_access_pos (kind : Memory.MemoryKind) : 0 < (access kind).rank := by
  cases kind <;> decide

lemma mem_published : r ∈ published db a ↔
    ∃ p m mh, get db (.goalMemoryPublication a.goalHandle r.memoryT) = some p ∧
      get db (.memory r.memoryT) = some m ∧ get db (.memoryHead m.handle) = some mh ∧
      (p.controllerGeneration = a.authorityGeneration ∧ m.ownerId = p.sourceOwner ∧
        mh.ownerId = m.ownerId ∧ mh.authorityGeneration = p.sourceGeneration ∧
        m.forgotten = false ∧ (access m.kind).rank ≤ a.readCeiling) ∧
      r = ⟨r.memoryT, m.handle, m.ownerId, a.goalHandle, a.ownerId⟩ := by
  simp only [published, List.mem_filterMap]
  constructor
  · rintro ⟨k, -, hk⟩
    cases k with
    | goalMemoryPublication goal t =>
      simp only [Option.bind_eq_bind, Option.bind_eq_some_iff] at hk
      obtain ⟨p, hp, m, hm, mh, hmh, hif⟩ := hk
      obtain ⟨⟨rfl, hcond⟩, heq⟩ := Option.ite_none_right_eq_some.1 hif
      obtain rfl := Option.some.inj heq
      exact ⟨p, m, mh, hp, hm, hmh, hcond, rfl⟩
    | _ => cases hk
  · rintro ⟨p, m, mh, hp, hm, hmh, hcond, hr⟩
    refine ⟨.goalMemoryPublication a.goalHandle r.memoryT, isSome_of_get hp, ?_⟩
    simp only [hp, hm, hmh, Option.bind_eq_bind, Option.bind_some]
    rw [if_pos ⟨trivial, hcond⟩, ← hr]

lemma mem_working : r ∈ working db a ↔
    ∃ w m mh, get db (.memory r.memoryT) = some m ∧ get db (.memoryHead m.handle) = some mh ∧
      get db (.goalWorkBinding a.goalHandle m.handle) = some w ∧
      (w.controllerGeneration = a.authorityGeneration ∧ w.sourceOwner = a.ownerId ∧
        mh.ownerId = w.sourceOwner ∧ mh.authorityGeneration = w.sourceGeneration ∧
        m.ownerId = mh.ownerId ∧ m.forgotten = false ∧ (access m.kind).rank ≤ a.readCeiling) ∧
      r = ⟨r.memoryT, m.handle, m.ownerId, a.goalHandle, a.ownerId⟩ := by
  simp only [working, List.mem_filterMap]
  constructor
  · rintro ⟨k, -, hk⟩
    cases k with
    | memory t =>
      simp only [Option.bind_eq_bind, Option.bind_eq_some_iff] at hk
      obtain ⟨m, hm, mh, hmh, w, hw, hif⟩ := hk
      obtain ⟨hcond, heq⟩ := Option.ite_none_right_eq_some.1 hif
      obtain rfl := Option.some.inj heq
      exact ⟨w, m, mh, hm, hmh, hw, hcond, rfl⟩
    | _ => cases hk
  · rintro ⟨w, m, mh, hm, hmh, hw, hcond, hr⟩
    refine ⟨.memory r.memoryT, isSome_of_get hm, ?_⟩
    simp only [hw, hm, hmh, Option.bind_eq_bind, Option.bind_some]
    rw [if_pos hcond, ← hr]

/-- The session reaches the version's kind in the audience of the Goal. -/
def Reaches (db : Tables) (s : Session) (goal : Uuid) (gh : GoalHead) (kind : Memory.MemoryKind) :
    Prop :=
  ∃ ceiling, Enters db s goal gh ceiling ∧ (access kind).rank ≤ ceiling

lemma reaches_iff {goal : Uuid} {gh : GoalHead} {kind : Memory.MemoryKind}
    (hgh : get db (.goalHead goal) = some gh) :
    Reaches db s goal gh kind ↔ ∃ a ∈ audience db s, a.goalHandle = goal ∧ a.ownerId = gh.ownerId ∧
      a.authorityGeneration = gh.authorityGeneration ∧ (access kind).rank ≤ a.readCeiling := by
  rw [exists_audience (rank_access_pos kind)]
  constructor
  · rintro ⟨ceiling, henter, hle⟩
    exact ⟨⟨goal, ceiling, gh.ownerId, gh.authorityGeneration⟩,
      mem_audienceRoutes.2 ⟨gh, hgh, rfl, rfl, henter⟩, rfl, rfl, rfl, hle⟩
  · rintro ⟨a, ha, rfl, -, -, hle⟩
    obtain ⟨gh', hgh', -, -, henter⟩ := mem_audienceRoutes.1 ha
    obtain rfl := Option.mem_unique hgh hgh'
    exact ⟨a.readCeiling, henter, hle⟩

lemma audience_head (h : a ∈ audience db s) : ∃ gh, get db (.goalHead a.goalHandle) = some gh ∧
    gh.ownerId = a.ownerId ∧ gh.authorityGeneration = a.authorityGeneration := by
  simp only [audience, List.mem_dedup, List.mem_map] at h
  obtain ⟨b, hb, rfl⟩ := h
  obtain ⟨gh, hgh, howner, hgen, -⟩ := mem_audienceRoutes.1 hb
  exact ⟨gh, hgh, howner, hgen⟩

/-- **What opens a route.** -/
theorem mem_routes : r ∈ goalMemoryReadRoutes db s ↔
    ∃ gh m mh, Reached db r gh m mh ∧ Reaches db s r.goalHandle gh m.kind ∧
      (Published db r.goalHandle r.memoryT gh mh ∨
        Working db r.goalHandle r.memoryHandle gh mh) := by
  simp only [goalMemoryReadRoutes, List.mem_dedup, List.mem_flatMap, List.mem_append]
  constructor
  · rintro ⟨a, ha, hr⟩
    obtain ⟨gh, hgh, howner, hgen⟩ := audience_head ha
    rcases hr with hr | hr
    · obtain ⟨p, m, mh, hp, hm, hmh, ⟨h₁, h₂, h₃, h₄, h₅, h₆⟩, heq⟩ := mem_published.1 hr
      rw [heq]
      refine ⟨gh, m, mh, ⟨hgh, howner, hm, rfl, rfl, hmh, h₃, h₅⟩, (reaches_iff hgh).2
        ⟨a, ha, rfl, howner.symm, hgen.symm, h₆⟩, .inl ⟨p, hp, h₁.trans hgen.symm, ?_, h₄.symm⟩⟩
      exact (h₃.trans h₂).symm
    · obtain ⟨w, m, mh, hm, hmh, hw, ⟨h₁, h₂, h₃, h₄, h₅, h₆, h₇⟩, heq⟩ := mem_working.1 hr
      rw [heq]
      exact ⟨gh, m, mh, ⟨hgh, howner, hm, rfl, rfl, hmh, h₅.symm, h₆⟩, (reaches_iff hgh).2
        ⟨a, ha, rfl, howner.symm, hgen.symm, h₇⟩,
        .inr ⟨w, hw, h₁.trans hgen.symm, h₂.trans howner.symm, h₃.symm, h₄.symm⟩⟩
  · rintro ⟨gh, m, mh, hreached, hreaches, hopen⟩
    obtain ⟨a, ha, hgoal, howner, hgen, hle⟩ := (reaches_iff hreached.goal).1 hreaches
    have hhead : get db (.memoryHead m.handle) = some mh := hreached.handle ▸ hreached.head
    have heq : r = ⟨r.memoryT, m.handle, m.ownerId, a.goalHandle, a.ownerId⟩ := by
      rw [hreached.handle, hreached.owner, hgoal, howner, hreached.controller]
    refine ⟨a, ha, ?_⟩
    rcases hopen with ⟨p, hp, h₁, h₂, h₃⟩ | ⟨w, hw, h₁, h₂, h₃, h₄⟩
    · refine .inl (mem_published.2 ⟨p, m, mh, hgoal.symm ▸ hp, hreached.memory, hhead, ⟨?_, ?_,
        hreached.current, h₃.symm, hreached.live, hle⟩, heq⟩)
      · rw [h₁, hgen]
      · rw [h₂, hreached.current]
    · refine .inr (mem_working.2 ⟨w, m, mh, hreached.memory, hhead, ?_, ⟨?_, ?_, h₃.symm, h₄.symm,
        hreached.current.symm, hreached.live, hle⟩, heq⟩)
      · rw [hgoal, hreached.handle]
        exact hw
      · rw [h₁, hgen]
      · rw [h₂, howner]

/-- A route stays open while its rows stay. -/
lemma route_of_agree (h : r ∈ goalMemoryReadRoutes db s)
    (hgoal : get db' (.goalHead r.goalHandle) = get db (.goalHead r.goalHandle))
    (hgrant : ∀ subject, get db' (.goalAccessGrant r.goalHandle subject) =
      get db (.goalAccessGrant r.goalHandle subject))
    (hpub : get db' (.goalMemoryPublication r.goalHandle r.memoryT) =
      get db (.goalMemoryPublication r.goalHandle r.memoryT))
    (hbind : get db' (.goalWorkBinding r.goalHandle r.memoryHandle) =
      get db (.goalWorkBinding r.goalHandle r.memoryHandle))
    (hmem : get db' (.memory r.memoryT) = get db (.memory r.memoryT))
    (hhead : get db' (.memoryHead r.memoryHandle) = get db (.memoryHead r.memoryHandle)) :
    r ∈ goalMemoryReadRoutes db' s := by
  obtain ⟨gh, m, mh, hreached, ⟨ceiling, henter, hle⟩, hopen⟩ := mem_routes.1 h
  refine mem_routes.2 ⟨gh, m, mh, { hreached with
    goal := hgoal.trans hreached.goal
    memory := hmem.trans hreached.memory
    head := hhead.trans hreached.head }, ⟨ceiling, ?_, hle⟩, ?_⟩
  · refine henter.imp ?_ id
    rintro ⟨subject, a, hsub, ha, hrest⟩
    exact ⟨subject, a, hsub, (hgrant subject).trans ha, hrest⟩
  · refine hopen.imp ?_ ?_
    · rintro ⟨p, hp, hrest⟩
      exact ⟨p, hpub.trans hp, hrest⟩
    · rintro ⟨w, hw, hrest⟩
      exact ⟨w, hbind.trans hw, hrest⟩

end Proxiima.Collaboration
