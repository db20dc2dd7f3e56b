import Proxiima.Collaboration.Revalidation
import Proxiima.Collaboration.Verified

/-!
# Work through a Goal does what it says
-/

namespace Proxiima.Collaboration

open ReadCommitted ReadCommitted.Guarded Authz Prog

variable {H : Hash} {ls : List Lock} {st st' : Stand Row Lock} {ws d d' : Tables}

/-! ### Heads of series -/

variable {handle owner goal subject t : Uuid} {goals : List (Uuid × Uuid)}
  {Q : Post Unit} {owners : List Uuid} {a : GoalWorkAuthority}
  {head gh : GoalHead} {dh : Tables} {admits : MemoryHead → GoalHead → Bool} {row : GoalWorkBinding}
  {kind : Memory.MemoryKind}

/-- Under a fence of the owner no series comes to it. -/
lemma not_owner_of_follows (h : (system H).Follows ls d d') {x : Bool}
    (hfence : .advisory (H (.ownerFence owner)) x ∈ ls) {mh : MemoryHead}
    (hmh : get d (.memoryHead handle) = some mh) (hne : mh.ownerId ≠ owner) :
    ∃ mh', get d' (.memoryHead handle) = some mh' ∧ mh'.ownerId ≠ owner := by
  refine h.keeps (k := .memoryHead handle) (P := fun o : Option MemoryHead =>
    ∃ mh', o = some mh' ∧ mh'.ownerId ≠ owner) ⟨mh, hmh, hne⟩ ?_
  rintro o o' ⟨mh', rfl, -⟩ ⟨hlegal, hfree⟩
  cases o' with
  | none => exact hlegal.elim
  | some mh'' =>
    refine ⟨mh'', rfl, fun heq => ?_⟩
    have hc := hfree (exclusive H (.ownerFence mh''.ownerId)) (by simp [system, guards]) _ hfence
    simp [system, exclusive, heq] at hc

/-! ### Footprints -/

lemma mem_footprint {g : Uuid × Uuid} : g ∈ footprint goals ↔ g ∈ goals := by
  simp [footprint]

lemma wp_lockGoalHeads {Q : Post PUnit}
    (h : ∀ st', st'.Extends st → (∀ g ∈ goals, .row (.goalHead g.1) ∈ st'.held) → Q ⟨⟩ st') :
    (system H).Wp (goals.forM lockGoalHead) Q st := by
  induction goals generalizing st with
  | nil => exact h st (.refl st) fun _ hg => nomatch hg
  | cons g goals ih =>
    refine wp_bind.2 ?_
    simp only [lockGoalHead, wp_bind, wp_lock, wp_view, wp_failIf]
    intro d₁ _ _
    have hst₁ : ((st.lock (.row (.goalHead g.1))).see d₁).Extends st :=
      (Stand.Extends.see _ _).trans (.lock _ _)
    refine ih fun st' hst' hrest => h st' (hst'.trans hst₁) (List.forall_mem_cons.2 ⟨?_, hrest⟩)
    exact hst'.held List.mem_cons_self

lemma wp_lockGoalFootprint
    (h : ∀ st', st'.Extends st → (∀ g ∈ goals, .row (.goalHead g.1) ∈ st'.held) → Q () st') :
    (system H).Wp (lockGoalFootprint goals) Q st :=
  wp_lockGoalHeads fun st' hst' hrows => h st' hst' fun g hg => hrows g (mem_footprint.2 hg)

lemma within_sources {sources : List Source} (howners : sourceOwners sources ⊆ owners)
    (hgoals : goalRoutes sources ⊆ goals) : ∀ s ∈ sources, Within owners goals s := by
  intro s hs
  refine ⟨howners ?_, fun g hg => howners ?_, fun g hg => hgoals ?_⟩
  · exact List.mem_flatMap.2 ⟨s, hs, List.mem_cons_self⟩
  · refine List.mem_flatMap.2 ⟨s, hs, List.mem_cons_of_mem _ ?_⟩
    rw [Option.mem_def.1 hg]
    simp
  · exact List.mem_filterMap.2 ⟨s, hs, hg⟩

/-! ### The rows of a new version and its binding -/

section Admission

variable {owner handle t goal subject : Uuid} {kind : Memory.MemoryKind} {head : Option MemoryHead}

lemma neutral_admission : Neutral (admission owner handle t kind head) := by
  intro k hk
  cases head with
  | none =>
    obtain rfl | rfl : k = .memory t ∨ k = .memoryHead handle := by simpa [admission] using hk
    · exact .inl ⟨t, rfl⟩
    · exact .inr (.inl ⟨handle, rfl⟩)
  | some mh =>
    obtain rfl : k = .memory t := by simpa [admission] using hk
    exact .inl ⟨t, rfl⟩

lemma neutral_cons_binding {row : Option GoalWorkBinding} (h : Neutral ws) :
    Neutral (⟨.goalWorkBinding goal handle, row⟩ :: ws) := by
  intro k hk
  rcases List.mem_cons.1 hk with rfl | hk
  · exact .inr (.inr ⟨goal, handle, rfl⟩)
  · exact h k hk

lemma Admitted.cons_binding {row : Option GoalWorkBinding} {before after : Tables}
    (h : Admitted owner handle t kind before after) :
    Admitted owner handle t kind before (⟨.goalWorkBinding goal handle, row⟩ :: after) := by
  refine ⟨h.absent, ?_, ?_⟩
  · rw [get_cons_ne _ _ (by simp)]
    exact h.version
  · rw [get_cons_ne _ _ (by simp)]
    exact h.head

end Admission

/-! ### Authority -/

variable {req : AuthorRequest} {permit : GoalWorkPermit}

/-- What `prepare_goal_work_authority` has locked and found. -/
structure Prepared (H : Hash) (permit : GoalWorkPermit) (a : GoalWorkAuthority) (head : GoalHead)
    (owners : List Uuid) (goals : List (Uuid × Uuid)) (st : Stand Row Lock) : Prop where
  fenced : Fenced H permit.command.scope a.roles owners goals st
  sources : ∀ s ∈ a.sources, Within owners goals s
  owner : permit.owner ∈ owners
  goal : (permit.command.goal, permit.owner) ∈ goals
  generation : a.generation = head.authorityGeneration
  headOwner : head.ownerId = permit.owner
  found : ∀ d, (system H).Possible st d →
    get d (.goalHead permit.command.goal) = some head
  active : ∀ d, (system H).Possible st d →
    goalState d permit.command.goal head = some .active

lemma Prepared.later (h : Prepared H permit a head owners goals st) (hheld : st.held ⊆ st'.held)
    (hseen : st.seen ⊆ st'.seen) : Prepared H permit a head owners goals st' :=
  { h with
    fenced := h.fenced.later hheld hseen
    found := fun d hd => h.found d fun p hp => hd p (hseen hp)
    active := fun d hd => h.active d fun p hp => hd p (hseen hp) }

/-- The state of a Goal's version does not change. -/
lemma goalState_of_follows (h : (system H).Follows ls d d') {state : GoalState}
    (hs : goalState d goal head = some state) : goalState d' goal head = some state := by
  obtain ⟨g, hg, -⟩ := Option.map_eq_some_iff.1 hs
  obtain ⟨hg, -⟩ := Option.filter_eq_some_iff.1 hg
  have hsame : get d' (.goal head.t) = get d (.goal head.t) := by
    refine h.same ?_
    rw [hg]
    exact covers_goal g
  rw [goalState, hsame]
  exact hs

lemma wp_prepareGoalWorkAuthority (hw : st.writes = [])
    {Q : Post GoalWorkAuthority}
    (h : ∀ a head owners goals st', st'.Extends st → Prepared H permit a head owners goals st' →
      Q a st') : (system H).Wp (prepareGoalWorkAuthority H req permit) Q st := by
  simp only [prepareGoalWorkAuthority, wp_bind, wp_view, wp_orFail]
  intro d₁ _ hint _
  refine wp_discover fun clock dv _ _ => ?_
  generalize hfound : endpointSources _ _ _ = sources
  refine wp_fencedRoles fun st₁ d₂ hst₁ hfence hauth hd₂ _ => ?_
  refine wp_lockGoalFootprint fun st₂ hst₂ hrows => ?_
  have hw₂ : st₂.writes = [] := hst₂.writes.trans (hst₁.writes.trans hw)
  simp only [wp_lock, wp_failIf, hw₂, List.nil_append, Stand.writes_see, hw]
  intro d₃ _ head hhead state hstate hactive hhint
  rw [not_or, not_not, not_not] at hactive
  rw [not_not] at hhint
  refine wp_roleForGoal fun clock' d₄ _ _ => ?_
  have hext : (((st₂.see d₃).lock (.row (.goal head.t))).see d₄).Extends (st₂.see d₃) :=
    (Stand.Extends.see _ _).trans (.lock _ _)
  have hext₁ : (((st₂.see d₃).lock (.row (.goal head.t))).see d₄).Extends (st₁.see d₂) :=
    (hext.trans (.see _ _)).trans hst₂
  have hhintowner : hint = permit.owner := hhint.symm.trans hactive.1
  have hgoalmem : (permit.command.goal, permit.owner) ∈
      goalRoutes sources ++ [(permit.command.goal, hint)] := by simp [hhintowner]
  have howners : hint :: sourceOwners sources ⊆ ordered (hint :: sourceOwners sources) :=
    fun o ho => mem_ordered.2 ho
  refine h _ head (ordered (hint :: sourceOwners sources))
    (goalRoutes sources ++ [(permit.command.goal, hint)]) _
    (hext₁.trans ((Stand.Extends.see _ _).trans
      (hst₁.trans ((Stand.Extends.see _ _).trans (.see _ _)))))
    ⟨?_, ?_, ?_, hgoalmem, rfl, hactive.1, fun d hd => ?_, fun d hd => ?_⟩
  · exact Fenced.of_locked _ hfence hauth hext₁ fun g hg => hext.held (hrows g hg)
  · exact within_sources (List.Subset.trans (List.subset_cons_self _ _) howners)
      (List.subset_append_left _ _)
  · rw [hhintowner] at howners ⊢
    exact howners List.mem_cons_self
  · have hfol := (possible_see.1 (hd.of_extends hext)).1
    rw [hfol.same (covers_row (hrows (permit.command.goal, hint) (by simp)) _), hhead]
  · have hfol := (possible_see.1 (hd.of_extends hext)).1
    exact goalState_of_follows hfol (hactive.2 ▸ hstate)

/-! ### The target -/

/-- What the check of the target has seen. -/
def TargetChecked (req : AuthorRequest) (permit : GoalWorkPermit) (generation : ℕ) (d : Tables) :
    Prop :=
  match permit.target with
  | .series handle => (req.supersedes = none ∧ req.memoryId = handle) ∧
      seriesAdmitted d permit.command.goal handle permit.owner generation = true
  | .revision prior => req.supersedes = some prior ∧
      revisionAdmitted d permit.command.goal prior permit.owner generation = true

lemma wp_validateGoalWorkTarget {generation : ℕ} (hw : st.writes = [])
    (h : ∀ dt, (system H).Possible st dt → TargetChecked req permit generation dt →
      Q () (st.see dt)) :
    (system H).Wp (validateGoalWorkTarget req permit generation) Q st := by
  unfold validateGoalWorkTarget
  split
  · rename_i handle htarget
    simp only [wp_bind, wp_failIf, wp_view, hw, List.nil_append, Bool.not_eq_false]
    intro hmatch dt hdt hadmitted
    refine h dt hdt ?_
    rw [not_or, not_not, not_not] at hmatch
    simpa [TargetChecked, htarget] using And.intro hmatch hadmitted
  · rename_i prior htarget
    simp only [wp_bind, wp_failIf, wp_view, hw, List.nil_append, Bool.not_eq_false]
    intro hmatch dt hdt hadmitted
    refine h dt hdt ?_
    rw [not_not] at hmatch
    simpa [TargetChecked, htarget] using And.intro hmatch hadmitted

/-- A binding seen under the lock of its Goal is the current one where the call commits. -/
lemma Prepared.bound (hP : Prepared H permit a head owners goals st)
    (hfol : (system H).Follows st.held d d') (hd' : (system H).Possible st d')
    {mh : MemoryHead} (hmh : get d (.memoryHead handle) = some mh)
    (howner : mh.ownerId = permit.owner)
    (hbound : bound d permit.command.goal handle permit.owner mh.authorityGeneration a.generation =
      true) : Bound d' permit.command.goal handle permit.owner := by
  have hfence : .advisory (H (.ownerFence mh.ownerId)) false ∈ st.held := by
    rw [howner]
    exact hP.fenced.fence _ hP.owner
  have hmh' : get d' (.memoryHead handle) = some mh := by
    rw [hfol.same (k := .memoryHead handle) (hmh.symm ▸ covers_head hfence), hmh]
  refine ⟨mh, head, hmh', hP.found d' hd', howner, ?_⟩
  rw [← hP.generation]
  unfold Collaboration.bound at hbound ⊢
  rw [hfol.same (covers_binding (hP.fenced.goal _ hP.goal) _ _)]
  exact hbound

/-- The series is bound where the call commits, or it was not there at the check. -/
lemma target_of_checked {dt : Tables} (hP : Prepared H permit a head owners goals st)
    (hchecked : TargetChecked req permit a.generation dt) (hdh : (system H).Follows ls dt dh)
    (hhandle : targetHandle dh req = some handle) (hfol : (system H).Follows st.held dt d)
    (hd : (system H).Possible st d)
    (howner : ∀ mh, get d (.memoryHead handle) = some mh → mh.ownerId = permit.owner) :
    Bound d permit.command.goal handle permit.owner ∨
      permit.target = .series handle ∧ get dt (.memoryHead handle) = none := by
  unfold TargetChecked at hchecked
  split at hchecked
  · rename_i h htarget
    obtain ⟨⟨hsup, rfl⟩, hadmitted⟩ := hchecked
    obtain rfl : req.memoryId = handle := by simpa [targetHandle, hsup] using hhandle
    cases hmht : get dt (.memoryHead req.memoryId) with
    | none => exact .inr ⟨htarget, rfl⟩
    | some mht =>
      by_cases hown : mht.ownerId = permit.owner
      · refine .inl (hP.bound hfol hd hmht hown ?_)
        simpa [seriesAdmitted, hmht, hown] using hadmitted
      · obtain ⟨mh, hmh, hne⟩ :=
          not_owner_of_follows hfol (hP.fenced.fence _ hP.owner) hmht hown
        exact absurd (howner mh hmh) hne
  · obtain ⟨hsup, hadmitted⟩ := hchecked
    rename_i prior _
    simp only [revisionAdmitted, Option.any_eq_true, Bool.and_eq_true,
      decide_eq_true_eq] at hadmitted
    obtain ⟨m, hm, -, mh, hmh, hmhowner, hbound⟩ := hadmitted
    obtain ⟨m', hm', hsame, -⟩ := memory_of_follows hdh hm
    obtain rfl : m'.handle = handle := by
      simp only [targetHandle, hsup, ownedMemory, Option.map_eq_some_iff,
        Option.filter_eq_some_iff] at hhandle
      obtain ⟨m'', ⟨⟨hm'', -⟩, -⟩, rfl⟩ := hhandle
      obtain rfl := Option.mem_unique hm' hm''
      rfl
    rw [hsame]
    exact .inl (hP.bound hfol hd hmh hmhowner hbound)

lemma series_of_checked {generation : ℕ} {dt : Tables} (hseries : isSeries permit.target = true)
    (hchecked : TargetChecked req permit generation dt)
    (hhandle : targetHandle dh req = some handle) : permit.target = .series handle := by
  unfold TargetChecked at hchecked
  split at hchecked
  · rename_i h htarget
    obtain ⟨⟨hsup, rfl⟩, -⟩ := hchecked
    obtain rfl : req.memoryId = handle := by simpa [targetHandle, hsup] using hhandle
    exact htarget
  · rename_i prior htarget
    rw [htarget] at hseries
    cases hseries

/-! ### The binding -/

lemma workBinding_eq_some :
    workBinding d goal handle subject admits = some row ↔
      ∃ mh gh, get d (.memoryHead handle) = some mh ∧ get d (.goalHead goal) = some gh ∧
        admits mh gh = true ∧
        ⟨mh.ownerId, mh.authorityGeneration, gh.authorityGeneration, subject⟩ = row := by
  simp [workBinding, Option.bind_eq_some_iff]

/-- An admitted version leaves a head that can be bound. -/
lemma Admits.workBinding {fresh : Bool} {head : Option MemoryHead}
    (hA : Admits H owner handle t kind fresh head st st') (hd : (system H).Possible st' d)
    (hgh : get d (.goalHead goal) = some gh) (hadmits : ∀ mh, mh.ownerId = owner → admits mh gh) :
    workBinding (st'.writes ++ d) goal handle subject admits ≠ none := by
  obtain ⟨mh, hmh, howner⟩ : ∃ mh, get (admission owner handle t kind head ++ d)
      (.memoryHead handle) = some mh ∧ mh.ownerId = owner := by
    rcases (hA.admitted hd).head with ⟨-, hmh⟩ | ⟨hsame, mh, hmh, -, howner⟩
    · exact ⟨_, hmh, rfl⟩
    · exact ⟨mh, hsame.trans hmh, howner⟩
  rw [hA.writes, workBinding_eq_some.2 ⟨mh, gh, hmh, ?_, hadmits mh howner, rfl⟩]
  · exact Option.some_ne_none _
  · rw [get_admission_of_ne (by simp) (by simp), hgh]

/-- What is known when a binding was inserted, or found. -/
structure Binds (H : Hash) (goal handle subject : Uuid) (admits : MemoryHead → GoalHead → Bool)
    (must : Bool) (st st' : Stand Row Lock) : Prop where
  held : st.held ⊆ st'.held
  seen : st.seen ⊆ st'.seen
  writes : ∃ db, (∀ d, (system H).Possible st' d → (system H).Follows st.held db d) ∧
    (st'.writes = st.writes ∧ must = false ∧
        get (st.writes ++ db) (.goalWorkBinding goal handle) ≠ none ∨
      ∃ row, st'.writes = ⟨.goalWorkBinding goal handle, some row⟩ :: st.writes ∧
        get (st.writes ++ db) (.goalWorkBinding goal handle) = none ∧
        workBinding (st.writes ++ db) goal handle subject admits = some row)

lemma wp_insertBinding {must : Bool} {db : Tables} (hrow : .row (.goalHead goal) ∈ st.held)
    (hnone : get (st.writes ++ db) (.goalWorkBinding goal handle) = none)
    (hsome : workBinding (st.writes ++ db) goal handle subject admits = some row)
    (h : ∀ st', Binds H goal handle subject admits must st st' → Q () st') :
    (system H).Wp (write [⟨.goalWorkBinding goal handle, some row⟩]) Q
      ((st.lock (.row (.goalWorkBinding goal handle))).see db) := by
  refine wp_write_row fun d₁ _ => ⟨by simp [system, guards, hrow], trivial, h _ ⟨?_, ?_, ?_⟩⟩
  · exact fun l hl => List.mem_cons_of_mem _ (List.mem_cons_of_mem _ hl)
  · exact fun p hp => List.mem_cons_of_mem _ (List.mem_cons_of_mem _ hp)
  · refine ⟨db, fun d hd => ?_, .inr ⟨row, rfl, hnone, hsome⟩⟩
    exact (possible_see.1 (possible_put.1 hd).2).1.mono (List.subset_cons_self _ _)

lemma wp_bindNewWork (hrow : .row (.goalHead goal) ∈ st.held)
    (hbinds : ∀ d, (system H).Possible st d →
      workBinding (st.writes ++ d) goal handle subject (fun mh _ => mh.ownerId = owner) ≠ none)
    (h : ∀ st', Binds H goal handle subject (fun mh _ => mh.ownerId = owner) false st st' →
      Q () st')
    : (system H).Wp (bindNewWork goal handle owner subject) Q st := by
  simp only [bindNewWork, wp_bind, wp_lock, wp_view, Stand.writes_lock]
  intro db hdb
  have hext : ((st.lock (.row (.goalWorkBinding goal handle))).see db).Extends st :=
    (Stand.Extends.see _ _).trans (.lock _ _)
  split
  · rename_i row hnone hsome
    exact wp_insertBinding hrow hnone hsome h
  · rename_i hother
    refine h _ ⟨hext.held, hext.seen, db, fun d hd => ?_, .inl ⟨hext.writes, rfl, fun hnone => ?_⟩⟩
    · exact (possible_see.1 hd).1.mono (List.subset_cons_self _ _)
    · obtain ⟨row, hsome⟩ := Option.ne_none_iff_exists'.1 (hbinds db hdb)
      exact hother row hnone hsome

/-- A binding that was inserted is new under the heads there are. -/
lemma newBinding_of_inserted {head : Option MemoryHead} {db : Tables}
    (hrow : .row (.goalHead goal) ∈ ls) (hhandle : exclusive H (.memoryHandle handle) ∈ ls)
    (hfol : (system H).Follows ls db d)
    (hnone : get (admission owner handle t kind head ++ db) (.goalWorkBinding goal handle) = none)
    (hsome : workBinding (admission owner handle t kind head ++ db) goal handle subject admits =
      some row)
    (hadmits : ∀ mh gh, get d (.goalHead goal) = some gh → admits mh gh = true →
      mh.ownerId = gh.ownerId) :
    NewBinding goal handle subject d (⟨.goalWorkBinding goal handle, some row⟩ ::
      (admission owner handle t kind head ++ d)) := by
  have hbinding : get d (.goalWorkBinding goal handle) = none := by
    rw [get_admission_of_ne (by simp) (by simp)] at hnone
    rw [hfol.same (covers_binding hrow _ _), hnone]
  obtain ⟨mh, gh, hmh, hgh, hadmit, rfl⟩ := workBinding_eq_some.1 hsome
  have hgh' : get d (.goalHead goal) = some gh := by
    rw [get_admission_of_ne (by simp) (by simp)] at hgh
    rw [hfol.same (covers_row hrow _), hgh]
  refine ⟨hbinding, mh, gh, ?_, ?_, hadmits mh gh hgh' hadmit, get_cons_self _ _ _⟩
  · rw [get_cons_ne _ _ (by simp), view_same hfol fun _ => covers_head_of_handle hhandle _, hmh]
  · rw [get_cons_ne _ _ (by simp), get_admission_of_ne (by simp) (by simp), hgh']

/-! ### Admission -/

/-- What is known when the rows of a version written through a Goal stand. -/
structure WorkRows (H : Hash) (req : AuthorRequest) (permit : GoalWorkPermit) (t handle : Uuid)
    (st st' : Stand Row Lock) : Prop where
  held : st.held ⊆ st'.held
  seen : st.seen ⊆ st'.seen
  neutral : Neutral st'.writes
  target : ∃ dh, (system H).Possible st dh ∧ targetHandle dh req = some handle
  owner : ∀ d, (system H).Possible st' d → ∀ mh, get d (.memoryHead handle) = some mh →
    mh.ownerId = permit.owner
  admitted : ∀ d, (system H).Possible st' d →
    Admitted permit.owner handle t req.kind d (st'.writes ++ d)
  binding : ∀ d, (system H).Possible st' d →
    NewBinding permit.command.goal handle permit.command.subject d (st'.writes ++ d) ∧
      isSeries permit.target = true ∨
    get (st'.writes ++ d) (.goalWorkBinding permit.command.goal handle) =
        get d (.goalWorkBinding permit.command.goal handle) ∧
      (isSeries permit.target = true → get d (.goalWorkBinding permit.command.goal handle) ≠ none)
  only : ∀ d, Only [.memory t, .memoryHead handle, .goalWorkBinding permit.command.goal handle] d
    (st'.writes ++ d)

lemma only_admission {head : Option MemoryHead} :
    Only [.memory t, .memoryHead handle, .goalWorkBinding goal handle] d
      (admission owner handle t kind head ++ d) := by
  intro k hk
  simp only [List.mem_cons, List.not_mem_nil, or_false, not_or] at hk
  exact get_admission_of_ne hk.1 hk.2.1

variable {t : Uuid}

/-- A version that was admitted without a new binding. -/
lemma workRows_of_admits {head : Option MemoryHead}
    (hA : Admits H permit.owner handle t req.kind false head (st.see dh) st')
    (hdh : (system H).Possible st dh) (hhandle : targetHandle dh req = some handle)
    (hrevision : isSeries permit.target ≠ true) : WorkRows H req permit t handle st st' where
  held := hA.held
  seen := List.Subset.trans (List.subset_cons_self _ _) hA.seen
  neutral := hA.writes ▸ neutral_admission
  target := ⟨dh, hdh, hhandle⟩
  owner := fun d hd mh hmh => (hA.agrees mh (hA.found d hd ▸ hmh)).2
  admitted := fun d hd => hA.writes ▸ hA.admitted hd
  binding := fun d _ => .inr ⟨by rw [hA.writes, get_admission_of_ne (by simp) (by simp)],
    fun hseries => absurd hseries hrevision⟩
  only := fun d => by
    rw [hA.writes]
    exact only_admission

/-- A version that was admitted, and its series bound. -/
lemma workRows_of_binds {head : Option MemoryHead} {st'' : Stand Row Lock}
    (hP : Prepared H permit a gh owners goals st)
    (hA : Admits H permit.owner handle t req.kind false head (st.see dh) st')
    (hdh : (system H).Possible st dh) (hhandle : targetHandle dh req = some handle)
    (hseries : isSeries permit.target = true)
    (hB : Binds H permit.command.goal handle permit.command.subject
      (fun mh _ => mh.ownerId = permit.owner) false st' st'') :
    WorkRows H req permit t handle st st'' := by
  have hseen : st.seen ⊆ st'.seen := List.Subset.trans (List.subset_cons_self _ _) hA.seen
  have hpossible : ∀ d, (system H).Possible st'' d → (system H).Possible st' d :=
    fun d hd p hp => hd p (hB.seen hp)
  have hstart : ∀ d, (system H).Possible st'' d → (system H).Possible st d :=
    fun d hd p hp => hpossible d hd p (hseen hp)
  refine {
    held := List.Subset.trans hA.held hB.held
    seen := List.Subset.trans hseen hB.seen
    target := ⟨dh, hdh, hhandle⟩
    owner := fun d hd mh hmh => (hA.agrees mh (hA.found d (hpossible d hd) ▸ hmh)).2
    neutral := ?_
    admitted := fun d hd => ?_
    binding := fun d hd => ?_
    only := fun d => ?_ }
  all_goals
    obtain ⟨db, hfol, ⟨hw, -, hfound⟩ | ⟨row, hw, hnone, hsome⟩⟩ := hB.writes
    <;> rw [hw, hA.writes]
  · exact neutral_admission
  · exact neutral_cons_binding neutral_admission
  · exact hA.admitted (hpossible d hd)
  · exact (hA.admitted (hpossible d hd)).cons_binding
  · rw [hA.writes, get_admission_of_ne (by simp) (by simp)] at hfound
    refine .inr ⟨get_admission_of_ne (by simp) (by simp), fun _ => ?_⟩
    rwa [(hfol d hd).same (covers_binding (hA.held (hP.fenced.goal _ hP.goal)) _ _)]
  · rw [hA.writes] at hnone hsome
    refine .inl ⟨newBinding_of_inserted (hA.held (hP.fenced.goal _ hP.goal)) hA.lock (hfol d hd)
      hnone hsome fun mh gh' hgh' hadmit => ?_, hseries⟩
    obtain rfl := Option.some.inj ((hP.found d (hstart d hd)).symm.trans hgh')
    rw [hP.headOwner]
    exact of_decide_eq_true hadmit
  · exact only_admission
  · intro k hk
    have hne : k ≠ .goalWorkBinding permit.command.goal handle := fun heq => hk (by simp [heq])
    rw [List.cons_append, get_cons_ne _ _ hne]
    exact only_admission k hk

lemma wp_admitGoalWork (hP : Prepared H permit a gh owners goals st) (hw : st.writes = [])
    {Q : Post (Option Uuid)} (hreplay : ∀ st', st'.Extends st → Q none st')
    (h : ∀ handle st', WorkRows H req permit t handle st st' → Q (some handle) st') :
    (system H).Wp (admitGoalWork H req permit t) Q st := by
  simp only [admitGoalWork, wp_bind, wp_view, wp_orFail, wp_call, wp_ite, wp_probe, wp_pure, hw,
    List.nil_append]
  refine fun dh hdh handle hhandle x _ => ⟨fun _ => hreplay _ (.see _ _), fun _ => ?_⟩
  refine wp_admitVersion hw fun st₁ head hA => ⟨fun hseries => ?_, fun hrevision => ?_⟩
  · refine wp_bindNewWork (hA.held (hP.fenced.goal _ hP.goal)) (fun d hd => ?_) fun st₂ hB => ?_
    · exact hA.workBinding hd (hP.found d fun p hp => hd p (hA.seen (List.mem_cons_of_mem _ hp)))
        fun mh howner => decide_eq_true howner
    · exact h handle st₂ (workRows_of_binds hP hA hdh hhandle hseries hB)
  · exact h handle st₁ (workRows_of_admits hA hdh hhandle hrevision)

/-- The Goal is active and writable where the call commits. -/
lemma Prepared.writable (hP : Prepared H permit a head owners goals st) (hneutral : Neutral ws)
    {dr : Tables} {clock : ℕ × ℕ} {checks : List (ℕ × ℕ)} (hclock : clock ∈ checks)
    (hfol : (system H).Follows st.held dr d) (hd : (system H).Possible st d)
    (hmay : (goalRole (ws ++ dr) clock permit.command.scope a.roles permit.command.goal permit.owner
      a.generation).any (·.mayWrite (access permit.kind)) = true) :
    Writable (ws ++ d) permit.command.scope checks permit.command.goal permit.owner
      permit.kind := by
  refine ⟨head, ?_, hP.headOwner, ?_, clock, hclock, ?_⟩
  · rw [get_goal_of_neutral hneutral (.inl ⟨_, rfl⟩)]
    exact hP.found d hd
  · rw [goalState_neutral hneutral]
    exact hP.active d hd
  · rw [← hP.generation, ← hP.fenced.goalRole hneutral hd hP.owner (hP.fenced.goal _ hP.goal) hfol]
    exact hmay

/-- **A version is written through a Goal on current authority.** -/
theorem correct_authorWorkMemory (req : AuthorRequest) (permit : GoalWorkPermit) (t : Uuid) :
    (system H).Correct (.authorWorkMemory req permit t) := by
  change (system H).Wp (authorWorkMemory H req permit t) _ _
  simp only [authorWorkMemory, wp_bind, wp_failIf]
  intro hmatch
  rw [not_or, not_not, not_not] at hmatch
  refine wp_prepareGoalWorkAuthority rfl fun a head owners goals st₁ hst₁ hP₁ => ?_
  have hw₁ : st₁.writes = [] := hst₁.writes
  rw [wp_probe]
  refine wp_revalidate hP₁.fenced (hw₁ ▸ neutral_nil) hP₁.sources
    fun clock₁ dv₁ checks₁ st₂ hst₂ _ _ hchecked₁ => ?_
  have hst₂₁ : st₂.Extends st₁ := hst₂.trans (.see _ _)
  have hw₂ : st₂.writes = [] := hst₂₁.writes.trans hw₁
  have hP₂ := hP₁.later hst₂₁.held hst₂₁.seen
  refine wp_validateGoalWorkTarget hw₂ fun dt _ htarget => ?_
  have hP₃ := hP₂.later (Stand.Extends.see st₂ dt).held (Stand.Extends.see st₂ dt).seen
  refine wp_admitGoalWork hP₃ hw₂ (fun st₄ hst₄ => ?_) fun handle st₄ hrows => ?_
  · -- a replay writes nothing
    have hext := hst₄.trans (.see _ _)
    have hP₄ := hP₂.later hext.held hext.seen
    have hw₄ : st₄.writes = [] := hext.writes.trans hw₂
    refine wp_revalidate hP₄.fenced (hw₄ ▸ neutral_nil) hP₄.sources
      fun clock₂ dv₂ checks₂ st₅ hst₅ _ _ _ => ?_
    refine wp_roleForGoal fun clock₃ d₃ _ _ d _ _ _ => .inl ⟨rfl, fun k _ => ?_⟩
    have hw₅ : st₅.writes = [] := hst₅.writes.trans hw₄
    simp [hw₅]
  · have hP₄ := hP₃.later hrows.held hrows.seen
    refine wp_revalidate hP₄.fenced hrows.neutral hP₄.sources
      fun clock₂ dv₂ checks₂ st₅ hst₅ hfound hcomplete hchecked₂ => ?_
    have hst₅₄ : st₅.Extends st₄ := hst₅.trans (.see _ _)
    have hP₅ := hP₄.later hst₅₄.held hst₅₄.seen
    refine wp_roleForGoal fun clock₃ dr _ hmay d during hd hseen => .inr ⟨handle, _, rfl, ?_⟩
    simp only [possible_see] at hd
    obtain ⟨hfol, hd₅⟩ := hd
    have hd₄ := hd₅.of_extends hst₅₄
    rw [Stand.writes_see, hst₅₄.writes]
    rw [hst₅₄.writes] at hmay
    have hdt' : (system H).Follows (st₂.see dt).held dt d :=
      (possible_see.1 (fun p hp => hd₄ p (hrows.seen hp))).1
    refine {
      admitted := hrows.admitted d hd₄
      kind := hmatch.2
      binding := ?_
      only := hrows.only d
      writable := hP₅.writable hrows.neutral List.mem_cons_self hfol hd₅
        (by simpa [GoalWorkPermit.owner] using hmay)
      target := ?_
      sources := fun e he => ?_ }
    · obtain ⟨dh, -, hhandle⟩ := hrows.target
      exact (hrows.binding d hd₄).imp (fun h => ⟨h.1, series_of_checked h.2 htarget hhandle⟩)
        fun h => ⟨h.1, fun hseries => h.2 (by rw [hseries]; rfl)⟩
    · obtain ⟨dh, hdh, hhandle⟩ := hrows.target
      refine (target_of_checked hP₃ htarget (possible_see.1 hdh).1 hhandle hdt'
        (fun p hp => hd₄ p (hrows.seen hp)) (hrows.owner d hd₄)).imp_right fun hnone =>
          ⟨hnone.1, dt, ?_, hnone.2⟩
      exact hseen _ (List.mem_cons_of_mem _ (hst₅₄.seen (hrows.seen List.mem_cons_self)))
    · refine Readable.mono (readable_of_revalidated hP₄.fenced hP₄.sources (fun s hs hkind => ?_)
        hfound hcomplete hchecked₂ hst₅ hd₅ he) (List.subset_cons_self _ _)
      exact hrows.held ((hchecked₁ s hs).share hkind)

end Proxiima.Collaboration