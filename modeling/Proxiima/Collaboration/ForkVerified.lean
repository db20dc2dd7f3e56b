import Proxiima.Collaboration.WorkVerified

/-!
# Forks do what they say
-/

namespace Proxiima.Collaboration

open ReadCommitted ReadCommitted.Guarded Authz Prog

variable {H : Hash} {ls : List Lock} {st st' : Stand Row Lock} {ws d dv : Tables}
variable {roles : Uuid → Option Role} {owners : List Uuid} {goals : List (Uuid × Uuid)}
variable {permit : ForkCommandPermit} {kind : Memory.MemoryKind}

/-! ### The source -/

lemma wp_loadForkSource (hw : st.writes = [])
    {Q : Post (Memory.MemoryKind × Option (Uuid × Uuid))}
    (h : ∀ kind consent dl m st', st'.Extends (st.see dl) →
      get dl (.memory permit.source) = some m → m.ownerId = permit.sourceOwner →
      Q (kind, consent) st') : (system H).Wp (loadForkSource permit) Q st := by
  simp only [loadForkSource, wp_bind, wp_clocks, wp_failIf, wp_view, wp_orFail, wp_probe, wp_pure,
    hw, List.nil_append]
  intro clock _ dl _ source hsource m hm howner _ clock' d₂ _ d₃ _
  obtain ⟨m', hm', -, heq⟩ := memorySource_eq_some hsource
  obtain rfl := Option.mem_unique hm hm'
  refine h _ _ dl m _ ((Stand.Extends.see _ _).trans (.see _ _)) hm ?_
  rw [← not_not.1 howner, heq]

/-! ### Consent -/

variable {goal t : Uuid} {p : GoalMemoryPublication}

lemma forkPublication_eq_some :
    forkPublication d goal t = some p ↔
      ∃ gh m mh, get d (.goalMemoryPublication goal t) = some p ∧ get d (.goalHead goal) = some gh ∧
        get d (.memory t) = some m ∧ get d (.memoryHead m.handle) = some mh ∧
        gh.authorityGeneration = p.controllerGeneration ∧ m.ownerId = p.sourceOwner ∧
        m.forgotten = false ∧ mh.ownerId = p.sourceOwner ∧
        mh.authorityGeneration = p.sourceGeneration ∧ p.permittedUse = .fork := by
  simp only [forkPublication, Option.bind_eq_bind, Option.bind_eq_some_iff]
  constructor
  · rintro ⟨p', hp, gh, hgh, m, hm, mh, hmh, hif⟩
    obtain ⟨hcond, heq⟩ := Option.ite_none_right_eq_some.1 hif
    obtain rfl := Option.some.inj heq
    exact ⟨gh, m, mh, hp, hgh, hm, hmh, hcond⟩
  · rintro ⟨gh, m, mh, hp, hgh, hm, hmh, hcond⟩
    exact ⟨p, hp, gh, hgh, m, hm, mh, hmh, if_pos hcond⟩

/-- A fork publication seen under the locks of a call is there where it commits. -/
lemma Fenced.forkPublication {scope : OwnerScope} (hF : Fenced H scope roles owners goals st)
    {controller : Uuid} (hgoal : (goal, controller) ∈ goals) (howner : p.sourceOwner ∈ owners)
    (hshare : .share (.memory t) ∈ st.held) (hfol : (system H).Follows st.held dv d)
    (h : forkPublication (ws ++ dv) goal t = some p) :
    forkPublication (ws ++ d) goal t = some p := by
  have hrow := hF.goal _ hgoal
  obtain ⟨gh, m, mh, hp, hgh, hm, hmh, hcond⟩ := forkPublication_eq_some.1 h
  refine forkPublication_eq_some.2 ⟨gh, m, mh, ?_, ?_, ?_, ?_, hcond⟩
  · rw [view_same hfol fun _ => covers_publication hrow _ _, hp]
  · rw [view_same hfol fun _ => covers_row hrow _, hgh]
  · rw [view_same hfol fun _ => covers_share hshare _, hm]
  · rw [view_same hfol fun hk => ?_, hmh]
    rw [get_append_of_notMem hk] at hmh
    rw [hmh]
    exact covers_head (hcond.2.2.2.1.symm ▸ hF.fence _ howner)

/-- What a call to fork holds of its source: shared, with the consent's Goal locked. -/
structure Sourced (H : Hash) (permit : ForkCommandPermit) (roles : Uuid → Option Role)
    (owners : List Uuid) (goals : List (Uuid × Uuid)) (consent : Option (Uuid × Uuid))
    (st : Stand Row Lock) : Prop where
  fenced : Fenced H permit.scope roles owners goals st
  owner : permit.sourceOwner ∈ owners
  controller : ∀ g ∈ consent, g.2 ∈ owners
  goal : ∀ g ∈ consent, g ∈ goals
  share : .share (.memory permit.source) ∈ st.held

variable {consent : Option (Uuid × Uuid)}

lemma Sourced.later (h : Sourced H permit roles owners goals consent st)
    (hheld : st.held ⊆ st'.held) (hseen : st.seen ⊆ st'.seen) :
    Sourced H permit roles owners goals consent st' :=
  { h with fenced := h.fenced.later hheld hseen, share := hheld h.share }

lemma wp_consented (kind : Memory.MemoryKind) (hS : Sourced H permit roles owners goals consent st)
    (hw : Neutral st.writes) {Q : Post (List (ℕ × ℕ))}
    (h : ∀ checks st', st'.Extends st → (∀ d checks', checks ⊆ checks' →
      (system H).Possible st' d → permit.sameOwnerDestination = true ∨
        Consented (st.writes ++ d) permit (access kind) checks') → Q checks st') :
    (system H).Wp (consented permit roles consent (access kind)) Q st := by
  simp only [consented, wp_bind, wp_clocks, wp_ite, wp_pure]
  refine fun clock => ⟨fun _ => ?_, fun hno => ?_⟩
  · simp only [checkForkConsent, wp_bind, wp_orFail, wp_view, wp_failIf]
    rintro ⟨goal, controller⟩ hconsent dv _ gh hgh hpub
    obtain ⟨hgh, hcontroller⟩ := Option.filter_eq_some_iff.1 hgh
    simp only [Bool.not_eq_false, Option.any_eq_true, decide_eq_true_eq] at hpub
    obtain ⟨p, hp, hpowner⟩ := hpub
    have hgoal := hS.goal _ hconsent
    have hrow := hS.fenced.goal _ hgoal
    refine wp_roleForGoal fun clock' dr _ hmay => ?_
    refine h _ _ ((Stand.Extends.see _ _).trans (.see _ _)) fun d checks' hsub hd => .inr (.inr ?_)
    simp only [possible_see, Stand.held_see] at hd
    refine ⟨goal, controller, gh, p, ?_, by simpa using hcontroller,
      hS.fenced.forkPublication hgoal (hpowner ▸ hS.owner) hS.share hd.2.1 hp, hpowner, clock',
      hsub (List.mem_singleton_self _), ?_⟩
    · rw [view_same hd.2.1 fun _ => covers_row hrow _, hgh]
    · rw [← hS.fenced.goalRole hw hd.2.2 (hS.controller _ hconsent) hrow hd.1]
      simpa using hmay
  · refine h _ _ (.refl st) fun d checks' hsub hd => ?_
    rw [not_and_or, Bool.not_eq_false, Bool.not_eq_false] at hno
    refine hno.imp id fun hadmin => .inl ⟨clock, hsub (List.mem_singleton_self _), ?_⟩
    rw [← sourceAdmin_congr _ (hS.fenced.role hw hd hS.owner)]
    exact hadmin

/-! ### The destination -/

lemma wp_checkDestination (kind : Memory.MemoryKind)
    (hF : Fenced H permit.scope roles owners goals st) (hw : Neutral st.writes)
    (howner : permit.destination.targetOwner ∈ owners)
    (hgoals : goalDestination permit.destination ⊆ goals)
    {Q : Post (ℕ × ℕ)}
    (h : ∀ clock st', st'.Extends st → (∀ d checks, clock ∈ checks →
      (system H).Possible st' d → DestinationWritable (st.writes ++ d) permit kind checks) →
      Q clock st') : (system H).Wp (checkDestination permit roles (access kind)) Q st := by
  simp only [checkDestination, wp_bind, wp_clocks, wp_failIf, wp_pure]
  unfold destinationRole
  unfold DestinationWritable at h
  split
  · rename_i owner hdest
    simp only [hdest, ForkDestinationPermit.targetOwner] at h howner
    simp only [wp_bind, wp_clocks, wp_pure]
    intro clock clock' hmay
    refine h clock st (.refl st) fun d checks hclock hd => ⟨clock, hclock, ?_⟩
    rw [not_or, Bool.not_eq_false] at hmay
    rw [← currentRole_congr _ (hF.role hw hd howner)]
    exact hmay.2
  · rename_i command hdest
    simp only [hdest, ForkDestinationPermit.targetOwner, goalDestination] at h howner hgoals
    have hrow := hF.goal _ (hgoals List.mem_cons_self)
    simp only [wp_bind, wp_view, wp_orFail, wp_failIf]
    intro dv _ head hhead hactive
    obtain ⟨hhead, hheadowner⟩ := Option.filter_eq_some_iff.1 hhead
    refine wp_roleForGoal fun clock dr _ clock' hmay => ?_
    refine h clock _ ((Stand.Extends.see _ _).trans (.see _ _)) fun d checks hclock hd => ?_
    simp only [possible_see, Stand.held_see] at hd
    refine ⟨head, ?_, by simpa using hheadowner, ?_, clock, hclock, ?_⟩
    · rw [view_same hd.2.1 fun _ => covers_row hrow _, hhead]
    · rw [goalState_neutral hw]
      rw [goalState_neutral hw, not_not] at hactive
      exact goalState_of_follows hd.2.1 hactive
    · rw [not_or, Bool.not_eq_false] at hmay
      rw [← hF.goalRole hw hd.2.2 howner hrow hd.1]
      exact hmay.2

/-! ### The copy -/

lemma wp_bindFork {handle subject : Uuid} (hrow : .row (.goalHead goal) ∈ st.held)
    (hbinds : ∀ d, (system H).Possible st d →
      workBinding (st.writes ++ d) goal handle subject
        (fun mh gh => mh.ownerId = gh.ownerId) ≠ none)
    {Q : Post Unit}
    (h : ∀ st', Binds H goal handle subject (fun mh gh => mh.ownerId = gh.ownerId) true st st' →
      Q () st') : (system H).Wp (bindFork goal handle subject) Q st := by
  simp only [bindFork, wp_bind, wp_lock, wp_view, wp_failIf, Stand.writes_lock]
  intro db hdb hnone
  split
  · rename_i row hsome
    exact wp_insertBinding hrow (by simpa using hnone) hsome h
  · rename_i hno
    exact absurd hno (hbinds db hdb)

/-- What is known when the rows of a copy stand. -/
structure ForkRows (H : Hash) (permit : ForkCommandPermit) (kind : Memory.MemoryKind) (t : Uuid)
    (st st' : Stand Row Lock) : Prop where
  held : st.held ⊆ st'.held
  seen : st.seen ⊆ st'.seen
  neutral : Neutral st'.writes
  admitted : ∀ d, (system H).Possible st' d →
    Admitted permit.destination.targetOwner t t kind d (st'.writes ++ d)
  fresh : ∀ d, (system H).Possible st' d → get d (.memoryHead t) = none
  binding : ∀ d, (system H).Possible st' d → ∀ goal ∈ goalDestination permit.destination,
    NewBinding goal.1 t permit.scope.roles.subject d (st'.writes ++ d)
  only : ∀ d, Only ([.memory t, .memoryHead t] ++ bindingKey permit.destination t) d
    (st'.writes ++ d)

variable {t : Uuid}

/-- A copy to an owner. -/
lemma forkRows_of_admits {owner : Uuid} (hdest : permit.destination = .owner owner)
    (hA : Admits H permit.destination.targetOwner t t kind true none st st') :
    ForkRows H permit kind t st st' where
  held := hA.held
  seen := hA.seen
  neutral := hA.writes ▸ neutral_admission
  admitted := fun _ hd => hA.writes ▸ hA.admitted hd
  fresh := hA.found
  binding := fun _ _ goal hgoal => by
    rw [hdest] at hgoal
    cases hgoal
  only := fun d k hk => by
    simp only [List.cons_append, List.nil_append, List.mem_cons, not_or] at hk
    rw [hA.writes]
    exact get_admission_of_ne hk.1 hk.2.1

/-- A copy to a Goal, bound to it. -/
lemma forkRows_of_binds {command : GoalCommandPermit} {st'' : Stand Row Lock}
    (hdest : permit.destination = .workingGoal command)
    (hrow : .row (.goalHead command.goal) ∈ st.held)
    (hA : Admits H permit.destination.targetOwner t t kind true none st st')
    (hB : Binds H command.goal t permit.scope.roles.subject (fun mh gh => mh.ownerId = gh.ownerId)
      true st' st'') : ForkRows H permit kind t st st'' := by
  have hpossible : ∀ d, (system H).Possible st'' d → (system H).Possible st' d :=
    fun d hd p hp => hd p (hB.seen hp)
  obtain ⟨db, hfol, ⟨-, hmust, -⟩ | ⟨row, hw, hnone, hsome⟩⟩ := hB.writes
  · cases hmust
  rw [hA.writes] at hw hnone hsome
  refine {
    held := List.Subset.trans hA.held hB.held
    seen := List.Subset.trans hA.seen hB.seen
    neutral := hw ▸ neutral_cons_binding neutral_admission
    admitted := fun d hd => ?_
    fresh := fun d hd => hA.found d (hpossible d hd)
    binding := fun d hd goal hgoal => ?_
    only := fun d k hk => ?_ }
  · rw [hw]
    exact (hA.admitted (hpossible d hd)).cons_binding
  · rw [hdest] at hgoal
    obtain rfl := List.mem_singleton.1 hgoal
    rw [hw]
    exact newBinding_of_inserted (hA.held hrow) hA.lock (hfol d hd) hnone hsome
      fun mh gh _ hadmit => of_decide_eq_true hadmit
  · simp only [bindingKey, hdest, goalDestination, List.map_cons, List.map_nil, List.cons_append,
      List.nil_append] at hk
    have hne : k ≠ .goalWorkBinding command.goal t := fun heq => hk (by simp [heq])
    rw [hw, List.cons_append, get_cons_ne _ _ hne]
    exact only_admission k hk

lemma wp_admitFork (hw : st.writes = []) (hgoals : ∀ g ∈ goalDestination permit.destination,
      .row (.goalHead g.1) ∈ st.held ∧ ∀ d, (system H).Possible st d →
        ∃ gh, get d (.goalHead g.1) = some gh ∧ gh.ownerId = g.2)
    {Q : Post Bool} (hreplay : Q false st)
    (h : ∀ st', ForkRows H permit kind t st st' → Q true st') :
    (system H).Wp (admitFork H permit kind t) Q st := by
  simp only [admitFork, wp_bind, wp_call, wp_ite, wp_probe, wp_pure]
  refine fun x _ => ⟨fun _ => hreplay, fun _ => ?_⟩
  refine wp_admitVersion hw fun st₁ head hA => ?_
  obtain rfl := hA.isNew rfl
  split
  · rename_i owner hdest
    exact h st₁ (forkRows_of_admits hdest hA)
  · rename_i command hdest
    obtain ⟨hrow, hgoal⟩ :=
      hgoals (command.goal, command.controller) (by simp [hdest, goalDestination])
    rw [wp_bind]
    refine wp_bindFork (hA.held hrow) (fun d hd => ?_)
      fun st₂ hB => h st₂ (forkRows_of_binds hdest hrow hA hB)
    -- the copy and its Goal have one owner, so there is a row to insert
    obtain ⟨gh, hgh, howner⟩ := hgoal d fun p hp => hd p (hA.seen hp)
    exact hA.workBinding hd hgh fun mh hmh => by
      simp [hmh, howner, hdest, ForkDestinationPermit.targetOwner]

/-- What the last checks of a fork have established of the tables they leave. -/
structure Rechecked (permit : ForkCommandPermit) (kind : Memory.MemoryKind) (checks : List (ℕ × ℕ))
    (after : Tables) : Prop where
  writable : DestinationWritable after permit kind checks
  source : Readable after permit.scope checks ⟨access kind, permit.source⟩
  consented : permit.sameOwnerDestination = true ∨ Consented after permit (access kind) checks

/-- The source, the destination and the consent are checked once more, where the rows stand. -/
lemma wp_recheck {sources : List Source} (hS : Sourced H permit roles owners goals consent st)
    (hw : Neutral st.writes) (hwithin : ∀ s ∈ sources, Within owners goals s)
    (hshare : ∀ s ∈ sources, s.kind ≠ .goal → .share (.memory s.id) ∈ st.held)
    (howner : permit.destination.targetOwner ∈ owners)
    (hdest : goalDestination permit.destination ⊆ goals)
    {Q : List (ℕ × ℕ) → ℕ × ℕ → List (ℕ × ℕ) → Stand Row Lock → Prop}
    (h : ∀ checks clock consents st', st'.Extends st → (∀ d, (system H).Possible st' d →
      Rechecked permit kind (checks ++ clock :: consents) (st.writes ++ d)) →
      Q checks clock consents st') :
    (system H).Wp (revalidate sources permit.scope roles [⟨access kind, permit.source⟩])
      (fun checks => (system H).Wp (checkDestination permit roles (access kind)) fun clock =>
        (system H).Wp (consented permit roles consent (access kind)) (Q checks clock)) st := by
  refine wp_revalidate hS.fenced hw hwithin
    fun clock dv checks st₁ hst₁ hfound hcomplete hchecked => ?_
  have hst₁' : st₁.Extends st := hst₁.trans (.see _ _)
  have hS₁ := hS.later hst₁'.held hst₁'.seen
  refine wp_checkDestination kind hS₁.fenced (hst₁'.writes ▸ hw) howner hdest
    fun clock' st₂ hst₂ hwritable => ?_
  have hst₂' : st₂.Extends st := hst₂.trans hst₁'
  refine wp_consented kind (hS₁.later hst₂.held hst₂.seen) (hst₂'.writes ▸ hw)
    fun consents st₃ hst₃ hconsented => h _ _ _ st₃ (hst₃.trans hst₂') fun d hd => ?_
  have hd₂ := hd.of_extends hst₃
  rw [hst₁'.writes] at hwritable
  rw [hst₂'.writes] at hconsented
  exact {
    writable := hwritable d _ (by simp) hd₂
    source := Readable.mono (readable_of_revalidated hS.fenced hwithin hshare hfound hcomplete
      hchecked hst₁ (hd₂.of_extends hst₂) (List.mem_singleton_self _)) (List.subset_append_left _ _)
    consented := hconsented d _ (fun c hc => by simp [hc]) hd }

/-- A destination that can be written to is there, and controlled as the permit says. -/
lemma DestinationWritable.goalHead {checks : List (ℕ × ℕ)} {g : Uuid × Uuid}
    (h : DestinationWritable d permit kind checks) (hg : g ∈ goalDestination permit.destination) :
    ∃ gh, get d (.goalHead g.1) = some gh ∧ gh.ownerId = g.2 := by
  unfold DestinationWritable at h
  cases hpd : permit.destination with
  | owner o => simp [hpd, goalDestination] at hg
  | workingGoal command =>
    obtain rfl : g = (command.goal, command.controller) := by simpa [hpd, goalDestination] using hg
    rw [hpd] at h
    obtain ⟨gh, hgh, hghowner, -⟩ := h
    exact ⟨gh, hgh, hghowner⟩

/-- **A fork is made on current authority**, and with the consent of the owner it names. -/
theorem correct_forkMemory (source : Uuid) (permit : ForkCommandPermit) (t : Uuid) :
    (system H).Correct (.forkMemory source permit t) := by
  change (system H).Wp (forkOnce H source permit t) _ _
  simp only [forkOnce, wp_bind, wp_failIf]
  intro hsource
  rw [not_not] at hsource
  refine wp_loadForkSource rfl fun kind consent dl m st₁ hst₁ hm howner => ?_
  have hw₁ : st₁.writes = [] := hst₁.writes
  refine wp_discover fun clock dv _ hcomplete => ?_
  generalize hfound : endpointSources _ _ _ = sources at hcomplete ⊢
  refine wp_fencedRoles fun st₂ dr hst₂ hfence hauth _ _ => ?_
  refine wp_lockGoalFootprint fun st₃ hst₃ hrows => ?_
  simp only [Stand.writes_see, hw₁, List.nil_append]
  have hF := Fenced.of_locked permit.scope hfence hauth hst₃ hrows
  have hst₃₁ : st₃.Extends st₁ := hst₃.trans ((Stand.Extends.see _ _).trans (hst₂.trans (.see _ _)))
  have hw₃ : st₃.writes = [] := hst₃₁.writes.trans hw₁
  have hwithin : ∀ s ∈ sources, Within
      (sourceOwners sources ++ [permit.sourceOwner, permit.destination.targetOwner] ++
        (consent.map Prod.snd).toList)
      (goalRoutes sources ++ consent.toList ++ goalDestination permit.destination) s :=
    within_sources (by simp) (by simp)
  have hdest : goalDestination permit.destination ⊆
    goalRoutes sources ++ consent.toList ++ goalDestination permit.destination := by simp
  refine wp_revalidate hF (hw₃ ▸ neutral_nil) hwithin
    fun clock₁ dv₁ checks₁ st₄ hst₄ _ _ hchecked₁ => ?_
  have hst₄₃ : st₄.Extends st₃ := hst₄.trans (.see _ _)
  have hw₄ : st₄.writes = [] := hst₄₃.writes.trans hw₃
  -- the source is one of those that are shared
  have hshare : .share (.memory permit.source) ∈ st₄.held := by
    obtain ⟨s, hs, hid, hkind⟩ := hcomplete ⟨access kind, permit.source⟩ (List.mem_singleton_self _)
    rw [← show s.id = permit.source from hid]
    exact (hchecked₁ s hs).share (hkind ▸ access_ne_goal kind)
  have hS₄ : Sourced H permit _ _ _ consent st₄ :=
    ⟨hF.later hst₄₃.held hst₄₃.seen, by simp, by simp +contextual, by simp +contextual, hshare⟩
  refine wp_checkDestination kind hS₄.fenced (hw₄ ▸ neutral_nil) (by simp) hdest
    fun _ st₅ hst₅ hwritable₅ => ?_
  have hw₅ : st₅.writes = [] := hst₅.writes.trans hw₄
  have hS₅ := hS₄.later hst₅.held hst₅.seen
  refine wp_consented kind hS₅ (hw₅ ▸ neutral_nil) fun _ st₆ hst₆ _ => ?_
  have hw₆ : st₆.writes = [] := hst₆.writes.trans hw₅
  have hS₆ := hS₅.later hst₆.held hst₆.seen
  have hshared : ∀ s ∈ sources, s.kind ≠ .goal → .share (.memory s.id) ∈ st₆.held :=
    fun s hs hkind => hst₆.held (hst₅.held ((hchecked₁ s hs).share hkind))
  refine wp_admitFork hw₆ (fun g hg => ⟨hS₆.fenced.goal _ (hdest hg), fun d hd => ?_⟩) ?_
    fun st₇ hrows₇ => ?_
  · have hwritable := hwritable₅ d _ (List.mem_singleton_self _) (hd.of_extends hst₆)
    rw [hw₄, List.nil_append] at hwritable
    exact hwritable.goalHead hg
  · -- a replay writes nothing
    refine wp_recheck hS₆ (hw₆ ▸ neutral_nil) hwithin hshared (by simp) hdest
      fun checks clock consents st₇ hst₇ _ d _ _ _ => ⟨hsource, .inl ⟨rfl, fun k _ => ?_⟩⟩
    rw [hst₇.writes, hw₆, List.nil_append]
  · refine wp_recheck (hS₆.later hrows₇.held hrows₇.seen) hrows₇.neutral hwithin
      (fun s hs hkind => hrows₇.held (hshared s hs hkind)) (by simp) hdest
      fun checks clock consents st₈ hst₈ hrechecked d during hd hseen => ?_
    have hd₇ := hd.of_extends hst₈
    have hpast : during dl := by
      have hmem : ([], dl) ∈ st₁.seen := hst₁.seen List.mem_cons_self
      exact hseen _ (hst₈.seen (hrows₇.seen (hst₆.seen (hst₅.seen (hst₄₃.seen (hst₃₁.seen hmem))))))
    obtain ⟨hwritable, hsource', hconsented⟩ := hrechecked d hd
    rw [hst₈.writes]
    exact ⟨hsource, .inr ⟨_, kind, rfl, {
      admitted := hrows₇.admitted d hd₇
      fresh := hrows₇.fresh d hd₇
      binding := hrows₇.binding d hd₇
      only := hrows₇.only d
      writable := hwritable
      source := hsource'
      owner := ⟨dl, m, hpast, hm, howner⟩
      consented := hconsented }⟩⟩

/-! ### All commands -/

/-- **Every command commits into its effect.** -/
theorem correct (c : Command) : (system H).Correct c := by
  cases c with
  | grantAccess input permit => exact correct_grantAccess input permit
  | revokeAccess goal subject permit => exact correct_revokeAccess goal subject permit
  | publish input permit source => exact correct_publish input permit source
  | unpublish goal memory permit => exact correct_unpublish goal memory permit
  | bindWork input permit source => exact correct_bindWork input permit source
  | unbindWork input permit => exact correct_unbindWork input permit
  | authorWorkMemory req permit t => exact correct_authorWorkMemory req permit t
  | forkMemory source permit t => exact correct_forkMemory source permit t
  | admitMemory owner handle t kind fresh => exact correct_admitMemory owner handle t kind fresh
  | setForgotten owner t forgotten => exact correct_setForgotten owner t forgotten
  | transferToOwner fromOwner toOwner t => exact correct_transferToOwner fromOwner toOwner t
  | createGoal owner handle t => exact correct_createGoal owner handle t
  | transitionGoal owner handle t state => exact correct_transitionGoal owner handle t state
  | setRole subject owner role => exact correct_setRole subject owner role

/-- The committed history of the tables is a run of the commands' effects. -/
theorem run_of_reachable {s : State Row Lock StorageError Input Unit Command Response}
    (hs : Reachable (system H).toSystem () s) : Run (system H).Effect s.db s.hist :=
  Guarded.run_of_reachable correct hs

end Proxiima.Collaboration
