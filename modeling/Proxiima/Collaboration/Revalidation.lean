import Proxiima.Collaboration.Rules

/-!
# What revalidation shows

Under the fences of the owners and the locks of the Goals it discovered, a call that finds its
sources unchanged and readable knows them so in the state it commits in.
-/

namespace Proxiima.Collaboration

open ReadCommitted ReadCommitted.Guarded Authz Prog

variable {H : Hash} {ls : List Lock} {st st' : Stand Row Lock} {ws d dv : Tables}
variable {scope : OwnerScope} {roles : Uuid → Option Role} {owners : List Uuid}
variable {goals : List (Uuid × Uuid)} {checks : List (ℕ × ℕ)}

/-! ### Rows behind own writes -/

lemma view_same (h : (system H).Follows ls dv d) {k : Key}
    (hk : k ∉ ws.keys → (system H).Covers ls k (get dv k)) :
    get (ws ++ d) k = get (ws ++ dv) k := by
  by_cases hmem : k ∈ ws.keys
  · exact get_append_of_mem hmem d dv
  · exact get_append_congr ws (h.same (hk hmem))

/-- The writes of an admission: versions, heads of series and bindings. -/
def Neutral (ws : Tables) : Prop :=
  ∀ k ∈ ws.keys, (∃ t, k = .memory t) ∨ (∃ handle, k = .memoryHead handle) ∨
    ∃ goal handle, k = .goalWorkBinding goal handle

lemma neutral_nil : Neutral [] := fun _ hk => nomatch hk

lemma effectiveRole_neutral (h : Neutral ws) (subject owner : Uuid) :
    effectiveRole (ws ++ d) subject owner = effectiveRole d subject owner := by
  have hk : Key.role subject owner ∉ ws.keys := fun hk => by simpa using h _ hk
  rw [effectiveRole, effectiveRole, get_append_of_notMem hk]

lemma get_goal_of_neutral (h : Neutral ws) {k : Key}
    (hk : (∃ g, k = .goalHead g) ∨ ∃ t, k = .goal t) : get (ws ++ d) k = get d k := by
  refine get_append_of_notMem fun hmem => ?_
  rcases hk with ⟨g, rfl⟩ | ⟨t, rfl⟩ <;> simpa using h _ hmem

lemma goalState_neutral (h : Neutral ws) (goal : Uuid) (head : GoalHead) :
    goalState (ws ++ d) goal head = goalState d goal head := by
  rw [goalState, goalState, get_goal_of_neutral h (.inr ⟨_, rfl⟩)]

variable {roles' : Uuid → Option Role}

lemma currentRole_congr {owner : Uuid} (now : ℕ) (h : roles owner = roles' owner) :
    currentRole now scope roles owner = currentRole now scope roles' owner := by
  rw [currentRole, currentRole, h]

lemma sourceAdmin_congr {owner : Uuid} (now : ℕ) (h : roles owner = roles' owner) :
    sourceAdmin now scope roles owner = sourceAdmin now scope roles' owner := by
  rw [sourceAdmin, sourceAdmin, currentRole_congr now h]

variable {checks' : List (ℕ × ℕ)} {s : Source} {Q : Post (List (ℕ × ℕ))}

lemma Readable.mono {e : EdgeEndpoint} (h : Readable d scope checks e) (hsub : checks ⊆ checks') :
    Readable d scope checks' e := by
  rcases h with ⟨m, hm, hlive, hkind, hread⟩ | ⟨hkind, g, hg, hread⟩
  · refine .inl ⟨m, hm, hlive, hkind, hread.imp ?_ ?_⟩
    · rintro ⟨clock, hclock, hmay⟩
      exact ⟨clock, hsub hclock, hmay⟩
    · rintro ⟨clock, hclock, r, hr, ht, clock', hclock', hrest⟩
      exact ⟨clock, hsub hclock, r, hr, ht, clock', hsub hclock', hrest⟩
  · refine .inr ⟨hkind, g, hg, hread.imp ?_ ?_⟩
    · rintro ⟨clock, hclock, hmay⟩
      exact ⟨clock, hsub hclock, hmay⟩
    · rintro ⟨clock, hclock, hrest⟩
      exact ⟨clock, hsub hclock, hrest⟩

/-! ### Fences -/

/-- What a call holds once it has fenced its owners and locked its Goals, and what it knows
of the caller's roles. -/
structure Fenced (H : Hash) (scope : OwnerScope) (roles : Uuid → Option Role)
    (owners : List Uuid) (goals : List (Uuid × Uuid)) (st : Stand Row Lock) : Prop where
  fence : ∀ o ∈ owners, .advisory (H (.ownerFence o)) false ∈ st.held
  goal : ∀ g ∈ goals, .row (.goalHead g.1) ∈ st.held
  roles : ∀ d, (system H).Possible st d → ∀ o ∈ owners,
    roles o = effectiveRole d scope.roles.subject o

section

variable (h : Fenced H scope roles owners goals st)
include h

lemma Fenced.later (hheld : st.held ⊆ st'.held) (hseen : st.seen ⊆ st'.seen) :
    Fenced H scope roles owners goals st' :=
  ⟨fun o ho => hheld (h.fence o ho), fun g hg => hheld (h.goal g hg),
    fun d hd => h.roles d fun p hp => hd p (hseen hp)⟩

lemma Fenced.role (hw : Neutral ws) (hd : (system H).Possible st d) {o : Uuid}
    (ho : o ∈ owners) : roles o = effectiveRole (ws ++ d) scope.roles.subject o := by
  rw [effectiveRole_neutral hw]
  exact h.roles d hd o ho

/-- The caller's role on a locked Goal is still what it was when it was read. -/
lemma Fenced.goalRole (hw : Neutral ws) (hd : (system H).Possible st d)
    {goal controller : Uuid} (howner : controller ∈ owners) (hrow : .row (.goalHead goal) ∈ ls)
    (hfol : (system H).Follows ls dv d) (clock : ℕ × ℕ) (generation : ℕ) :
    goalRole (ws ++ dv) clock scope roles goal controller generation =
      goalRole (ws ++ d) clock scope (effectiveRole (ws ++ d) scope.roles.subject) goal controller
        generation := by
  rw [Collaboration.goalRole, Collaboration.goalRole, currentRole_congr _ (h.role hw hd howner)]
  unfold grantRole
  rw [view_same hfol fun _ => covers_grant hrow _ _]

end

/-- Roles read under the fences and authority locks of their owners are the current ones. -/
lemma Fenced.of_locked (scope : OwnerScope) {dr : Tables} (hfence : fences H false owners ⊆ st.held)
    (hauth : authorities H owners ⊆ st.held) (hst : st'.Extends (st.see dr))
    (hrows : ∀ g ∈ goals, .row (.goalHead g.1) ∈ st'.held) :
    Fenced H scope (effectiveRole dr scope.roles.subject) owners goals st' := by
  refine ⟨fun o ho => hst.held (hfence (fence_mem ho)), hrows, fun d hd o ho => ?_⟩
  have hfol := (possible_see.1 (hd.of_extends hst)).1
  have hrole : get d (.role scope.roles.subject o) = get dr (.role scope.roles.subject o) :=
    hfol.same (covers_role (hauth (authority_mem ho)) _)
  simp only [effectiveRole, hrole]

/-! ### One source -/

/-- The caller's role on the Goal may read the kind. -/
def GoalReads (db : Tables) (scope : OwnerScope) (checks : List (ℕ × ℕ)) (kind : AccessKind)
    (goal controller : Uuid) : Prop :=
  ∃ clock ∈ checks, ∃ gh, get db (.goalHead goal) = some gh ∧ gh.ownerId = controller ∧
    (Collaboration.goalRole db clock scope (effectiveRole db scope.roles.subject) goal controller
      gh.authorityGeneration).any (·.mayRead kind) = true

/-- The caller's role on the owner may read the kind. -/
def OwnerReads (db : Tables) (scope : OwnerScope) (checks : List (ℕ × ℕ)) (kind : AccessKind)
    (owner : Uuid) : Prop :=
  ∃ clock ∈ checks, (currentRole clock.1 scope (effectiveRole db scope.roles.subject) owner).any
    (·.mayRead kind) = true

/-- The caller may read the source, by its owner or by its route. -/
def SourceReads (db : Tables) (scope : OwnerScope) (checks : List (ℕ × ℕ)) (s : Source) : Prop :=
  OwnerReads db scope checks s.kind s.owner ∨
    ∃ goal controller, s.route = some (goal, controller) ∧
      GoalReads db scope checks s.kind goal controller

lemma SourceReads.mono (h : SourceReads d scope checks s) (hsub : checks ⊆ checks') :
    SourceReads d scope checks' s := by
  refine h.imp ?_ ?_
  · rintro ⟨clock, hclock, hrest⟩
    exact ⟨clock, hsub hclock, hrest⟩
  · rintro ⟨goal, controller, hroute, clock, hclock, hrest⟩
    exact ⟨goal, controller, hroute, clock, hsub hclock, hrest⟩

/-- The owners and the Goals of a source are fenced and locked. -/
structure Within (owners : List Uuid) (goals : List (Uuid × Uuid)) (s : Source) : Prop where
  owner : s.owner ∈ owners
  controller : ∀ g ∈ s.route, g.2 ∈ owners
  goal : ∀ g ∈ s.route, g ∈ goals

lemma wp_routeRead (hF : Fenced H scope roles owners goals st) (hw : Neutral st.writes)
    (hs : Within owners goals s) {Q : Post (List (ℕ × ℕ) × Bool)}
    (h : ∀ checks read st', st'.Extends st → (read = true → ∀ d, (system H).Possible st' d →
      ∃ goal controller, s.route = some (goal, controller) ∧
        GoalReads (st.writes ++ d) scope checks s.kind goal controller) → Q (checks, read) st') :
    (system H).Wp (routeRead scope roles s.kind s.route) Q st := by
  cases hroute : s.route with
  | none => exact h [] false st (.refl st) fun hread => nomatch hread
  | some g =>
    obtain ⟨goal, controller⟩ := g
    have hrow := hF.goal _ (hs.goal _ hroute)
    simp only [routeRead, wp_bind, wp_view, wp_orFail]
    intro d₁ _ gh hgh
    obtain ⟨hgh, howner⟩ := Option.filter_eq_some_iff.1 hgh
    refine wp_roleForGoal fun clock d₂ _ => ?_
    refine h [clock] _ _ ((Stand.Extends.see _ _).trans (.see _ _)) fun hread d hd => ?_
    simp only [possible_see, Stand.held_see] at hd
    refine ⟨goal, controller, hroute, clock, List.mem_singleton_self _, gh, ?_,
      by simpa using howner, ?_⟩
    · rw [view_same hd.2.1 fun _ => covers_row hrow _, hgh]
    · rw [← hF.goalRole hw hd.2.2 (hs.controller _ hroute) hrow hd.1]
      exact hread

/-- A live version of the source, with its owner. -/
def SourceLives (db : Tables) (s : Source) : Prop :=
  ∃ m, get db (.memory s.id) = some m ∧ m.forgotten = false ∧ m.ownerId = s.owner

lemma wp_shareSource {Q : Post Unit}
    (h : ∀ st', st'.Extends st → (s.kind ≠ .goal → .share (.memory s.id) ∈ st'.held ∧
      ∀ d, (system H).Possible st' d → SourceLives (st.writes ++ d) s) → Q () st') :
    (system H).Wp (shareSource s) Q st := by
  unfold shareSource
  split
  · rename_i hgoal
    exact h st (.refl st) fun hne => absurd hgoal hne
  · simp only [wp_bind, wp_lock, wp_view, wp_failIf, Stand.writes_lock]
    intro d₁ _ hlive
    refine h _ ((Stand.Extends.see _ _).trans (.lock _ _)) fun _ => ⟨by simp, fun d hd => ?_⟩
    obtain ⟨m, hm, howner⟩ := Option.map_eq_some_iff.1 (not_not.1 hlive)
    obtain ⟨hm, hforgotten⟩ := Option.filter_eq_some_iff.1 hm
    refine ⟨m, ?_, by simpa using hforgotten, howner⟩
    rw [view_same (possible_see.1 hd).1 fun _ => covers_share List.mem_cons_self _]
    exact hm

/-- What a check of the source shows. -/
structure Checked (H : Hash) (ws : Tables) (scope : OwnerScope) (checks : List (ℕ × ℕ))
    (st : Stand Row Lock) (s : Source) : Prop where
  share : s.kind ≠ .goal → .share (.memory s.id) ∈ st.held
  lives : s.kind ≠ .goal → ∀ d, (system H).Possible st d → SourceLives (ws ++ d) s
  reads : ∀ d, (system H).Possible st d → SourceReads (ws ++ d) scope checks s

lemma Checked.later (h : Checked H ws scope checks st s) (hst : st'.Extends st)
    (hsub : checks ⊆ checks') : Checked H ws scope checks' st' s :=
  ⟨fun hs => hst.held (h.share hs), fun hs d hd => h.lives hs d (hd.of_extends hst),
    fun d hd => (h.reads d (hd.of_extends hst)).mono hsub⟩

lemma wp_checkSource (hF : Fenced H scope roles owners goals st) (hw : Neutral st.writes)
    (hs : Within owners goals s)
    (h : ∀ checks st', st'.Extends st → Checked H st.writes scope checks st' s → Q checks st') :
    (system H).Wp (checkSource scope roles s) Q st := by
  simp only [checkSource, wp_bind, wp_clocks]
  intro clock
  refine wp_routeRead hF hw hs fun checks read st₁ hst₁ hread => wp_failIf.2 fun hmay => ?_
  refine wp_shareSource fun st₂ hst₂ hshare => ?_
  rw [hst₁.writes] at hshare
  refine h _ _ (hst₂.trans hst₁) ⟨fun hk => (hshare hk).1, fun hk => (hshare hk).2, fun d hd => ?_⟩
  rcases not_and_or.1 hmay with howner | hgoal
  · refine .inl ⟨clock, List.mem_cons_self, ?_⟩
    have hd' := (hd.of_extends hst₂).of_extends hst₁
    rw [← currentRole_congr _ (hF.role hw hd' hs.owner)]
    simpa using howner
  · obtain ⟨goal, controller, hroute, clock', hclock, hrest⟩ :=
      hread (by simpa using hgoal) d (hd.of_extends hst₂)
    exact .inr ⟨goal, controller, hroute, clock', List.mem_cons_of_mem _ hclock, hrest⟩

lemma wp_checkSources {sources : List Source} (hF : Fenced H scope roles owners goals st)
    (hw : Neutral st.writes) (hs : ∀ s ∈ sources, Within owners goals s)
    (h : ∀ checks st', st'.Extends st →
      (∀ s ∈ sources, Checked H st.writes scope checks st' s) → Q checks st') :
    (system H).Wp (checkSources scope roles sources) Q st := by
  induction sources generalizing st Q with
  | nil => exact h [] st (.refl st) fun _ hs => nomatch hs
  | cons s sources ih =>
    obtain ⟨hhead, htail⟩ := List.forall_mem_cons.1 hs
    simp only [checkSources, wp_bind]
    refine wp_checkSource hF hw hhead fun checks st₁ hst₁ hchecked => ?_
    refine ih (hF.later hst₁.held hst₁.seen) (hst₁.writes ▸ hw) htail fun rest st₂ hst₂ hrest => ?_
    rw [hst₁.writes] at hrest
    refine h _ _ (hst₂.trans hst₁) (List.forall_mem_cons.2 ⟨?_, fun s' hs' => ?_⟩)
    · exact hchecked.later hst₂ (List.subset_append_left _ _)
    · exact (hrest s' hs').later (.refl st₂) (List.subset_append_right _ _)

/-! ### All sources -/

variable {session : Session} {endpoints : List EdgeEndpoint} {sources : List Source}

lemma mem_endpointSources (h : s ∈ endpointSources d session endpoints) :
    memorySource d session s.id = some s ∨ goalSource d session s.id = some s := by
  simp only [endpointSources, List.mem_insertionSort, List.mem_append, List.mem_filterMap] at h
  rcases h with ⟨t, -, ht⟩ | ⟨t, -, ht⟩
  · left
    obtain ⟨m, -, hif⟩ := Option.bind_eq_some_iff.1 ht
    obtain ⟨-, heq⟩ := Option.ite_none_right_eq_some.1 hif
    obtain rfl := Option.some.inj heq
    exact ht
  · right
    obtain ⟨g, -, hif⟩ := Option.bind_eq_some_iff.1 ht
    obtain ⟨-, heq⟩ := Option.ite_none_right_eq_some.1 hif
    obtain rfl := Option.some.inj heq
    exact ht

lemma memorySource_eq_some {t : Uuid} (h : memorySource d session t = some s) :
    ∃ m, get d (.memory t) = some m ∧ m.forgotten = false ∧
      s = ⟨t, m.ownerId, access m.kind, firstRoute (routesTo d session t)⟩ := by
  obtain ⟨m, hm, hif⟩ := Option.bind_eq_some_iff.1 h
  obtain ⟨hcond, heq⟩ := Option.ite_none_right_eq_some.1 hif
  exact ⟨m, hm, hcond.1, (Option.some.inj heq).symm⟩

lemma goalSource_eq_some {t : Uuid} (h : goalSource d session t = some s) :
    ∃ g, get d (.goal t) = some g ∧ s = ⟨t, g.ownerId, .goal, some (g.handle, g.ownerId)⟩ := by
  obtain ⟨g, hg, hif⟩ := Option.bind_eq_some_iff.1 h
  obtain ⟨-, heq⟩ := Option.ite_none_right_eq_some.1 hif
  exact ⟨g, hg, (Option.some.inj heq).symm⟩

lemma firstRoute_eq_some {routes : List Route} {goal controller : Uuid}
    (h : firstRoute routes = some (goal, controller)) :
    ∃ r ∈ routes, r.goalHandle = goal ∧ r.controllerOwner = controller := by
  obtain ⟨r, hr, heq⟩ := Option.map_eq_some_iff.1 h
  exact ⟨r, List.argmin_mem hr, (Prod.mk.inj heq).1, (Prod.mk.inj heq).2⟩

lemma access_ne_goal (kind : Memory.MemoryKind) : access kind ≠ .goal := by
  cases kind <;> simp [access]

lemma wp_discover {Q : Post ((ℕ × ℕ) × List Source)}
    (h : ∀ clock dv, (system H).Possible st dv →
      Complete (endpointSources (st.writes ++ dv) (scopeSession scope clock) endpoints) endpoints →
      Q (clock, endpointSources (st.writes ++ dv) (scopeSession scope clock) endpoints)
        (st.see dv)) :
    (system H).Wp (discover scope endpoints) Q st := by
  simp only [discover, wp_bind, wp_clocks, wp_failIf, wp_view, wp_pure]
  exact fun clock _ dv hdv hcomplete => h clock dv hdv (not_not.1 hcomplete)

section

variable (hF : Fenced H scope roles owners goals st)
include hF

lemma wp_revalidate (hw : Neutral st.writes) (hs : ∀ s ∈ sources, Within owners goals s)
    (h : ∀ clock dv checks st', st'.Extends (st.see dv) →
      sources = endpointSources (st.writes ++ dv) (scopeSession scope clock) endpoints →
      Complete sources endpoints → (∀ s ∈ sources, Checked H st.writes scope checks st' s) →
      Q (clock :: checks) st') :
    (system H).Wp (revalidate sources scope roles endpoints) Q st := by
  simp only [revalidate, wp_bind]
  refine wp_discover fun clock dv _ hcomplete => wp_failIf.2 fun hsame => ?_
  have heq := not_not.1 hsame
  have hF' : Fenced H scope roles owners goals (st.see dv) :=
    hF.later (List.Subset.refl _) (List.subset_cons_self _ _)
  refine wp_checkSources hF' hw hs fun checks st' hst' hchecked => ?_
  exact h clock dv checks st' hst' heq (heq ▸ hcomplete) hchecked

/-- A route that a call found under its locks is open in the state it commits in. -/
lemma Fenced.route {r : Route} {m : MemoryRow} (hr : r ∈ goalMemoryReadRoutes (ws ++ dv) session)
    (hm : get (ws ++ dv) (.memory r.memoryT) = some m) (howner : m.ownerId ∈ owners)
    (hgoal : (r.goalHandle, r.controllerOwner) ∈ goals)
    (hshare : .share (.memory r.memoryT) ∈ st.held) (hfol : (system H).Follows st.held dv d)
    : r ∈ goalMemoryReadRoutes (ws ++ d) session := by
  have hrow := hF.goal _ hgoal
  obtain ⟨gh, m', mh, hreached, -⟩ := mem_routes.1 hr
  obtain rfl := Option.mem_unique hm hreached.memory
  refine route_of_agree hr (view_same hfol fun _ => covers_row hrow _)
    (fun subject => view_same hfol fun _ => covers_grant hrow _ _)
    (view_same hfol fun _ => covers_publication hrow _ _)
    (view_same hfol fun _ => covers_binding hrow _ _)
    (view_same hfol fun _ => covers_share hshare _) (view_same hfol fun hk => ?_)
  have hhead := hreached.head
  rw [get_append_of_notMem hk] at hhead
  rw [hhead]
  exact covers_head (hreached.current.symm ▸ hF.fence _ howner)

/-- **Revalidated sources are readable where the call commits.** -/
theorem readable_of_revalidated (hs : ∀ s ∈ sources, Within owners goals s)
    (hshare : ∀ s ∈ sources, s.kind ≠ .goal → .share (.memory s.id) ∈ st.held) {clock : ℕ × ℕ}
    (hfound : sources = endpointSources (ws ++ dv) (scopeSession scope clock) endpoints)
    (hcomplete : Complete sources endpoints)
    (hchecked : ∀ s ∈ sources, Checked H ws scope checks st' s) (hst : st'.Extends (st.see dv))
    (hd : (system H).Possible st' d) {e : EdgeEndpoint} (he : e ∈ endpoints) :
    Readable (ws ++ d) scope (clock :: checks) e := by
  obtain ⟨s, hmem, hid, hkind⟩ := hcomplete e he
  have hreads := (hchecked s hmem).reads d hd
  have hfol : (system H).Follows st.held dv d := (possible_see.1 (hd.of_extends hst)).1
  rcases mem_endpointSources (hfound ▸ hmem) with hsource | hsource
  · obtain ⟨m, hm, hlive, heq⟩ := memorySource_eq_some hsource
    have hne : s.kind ≠ .goal := by
      rw [heq]
      exact access_ne_goal m.kind
    have hrow : get (ws ++ d) (.memory s.id) = some m := by
      rw [view_same hfol fun _ => covers_share (hshare s hmem hne) _, hm]
    have hsowner : s.owner = m.ownerId := by rw [heq]
    have hskind : s.kind = access m.kind := by rw [heq]
    refine .inl ⟨m, hid ▸ hrow, hlive, by rw [← hkind, hskind], ?_⟩
    rcases hreads with ⟨c, hc, hmay⟩ | ⟨goal, controller, hroute, c, hc, gh, hgh, hcontroller, hmay⟩
    · exact .inl ⟨c, List.mem_cons_of_mem _ hc, by rw [← hsowner, ← hkind]; exact hmay⟩
    · have hfirst : firstRoute (routesTo (ws ++ dv) (scopeSession scope clock) s.id) =
          some (goal, controller) := by
        rw [heq] at hroute
        exact hroute
      obtain ⟨r, hr, rfl, rfl⟩ := firstRoute_eq_some hfirst
      obtain ⟨hr, ht⟩ := List.mem_filter.1 hr
      have ht : r.memoryT = s.id := by simpa using ht
      refine .inr ⟨clock, List.mem_cons_self, r, ?_, ht.trans hid,
        ⟨c, List.mem_cons_of_mem _ hc, gh, hgh, hcontroller, hkind ▸ hmay⟩⟩
      refine hF.route hr (ht ▸ hm) ?_ ((hs s hmem).goal _ hroute) (ht ▸ hshare s hmem hne) hfol
      exact hsowner ▸ (hs s hmem).owner
  · obtain ⟨g, hg, heq⟩ := goalSource_eq_some hsource
    have hsowner : s.owner = g.ownerId := by rw [heq]
    have hskind : s.kind = .goal := by rw [heq]
    have hrow : get (ws ++ d) (.goal s.id) = some g := by
      rw [view_same hfol fun hk => ?_, hg]
      rw [get_append_of_notMem hk] at hg
      exact hg ▸ covers_goal g
    refine .inr ⟨hkind ▸ hskind, g, hid ▸ hrow, ?_⟩
    rcases hreads with ⟨c, hc, hmay⟩ | ⟨goal, controller, hroute, c, hc, gh, hgh, hcontroller, hmay⟩
    · exact .inl ⟨c, List.mem_cons_of_mem _ hc, by rw [← hsowner, ← hkind]; exact hmay⟩
    · rw [heq] at hroute
      obtain ⟨rfl, rfl⟩ := Prod.mk.inj (Option.some.inj hroute)
      exact .inr ⟨c, List.mem_cons_of_mem _ hc, gh, hgh, hcontroller, hkind ▸ hmay⟩

end

end Proxiima.Collaboration
