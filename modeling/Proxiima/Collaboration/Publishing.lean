import Proxiima.Collaboration.RouteHistory
import Proxiima.ReadCommitted.Alone

/-!
# What a publish brings about

A publication that stands under the owner and the generations of its version gives a route to
everyone in the Goal's audience, and the version's owner can withdraw it. A publish leaves such
a row when no publication of the version by an earlier owner stands in its place: the row it
updates keeps the owner it was first recorded for.
-/

namespace Proxiima.Collaboration

open ReadCommitted ReadCommitted.Guarded Authz Prog

variable {H : Hash} {d d' : Tables} {goal t owner : Uuid}

/-- The version of this owner is live, and its publication to the Goal stands under the owner
and generations there are. -/
structure Stands (d : Tables) (goal t owner : Uuid) (p : GoalMemoryPublication) (m : MemoryRow)
    (mh : MemoryHead) (gh : GoalHead) : Prop where
  publication : get d (.goalMemoryPublication goal t) = some p
  memory : get d (.memory t) = some m
  head : get d (.memoryHead m.handle) = some mh
  goalHead : get d (.goalHead goal) = some gh
  live : m.forgotten = false
  memoryOwner : m.ownerId = owner
  headOwner : mh.ownerId = owner
  source : p.sourceOwner = owner
  sourceGeneration : p.sourceGeneration = mh.authorityGeneration
  controllerGeneration : p.controllerGeneration = gh.authorityGeneration

variable {p : GoalMemoryPublication} {m : MemoryRow} {mh : MemoryHead} {gh : GoalHead}

/-- Everyone in the Goal's audience whose ceiling reaches the version has a route to it. -/
lemma Stands.route (h : Stands d goal t owner p m mh gh) {session : Session}
    (hreaches : Reaches d session goal gh m.kind) :
    (⟨t, m.handle, m.ownerId, goal, gh.ownerId⟩ : Route) ∈ goalMemoryReadRoutes d session := by
  refine mem_routes.2
    ⟨gh, m, mh, ⟨h.goalHead, rfl, h.memory, rfl, rfl, h.head, ?_, h.live⟩, hreaches,
    .inl ⟨p, h.publication, h.controllerGeneration, ?_, h.sourceGeneration⟩⟩
  · rw [h.headOwner, h.memoryOwner]
  · rw [h.source, h.headOwner]

/-! ### What ends it -/

/-- The answer withdrew the version from the Goal. -/
def Withdraws (goal t : Uuid) (e : Answer) : Prop :=
  ∃ permit, e.cmd = .unpublish goal t permit ∧ e.result = .ok .done

/-- The answer forgot the version. -/
def Forgets (t : Uuid) (e : Answer) : Prop :=
  ∃ owner, e.cmd = .setForgotten owner t true ∧ e.result = .ok .done

/-- Some publication of a version of the series stands. -/
def StandsIn (d : Tables) (goal t owner handle : Uuid) : Prop :=
  ∃ p m mh gh, Stands d goal t owner p m mh gh ∧ m.handle = handle

/-- The Goal is still there in its generation. -/
def KeepsGoal (d' : Tables) (goal : Uuid) (gh : GoalHead) : Prop :=
  ∃ gh', get d' (.goalHead goal) = some gh' ∧ gh'.authorityGeneration = gh.authorityGeneration

/-- A standing publication stays while its rows do and its Goal keeps its generation. -/
lemma Stands.of_kept (h : Stands d goal t owner p m mh gh) (hgoal : KeepsGoal d' goal gh)
    (hpub : get d' (.goalMemoryPublication goal t) = get d (.goalMemoryPublication goal t))
    (hm : get d' (.memory t) = get d (.memory t))
    (hmh : get d' (.memoryHead m.handle) = get d (.memoryHead m.handle)) :
    StandsIn d' goal t owner m.handle := by
  obtain ⟨gh', hgh', hgen⟩ := hgoal
  exact ⟨p, m, mh, gh', { h with
    publication := hpub.trans h.publication
    memory := hm.trans h.memory
    head := hmh.trans h.head
    goalHead := hgh'
    controllerGeneration := h.controllerGeneration.trans hgen.symm }, rfl⟩

variable {hist : List Answer} {input : GoalPublicationInput} {permit : GoalCommandPermit}
  {source : OwnerWritePermit}

/-- A Goal keeps its generation. -/
lemma keepsGoal_of_effect {e : Answer} (h : (system H).Effect hist e d')
    (hgh : get e.before (.goalHead goal) = some gh) : KeepsGoal d' goal gh := by
  rcases h.row (.goalHead goal) with hsame | hlegal
  · exact ⟨gh, hsame.trans hgh, rfl⟩
  · rw [hgh] at hlegal
    cases hgh' : get d' (.goalHead goal) with
    | none =>
      rw [hgh'] at hlegal
      exact hlegal.elim
    | some gh' =>
      rw [hgh'] at hlegal
      exact ⟨gh', hgh', hlegal.2⟩

variable {handle t' : Uuid} {kind : Memory.MemoryKind} {before after : Tables}

/-- An admission keeps the versions there are. -/
lemma Admitted.ne (h : Admitted owner handle t' kind before after)
    (hm : get before (.memory t) = some m) : t ≠ t' := by
  rintro rfl
  cases h.absent.symm.trans hm

/-- An admission keeps the heads there are. -/
lemma Admitted.head_kept (h : Admitted owner handle t' kind before after)
    (hmh : get before (.memoryHead handle) = some mh) :
    get after (.memoryHead handle) = get before (.memoryHead handle) := by
  rcases h.head with ⟨hnone, -⟩ | ⟨hsame, -⟩
  · cases hnone.symm.trans hmh
  · exact hsame

/-- A standing publication stays beside an admission. -/
lemma Stands.of_admitted {owner' : Uuid} (h : Stands d goal t owner p m mh gh)
    (hgoal : KeepsGoal d' goal gh) (hA : Admitted owner' handle t' kind d d')
    (hpub : get d' (.goalMemoryPublication goal t) = get d (.goalMemoryPublication goal t))
    (hm : t ≠ t' → get d' (.memory t) = get d (.memory t))
    (hmh : m.handle ≠ handle → get d' (.memoryHead m.handle) = get d (.memoryHead m.handle)) :
    StandsIn d' goal t owner m.handle := by
  refine h.of_kept hgoal hpub (hm (hA.ne h.memory)) ?_
  by_cases heq : m.handle = handle
  · rw [heq]
    exact hA.head_kept (heq ▸ h.head)
  · exact hmh heq

section Step

variable {resp : Response} {during : Tables → Prop} (h : Stands d goal t owner p m mh gh)
  (hgoal : KeepsGoal d' goal gh)

include h hgoal

/-- A publish of the same version to the same Goal stamps the row with the generations there are. -/
lemma Stands.publish (hpost : post (.publish input permit source) resp during d d') :
    StandsIn d' goal t owner m.handle := by
  have hkept := fun k hk => kept_of_post hpost (k := k) hk
  have hm := hkept (.memory t) (by simp [Writes])
  have hmh := hkept (.memoryHead m.handle) (by simp [Writes])
  by_cases hkey : goal = permit.goal ∧ t = input.memory
  · obtain ⟨rfl, rfl⟩ := hkey
    obtain ⟨gh', hgh', hgen⟩ := hgoal
    obtain ⟨-, -, new, hnew, hrow, -⟩ := hpost
    obtain ⟨m', mh', gh₁, hm', hmh', hgh₁, hcond, rfl⟩ := newPublication_eq_some.1 hnew
    obtain rfl := Option.mem_unique h.memory hm'
    obtain rfl := Option.mem_unique h.head hmh'
    obtain rfl := Option.mem_unique h.goalHead hgh₁
    rw [h.publication] at hrow
    exact ⟨_, m, mh, gh', { h with
      publication := hrow
      memory := hm.trans h.memory
      head := hmh.trans h.head
      goalHead := hgh'
      sourceGeneration := rfl
      controllerGeneration := hgen.symm }, rfl⟩
  · exact h.of_kept hgoal (hkept _ (by simpa [Writes] using hkey)) hm hmh

/-- To restore a version that is not forgotten changes nothing of it. -/
lemma Stands.setForgotten {owner' : Uuid} {forgotten : Bool}
    (hpost : post (.setForgotten owner' t' forgotten) resp during d d')
    (hforget : ¬ (t = t' ∧ forgotten = true)) : StandsIn d' goal t owner m.handle := by
  have hkept := fun k hk => kept_of_post hpost (k := k) hk
  refine h.of_kept hgoal (hkept _ (by simp [Writes])) ?_ (hkept _ (by simp [Writes]))
  by_cases hkey : t = t'
  · obtain rfl := hkey
    obtain ⟨-, m', hm', -, hrow, -⟩ := hpost
    obtain rfl := Option.mem_unique h.memory hm'
    obtain rfl : forgotten = false := Bool.eq_false_iff.2 fun ht => hforget ⟨rfl, ht⟩
    rw [hrow, hm', ← h.live]
  · exact hkept _ (by simpa [Writes] using hkey)

/-- The transfer of another series changes nothing of this one. -/
lemma Stands.transferToOwner {fromOwner toOwner : Uuid}
    (hpost : post (.transferToOwner fromOwner toOwner t') resp during d d')
    (hother : ∀ m', get d (.memory t') = some m' → m.handle ≠ m'.handle) :
    StandsIn d' goal t owner m.handle := by
  have hpub := kept_of_post hpost (k := .goalMemoryPublication goal t) (by simp [Writes])
  obtain ⟨-, hmoved⟩ := hpost
  obtain ⟨m', mh', hm', -, -, -, -, hrows, hrest⟩ := hmoved.moved
  have hne := hother m' hm'
  refine h.of_kept hgoal hpub ?_ (hrest _ (by simpa using hne) (by simp))
  rw [hrows t, h.memory, Option.map_some, if_neg fun hand => hne hand.1]

end Step

/-- What is published stays so until it is withdrawn, transferred or forgotten. -/
lemma Stands.step {e : Answer} (h : Stands e.before goal t owner p m mh gh)
    (heff : (system H).Effect hist e d') (hwithdraw : ¬ Withdraws goal t e)
    (htransfer : ¬ Transfers m.handle e) (hforget : ¬ Forgets t e) :
    StandsIn d' goal t owner m.handle := by
  have hgoal := keepsGoal_of_effect heff h.goalHead
  cases hres : e.result with
  | error err =>
    simp only [Effect, hres] at heff
    exact ⟨p, m, mh, gh, heff ▸ h, rfl⟩
  | ok resp =>
    simp only [Effect, hres] at heff
    have hpost : post e.cmd resp (During hist e.before e.since) e.before d' := heff.1
    have hkept := fun k hk => kept_of_post hpost (k := k) hk
    cases hcmd : e.cmd with
    | publish input permit source =>
      rw [hcmd] at hpost
      exact h.publish hgoal hpost
    | unpublish goal' memory permit =>
      rw [hcmd] at hpost hkept
      have hkey : ¬ (goal = permit.goal ∧ t = memory) := by
        rintro ⟨rfl, rfl⟩
        obtain ⟨rfl, rfl, -⟩ := hpost
        exact hwithdraw ⟨permit, hcmd, hres⟩
      exact h.of_kept hgoal (hkept _ (by simpa [Writes] using hkey)) (hkept _ (by simp [Writes]))
        (hkept _ (by simp [Writes]))
    | setForgotten owner' t' forgotten =>
      rw [hcmd] at hpost
      refine h.setForgotten hgoal hpost ?_
      rintro ⟨rfl, rfl⟩
      obtain ⟨rfl, -⟩ := hpost
      exact hforget ⟨owner', hcmd, hres⟩
    | transferToOwner fromOwner toOwner t' =>
      rw [hcmd] at hpost
      refine h.transferToOwner hgoal hpost fun m' hm' heq => ?_
      obtain ⟨rfl, -⟩ := hpost
      exact htransfer ⟨fromOwner, toOwner, t', m', hcmd, hres, hm', heq.symm⟩
    | authorWorkMemory req permit t' =>
      rw [hcmd] at hpost hkept
      have hpub := hkept (.goalMemoryPublication goal t) (by simp [Writes])
      rcases hpost with ⟨-, honly⟩ | ⟨handle, checks, -, hworked⟩
      · exact h.of_kept hgoal hpub (honly _ (by simp)) (honly _ (by simp))
      · exact h.of_admitted hgoal hworked.admitted hpub
          (fun hne => hworked.only _ (by simp [hne])) fun hne => hworked.only _ (by simp [hne])
    | forkMemory source permit t' =>
      rw [hcmd] at hpost hkept
      have hpub := hkept (.goalMemoryPublication goal t) (by simp [Writes, bindingKey])
      rcases hpost with ⟨-, ⟨-, honly⟩ | ⟨checks, kind, -, hforked⟩⟩
      · exact h.of_kept hgoal hpub (honly _ (by simp)) (honly _ (by simp))
      · exact h.of_admitted hgoal hforked.admitted hpub
          (fun hne => hforked.only _ (by simp [hne, bindingKey]))
          fun hne => hforked.only _ (by simp [hne, bindingKey])
    | admitMemory owner' handle t' kind fresh =>
      rw [hcmd] at hpost
      obtain ⟨-, hadmitted, honly⟩ := hpost
      exact h.of_admitted hgoal hadmitted (honly _ (by simp)) (fun hne => honly _ (by simp [hne]))
        fun hne => honly _ (by simp [hne])
    | _ =>
      rw [hcmd] at hkept
      exact h.of_kept hgoal (hkept _ (by simp [Writes])) (hkept _ (by simp [Writes]))
        (hkept _ (by simp [Writes]))

/-- A publish leaves a standing publication when no other owner's row was in its place. -/
lemma stands_of_publish {resp : Response} {during : Tables → Prop}
    (h : post (.publish input permit source) resp during before after)
    (hcond : ∀ p, get before (.goalMemoryPublication input.goal input.memory) = some p →
      p.sourceOwner = source.owner) :
    ∃ p m mh gh, Stands after input.goal input.memory source.owner p m mh gh ∧
      get before (.memory input.memory) = some m := by
  obtain ⟨-, hgoal, new, hnew, hrow, honly⟩ := h
  rw [hgoal] at hcond ⊢
  obtain ⟨m, mh, gh, hm, hmh, hgh, ⟨howner, hhead, hlive, -⟩, rfl⟩ := newPublication_eq_some.1 hnew
  refine ⟨_, m, mh, gh, {
    publication := hrow
    memory := (honly _ (by simp)).trans hm
    head := (honly _ (by simp)).trans hmh
    goalHead := (honly _ (by simp)).trans hgh
    live := hlive
    memoryOwner := howner
    headOwner := hhead.trans howner
    source := ?_
    sourceGeneration := by simp
    controllerGeneration := ?_ }, hm⟩
  all_goals
    cases hold : get before (.goalMemoryPublication permit.goal input.memory) with
    | none => first | exact howner | rfl
    | some old => first | exact hcond old hold | rfl

/-! ### Withdrawing -/

section Withdrawing

variable {x : Input} {ws : Tables} {scope : OwnerScope} {permit : GoalCommandPermit}

lemma ends_clocks : Ends d x clocks ws (.ok (x.now, x.stamp)) ws := Ends.call _ fun _ => rfl

lemma ends_orFail {α : Type} {o : Option α} {a : α} (e : StorageError) (h : o = some a) :
    Ends d x (orFail o e) ws (.ok a) ws := by
  rw [h]
  exact Ends.ret a

lemma ends_fencedRoles (hscope : ¬ (scope.isExpired x.now = true ∨ scope.goalPrincipal = none))
    (owners : List Uuid) :
    Ends d x (fencedRoles H scope owners) ws
      (.ok (effectiveRole (ws ++ d) scope.roles.subject)) ws :=
  ends_clocks.bind <| (Ends.failIf _ hscope).bind <| (Ends.forM fun _ _ => Ends.lock _).bind <|
    (Ends.forM fun _ _ => Ends.lock _).bind <| Ends.view.bind <| Ends.ret _

lemma ends_roleForGoal {roles : Uuid → Option Role} {controller : Uuid} {generation : ℕ}
    (hscope : scope.goalPrincipal ≠ none) :
    Ends d x (roleForGoal scope roles goal controller generation) ws (.ok ((x.now, x.stamp),
      goalRole (ws ++ d) (x.now, x.stamp) scope roles goal controller generation)) ws :=
  (Ends.failIf _ hscope).bind <| ends_clocks.bind <| Ends.view.bind <| Ends.ret _

lemma ends_lockGoalManager (roles : Uuid → Option Role) (hscope : permit.scope.goalPrincipal ≠ none)
    (hgh : get (ws ++ d) (.goalHead permit.goal) = some gh)
    (howner : gh.ownerId = permit.controller) :
    ∃ manager, Ends d x (lockGoalManager permit roles) ws (.ok manager) ws :=
  ⟨_, (Ends.lock _).bind <| Ends.view.bind <| (ends_orFail _ hgh).bind <|
    (Ends.failIf _ (not_not.2 howner)).bind <| (ends_roleForGoal hscope).bind <| Ends.ret _⟩

/-- The owner a standing publication names can withdraw it. -/
lemma Stands.ends_unpublish (h : Stands d goal t owner p m mh gh) (hgoal : permit.goal = goal)
    (hcontroller : permit.controller = gh.ownerId) (hexpired : permit.scope.isExpired x.now = false)
    (hprincipal : permit.scope.goalPrincipal ≠ none)
    (hadmin : sourceAdmin x.now permit.scope
      (effectiveRole d permit.scope.roles.subject) owner = true) :
    Ends d x (unpublish H goal t permit) [] (.ok .done)
      [⟨.goalMemoryPublication goal t, none⟩] := by
  subst hgoal
  have hsource : publicationSource permit.goal t d = some owner := by
    simp [publicationSource, h.publication, h.source]
  have hgh : get ([] ++ d) (.goalHead permit.goal) = some gh := h.goalHead
  obtain ⟨manager, hmanager⟩ := ends_lockGoalManager (x := x)
    (effectiveRole d permit.scope.roles.subject) hprincipal hgh hcontroller.symm
  refine (Ends.failIf _ (by simp)).bind <| Ends.view.bind <|
    (ends_fencedRoles (by simp [hexpired, hprincipal]) _).bind <| hmanager.bind <| Ends.view.bind <|
    (Ends.failIf _ (by simp)).bind <| ends_clocks.bind <| (Ends.failIf _ ?_).bind <|
    (Ends.lock _).bind <| Ends.view.bind <| (Ends.failIf _ ?_).bind <| (Ends.write _).bind <|
    Ends.ret _
  · simp [hsource, hadmin]
  · simp [h.publication]

end Withdrawing

/-! ### From the publish on -/

/-- **A published version can be read and withdrawn.** After a publish that found no row of
another owner in its place, and as long as the version is not withdrawn, transferred or
forgotten, everyone in the Goal's audience whose ceiling reaches it has a route to it, and an
administrator of its owner who calls to withdraw it does so. -/
theorem published_until_withdrawn {s : Machine} (hs : Reachable (system H).toSystem () s)
    {n : ℕ} {e : Answer} (he : answer s.hist n = some e) {input : GoalPublicationInput}
    {permit : GoalCommandPermit} {source : OwnerWritePermit}
    (hcmd : e.cmd = .publish input permit source) (hok : e.result = .ok .done)
    (hcond : ∀ p, get e.before (.goalMemoryPublication input.goal input.memory) = some p →
      p.sourceOwner = source.owner)
    (hstay : ∀ i e', n < i → answer s.hist i = some e' → ¬ Withdraws input.goal input.memory e' ∧
      ¬ Forgets input.memory e' ∧
      ∀ m, get e.before (.memory input.memory) = some m → ¬ Transfers m.handle e') :
    ∃ m gh, get s.db (.memory input.memory) = some m ∧ m.ownerId = source.owner ∧
      get s.db (.goalHead input.goal) = some gh ∧
      (∀ session, Reaches s.db session input.goal gh m.kind →
        ∃ r ∈ goalMemoryReadRoutes s.db session, r.memoryT = input.memory ∧
          r.goalHandle = input.goal) ∧
      ∀ (caller : GoalCommandPermit) (x : Input), s.txns = [] → caller.goal = input.goal →
        caller.controller = gh.ownerId → caller.scope.isExpired x.now = false →
        caller.scope.goalPrincipal ≠ none →
        sourceAdmin x.now caller.scope
          (effectiveRole s.db caller.scope.roles.subject) m.ownerId = true →
        ∃ fuel s', (system H).serial fuel s
            [(.unpublish input.goal input.memory caller, x)] = some s' ∧
          s'.hist.head?.map Entry.result = some (.ok .done) ∧
          get s'.db (.goalMemoryPublication input.goal input.memory) = none := by
  have hrun := run_of_reachable hs
  obtain ⟨older, -, -, -, -, heff⟩ := hrun.effect_of_answer he
  simp only [Effect, hok, hcmd] at heff
  have hpost : post (.publish input permit source) .done (During older e.before e.since) e.before
      (stateAt s.hist s.db (n + 1)) := heff.1
  obtain ⟨p₀, m₀, mh₀, gh₀, hstands₀, hm₀⟩ := stands_of_publish hpost hcond
  -- the publication stands in every state since
  have hnow : StandsIn s.db input.goal input.memory source.owner m₀.handle := by
    by_contra hno
    rw [← @stateAt_length _ _ _ _ _ s.hist s.db] at hno
    obtain ⟨i, e', hi, -, he', ⟨p, m, mh, gh, hstands, hhandle⟩, hlost⟩ := hrun.breaks
      (Q := fun d => StandsIn d input.goal input.memory source.owner m₀.handle)
      (Nat.succ_le_of_lt (answer_lt he)) le_rfl ⟨p₀, m₀, mh₀, gh₀, hstands₀, rfl⟩ hno
    obtain ⟨older', -, -, -, -, heff'⟩ := hrun.effect_of_answer he'
    obtain ⟨hwithdraw, hforget, htransfer⟩ := hstay i e' hi he'
    have htransfer := htransfer m₀ hm₀
    rw [← hhandle] at hlost htransfer
    exact hlost (hstands.step heff' hwithdraw htransfer hforget)
  obtain ⟨p, m, mh, gh, hstands, -⟩ := hnow
  refine ⟨m, gh, hstands.memory, hstands.memoryOwner, hstands.goalHead,
    fun session hreaches => ?_, ?_⟩
  · exact ⟨_, hstands.route hreaches, rfl, rfl⟩
  · intro caller x htxns hgoal hcontroller hexpired hprincipal hadmin
    rw [hstands.memoryOwner] at hadmin
    obtain ⟨fuel, hserial⟩ := System.serial_of_ends (S := (system H).toSystem)
      (c := .unpublish input.goal input.memory caller) htxns
      (hstands.ends_unpublish hgoal hcontroller hexpired hprincipal hadmin)
    exact ⟨fuel, _, hserial, rfl, get_cons_self _ _ _⟩

/-! ### Runs -/

deriving instance DecidableEq for GoalCommandPermit, OwnerWritePermit, GoalAudienceGrantInput,
  GoalPublicationInput, GoalWorkBindingInput, RetainedPins, AuthorRequest, GoalWorkPermit,
  ForkDestinationPermit, ForkCommandPermit, Command

/-- Owner 1 publishes a version to their Goal; the series goes on, and subject 2 is let in. -/
def publishedOnce : List Command :=
  [.createGoal 1 10 11, .admitMemory 1 20 21 .abstraction true,
    .publish ⟨10, 21, .read⟩ (selfPermit 1 10) (selfSource 1),
    .admitMemory 1 20 22 .abstraction true,
    .grantAccess ⟨10, 2, .admin, none⟩ (selfPermit 1 10)]

/-- After these commands the version can be read, and then withdrawn. -/
theorem published_until_withdrawn_once :
    ∃ s, inTurn oneLock publishedOnce = some s ∧
      ∃ m gh, get s.db (.memory 21) = some m ∧ m.ownerId = 1 ∧ get s.db (.goalHead 10) = some gh ∧
        (∀ session, Reaches s.db session 10 gh m.kind →
          ∃ r ∈ goalMemoryReadRoutes s.db session, r.memoryT = 21 ∧ r.goalHandle = 10) ∧
        ∃ fuel s', (system oneLock).serial fuel s
            [(.unpublish 10 21 (selfPermit 1 10), plainInput)] = some s' ∧
          s'.hist.head?.map Entry.result = some (.ok .done) ∧
          get s'.db (.goalMemoryPublication 10 21) = none := by
  have hrun : (inTurn oneLock publishedOnce).map (fun s =>
      (s.hist.reverse.map Entry.cmd, (answer s.hist 2).map fun e =>
        (e.result.toOption, (get e.before (.goalMemoryPublication 10 21)).isNone))) =
      some (publishedOnce, some (some .done, true)) := by decide +kernel
  have hend : (inTurn oneLock publishedOnce).map (fun s =>
      (s.txns.length, (get s.db (.goalHead 10)).map GoalHead.ownerId,
        sourceAdmin plainInput.now (selfScope 1)
          (effectiveRole s.db (selfScope 1).roles.subject) 1)) =
      some (0, some 1, true) := by decide +kernel
  obtain ⟨s, hs, hanswers⟩ := Option.map_eq_some_iff.1 hrun
  rw [hs, Option.map_some, Option.some_inj] at hend
  simp only [Prod.mk.injEq, List.length_eq_zero_iff, Option.map_eq_some_iff] at hanswers hend
  obtain ⟨hcmds, e, he, hdone, hfresh⟩ := hanswers
  obtain ⟨htxns, ⟨gh₀, hgh₀, howner₀⟩, hadmin⟩ := hend
  have hcmd {n : ℕ} {e : Answer} (h : answer s.hist n = some e) :
      publishedOnce[n]? = some e.cmd := by
    rw [← hcmds, List.getElem?_map, ← answer, h, Option.map_some]
  have hok : e.result = .ok .done := by
    cases hr : e.result <;> simp_all [Except.toOption]
  rw [Option.isNone_iff_eq_none] at hfresh
  obtain ⟨m, gh, hm, howner, hgh, hroutes, hwithdraw⟩ := published_until_withdrawn
    (Reachable.serial .init hs) he (Option.some.inj (hcmd he)).symm hok
    (fun p hp => by cases hfresh.symm.trans hp) fun i e' hi he' => by
      have hlt : i < 5 := (List.getElem?_eq_some_iff.1 (hcmd he')).1
      obtain rfl | rfl : i = 3 ∨ i = 4 := by omega
      all_goals
        have hcmd' := (Option.some.inj (hcmd he')).symm
        simp [Withdraws, Forgets, Transfers, hcmd']
  obtain rfl : gh₀ = gh := Option.mem_unique hgh₀ hgh
  exact ⟨s, hs, m, gh₀, hm, howner, hgh, hroutes, hwithdraw _ _ htxns rfl howner₀.symm rfl
    (by decide) (howner ▸ hadmin)⟩

/-- Owner 1 lets subject 2 manage the Goal and publishes a version to it; the series goes to
owner 2, who publishes the version again. -/
def publishedByBoth : List Command :=
  [.createGoal 1 10 11, .admitMemory 1 20 21 .abstraction true,
    .grantAccess ⟨10, 2, .admin, none⟩ (selfPermit 1 10),
    .publish ⟨10, 21, .read⟩ (selfPermit 1 10) (selfSource 1), .transferToOwner 1 2 21,
    .publish ⟨10, 21, .read⟩ ⟨selfScope 2, 10, 1⟩ (selfSource 2)]

/-- The second publish is answered with success, yet neither the Goal's owner nor the manager
who published has a route, and once their grant is revoked owner 2 cannot withdraw the row. -/
theorem republish_opens_nothing :
    (inTurn oneLock publishedByBoth).map (fun s =>
      (s.hist.head?.map (·.result.toOption), goalMemoryReadRoutes s.db (ownerSession 1),
        goalMemoryReadRoutes s.db (ownerSession 2))) = some (some (some .done), [], []) ∧
    (inTurn oneLock (publishedByBoth ++
      [.revokeAccess 10 2 (selfPermit 1 10), .unpublish 10 21 ⟨selfScope 2, 10, 1⟩])).map
        (fun s => s.hist.head?.map (·.result.toOption)) = some (some none) := by
  decide +kernel

end Proxiima.Collaboration
