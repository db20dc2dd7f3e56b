import Proxiima.Collaboration.Rules

/-!
# Grants, publications and moves do what they say
-/

namespace Proxiima.Collaboration

open ReadCommitted ReadCommitted.Guarded Authz Prog

variable {H : Hash} {d : Tables} {k : Key} {t owner handle : Uuid}

lemma only_cons {r : Option (Row k)} : Only [k] d (⟨k, r⟩ :: d) := fun _ hk =>
  get_cons_ne r d fun heq => hk (heq ▸ List.mem_singleton_self _)

/-! ### Access -/

lemma correct_setRole (subject owner : Uuid) (role : Option Role) :
    (system H).Correct (.setRole subject owner role) := by
  change (system H).Wp (setRole H subject owner role) _ _
  simp only [setRole, wp_bind, wp_lock]
  refine wp_write_row fun d₁ _ => ⟨by simp [system, guards], trivial, ?_⟩
  exact fun d _ _ _ => ⟨rfl, get_cons_self _ _ _, only_cons⟩

lemma correct_grantAccess (input : GoalAudienceGrantInput) (permit : GoalCommandPermit) :
    (system H).Correct (.grantAccess input permit) := by
  change (system H).Wp (grantAccess H input permit) _ _
  simp only [grantAccess, wp_bind, wp_failIf]
  intro _
  refine wp_fencedRoles fun st₁ d₁ hst₁ _ _ _ _ => ?_
  refine wp_lockGoalManager (by exact hst₁.writes) fun role st₂ hw hrow _ => ?_
  simp only [wp_orFail, wp_view, hw, List.nil_append]
  intro actor _ _ d₃ hd₃ head' hhead'
  refine wp_write_row fun d₄ _ => ⟨by simp [system, guards, hrow], trivial, ?_⟩
  intro d _ hd _
  obtain ⟨-, hfollows, -⟩ := by simpa only [possible_put, possible_see] using hd
  simp only [writes_put, Stand.writes_see, hw]
  refine ⟨rfl, head', ?_, get_cons_self _ _ _, only_cons⟩
  rw [hfollows.same (covers_row hrow _)]
  exact (Option.filter_eq_some_iff.1 hhead').1

lemma correct_revokeAccess (goal subject : Uuid) (permit : GoalCommandPermit) :
    (system H).Correct (.revokeAccess goal subject permit) := by
  change (system H).Wp (revokeAccess H goal subject permit) _ _
  simp only [revokeAccess, wp_bind, wp_failIf]
  intro _
  refine wp_fencedRoles fun st₁ d₁ hst₁ _ _ _ _ => ?_
  refine wp_lockGoalManager (by exact hst₁.writes) fun role st₂ hw hrow _ => ?_
  simp only [wp_lock, wp_view]
  intro _ d₃ _ _
  refine wp_write_row fun d₄ _ => ⟨by simp [system, guards, hrow], trivial, ?_⟩
  intro d _ _ _
  simp only [writes_put, Stand.writes_see, Stand.writes_lock, hw]
  exact ⟨rfl, get_cons_self _ _ _, only_cons⟩

/-! ### Publications and bindings -/

lemma newPublication_eq_some {goal controller subject : Uuid} {permittedUse : PublicationUse}
    {new : GoalMemoryPublication} :
    newPublication d goal t owner controller permittedUse subject = some new ↔
      ∃ m mh gh, get d (.memory t) = some m ∧ get d (.memoryHead m.handle) = some mh ∧
        get d (.goalHead goal) = some gh ∧ (m.ownerId = owner ∧ mh.ownerId = m.ownerId ∧
        m.forgotten = false ∧ gh.ownerId = controller) ∧
        ⟨m.ownerId, mh.authorityGeneration, gh.authorityGeneration, permittedUse, subject⟩ =
          new := by
  simp [newPublication, Option.bind_eq_some_iff]

lemma newBinding_eq_some {goal subject : Uuid} {new : GoalWorkBinding} :
    newBinding d goal handle owner subject = some new ↔
      ∃ mh gh, get d (.memoryHead handle) = some mh ∧ get d (.goalHead goal) = some gh ∧
        (mh.ownerId = owner ∧ gh.ownerId = owner) ∧
        ⟨mh.ownerId, mh.authorityGeneration, gh.authorityGeneration, subject⟩ = new := by
  simp [newBinding, Option.bind_eq_some_iff]

variable {permit : GoalCommandPermit} {st : Stand Row Lock}

lemma wp_sourceConsent {source : OwnerWritePermit} {roles : Uuid → Option Role} {Q : Post Unit}
    (h : Q () st) : (system H).Wp (sourceConsent permit source roles) Q st := by
  simp only [sourceConsent, wp_bind, wp_clocks, wp_failIf]
  exact fun _ _ => h

lemma correct_publish (input : GoalPublicationInput) (permit : GoalCommandPermit)
    (source : OwnerWritePermit) : (system H).Correct (.publish input permit source) := by
  change (system H).Wp (publish H input permit source) _ _
  simp only [publish, wp_bind, wp_failIf]
  intro hgoal
  refine wp_fencedRoles fun st₁ d₁ hst₁ hfence _ _ _ => wp_sourceConsent ?_
  refine wp_lockGoalManager (by exact hst₁.writes) fun role st₂ hw hrow hheld => ?_
  have hsource : .advisory (H (.ownerFence source.owner)) false ∈ st₂.held :=
    hheld (hfence (fence_mem (by simp)))
  simp only [wp_lock, wp_view, wp_orFail, Stand.writes_lock, Stand.writes_see, hw, List.nil_append]
  intro _ d₃ _ _ d₄ _ new hnew d₅ _
  refine wp_write_row fun d₆ _ => ⟨by simp [system, guards, hrow], trivial, ?_⟩
  intro d _ hd _
  obtain ⟨-, h₅, h₄, -⟩ := by
    simpa only [possible_put, possible_see, possible_lock, Stand.held_lock, Stand.held_see] using hd
  simp only [writes_put, Stand.writes_see, Stand.writes_lock, hw]
  refine ⟨rfl, not_not.1 hgoal, new, ?_, ?_, only_cons⟩
  · obtain ⟨m, mh, gh, hm, hmh, hgh, hcond, rfl⟩ := newPublication_eq_some.1 hnew
    have hfence' : .advisory (H (.ownerFence mh.ownerId)) false ∈
        TableLock.share (.memory input.memory) :: st₂.held := by
      rw [hcond.2.1, hcond.1]
      exact List.mem_cons_of_mem _ hsource
    refine newPublication_eq_some.2 ⟨m, mh, gh, ?_, ?_, ?_, hcond, rfl⟩
    · rw [h₄.same (covers_share List.mem_cons_self _), hm]
    · rw [h₄.same (k := .memoryHead m.handle) (hmh.symm ▸ covers_head hfence'), hmh]
    · rw [h₄.same (covers_row (List.mem_cons_of_mem _ hrow) _), hgh]
  · rw [h₅.same (covers_publication (by simp [hrow]) _ _)]
    exact get_cons_self _ _ _

lemma correct_bindWork (input : GoalWorkBindingInput) (permit : GoalCommandPermit)
    (source : OwnerWritePermit) : (system H).Correct (.bindWork input permit source) := by
  change (system H).Wp (bindWork H input permit source) _ _
  simp only [bindWork, wp_bind, wp_failIf]
  intro hgoal
  refine wp_fencedRoles fun st₁ d₁ hst₁ hfence _ _ _ => wp_sourceConsent ?_
  refine wp_lockGoalManager (by exact hst₁.writes) fun role st₂ hw hrow hheld => ?_
  have hsource : .advisory (H (.ownerFence source.owner)) false ∈ st₂.held :=
    hheld (hfence (fence_mem (by simp)))
  simp only [wp_lock, wp_view, wp_orFail, Stand.writes_lock, Stand.writes_see, hw, List.nil_append]
  intro _ d₃ _ new hnew d₄ _
  refine wp_write_row fun d₅ _ => ⟨by simp [system, guards, hrow], trivial, ?_⟩
  intro d _ hd _
  obtain ⟨-, h₄, h₃, -⟩ := by
    simpa only [possible_put, possible_see, possible_lock, Stand.held_lock, Stand.held_see] using hd
  simp only [writes_put, Stand.writes_see, Stand.writes_lock, hw]
  refine ⟨rfl, not_not.1 hgoal, new, ?_, ?_, only_cons⟩
  · obtain ⟨mh, gh, hmh, hgh, hcond, rfl⟩ := newBinding_eq_some.1 hnew
    refine newBinding_eq_some.2 ⟨mh, gh, ?_, ?_, hcond, rfl⟩
    · rw [h₃.same (k := .memoryHead input.series) (hmh.symm ▸ covers_head (hcond.1 ▸ hsource)), hmh]
    · rw [h₃.same (covers_row hrow _), hgh]
  · rw [h₄.same (covers_binding (List.mem_cons_of_mem _ hrow) _ _)]
    exact get_cons_self _ _ _

/-- A withdrawal under the lock of the Goal head. -/
lemma wp_withdraw {source : Tables → Option Uuid} {operation : String} {Q : Post Response}
    (hlegal : ∀ o, legal k o none)
    (hguards : ∀ o, guards H k o none = [.row (.goalHead permit.goal)])
    (h : ∀ st, st.writes = [⟨k, none⟩] → Q .done st) :
    (system H).Wp (withdraw H permit k source operation) Q .start := by
  simp only [withdraw, wp_bind, wp_view]
  intro d₁ _
  refine wp_fencedRoles fun st₁ d₂ hst₁ _ _ _ _ => ?_
  refine wp_lockGoalManager (by exact hst₁.writes) fun role st₂ hw hrow _ => ?_
  simp only [wp_failIf, wp_lock, wp_clocks]
  intro d₄ _ _ _ _ d₅ _ _
  refine wp_write_row fun d₆ _ => ⟨?_, hlegal _, ?_⟩
  · simp [system, hguards, hrow]
  · exact h _ (by simp [hw])

lemma correct_unpublish (goal memory : Uuid) (permit : GoalCommandPermit) :
    (system H).Correct (.unpublish goal memory permit) := by
  change (system H).Wp (unpublish H goal memory permit) _ _
  simp only [unpublish, wp_bind, wp_failIf]
  intro hgoal
  refine wp_withdraw (fun _ => trivial) (fun _ => rfl) fun st hw d _ _ _ => ?_
  rw [hw]
  exact ⟨rfl, not_not.1 hgoal, get_cons_self _ _ _, only_cons⟩

lemma correct_unbindWork (input : GoalWorkBindingInput) (permit : GoalCommandPermit) :
    (system H).Correct (.unbindWork input permit) := by
  change (system H).Wp (unbindWork H input permit) _ _
  simp only [unbindWork, wp_bind, wp_failIf]
  intro hgoal
  refine wp_withdraw (fun _ => trivial) (fun _ => rfl) fun st hw d _ _ _ => ?_
  rw [hw]
  exact ⟨rfl, not_not.1 hgoal, get_cons_self _ _ _, only_cons⟩

/-! ### Series -/

/-- The rows of a new version, and of the head it makes when there is none. -/
def admission (owner handle t : Uuid) (kind : Memory.MemoryKind) (head : Option MemoryHead) :
    Tables :=
  ⟨.memory t, some ⟨handle, owner, kind, false⟩⟩ ::
    if head.isSome then [] else [⟨.memoryHead handle, some ⟨kind, owner, 0⟩⟩]

/-- What is known when a version was admitted over this head. -/
structure Admits (H : Hash) (owner handle t : Uuid) (kind : Memory.MemoryKind) (fresh : Bool)
    (head : Option MemoryHead) (st st' : Stand Row Lock) : Prop where
  held : st.held ⊆ st'.held
  lock : exclusive H (.memoryHandle handle) ∈ st'.held
  seen : st.seen ⊆ st'.seen
  writes : st'.writes = admission owner handle t kind head
  version : ∀ d, (system H).Possible st' d → get d (.memory t) = none
  found : ∀ d, (system H).Possible st' d → get d (.memoryHead handle) = head
  isNew : fresh = true → head = none
  agrees : ∀ mh, head = some mh → mh.kind = kind ∧ mh.ownerId = owner

lemma wp_admitVersion {kind : Memory.MemoryKind} {fresh : Bool} {Q : Post Unit}
    (hw : st.writes = [])
    (h : ∀ st' head, Admits H owner handle t kind fresh head st st' → Q () st') :
    (system H).Wp (admitVersion H owner handle t kind fresh) Q st := by
  simp only [admitVersion, wp_bind, wp_lock, wp_view, wp_failIf, Stand.writes_lock,
    Stand.writes_see, hw, List.nil_append]
  intro d₁ _ hfresh hagrees d₂ _ habsent
  rw [Bool.not_eq_true, Option.isSome_eq_false_iff, Option.isNone_iff_eq_none] at habsent
  refine wp_write.2 fun d₃ hd₃ => ?_
  simp only [possible_lock, possible_see, Stand.held_lock, Stand.held_see] at hd₃
  obtain ⟨h₂, h₁, -⟩ := hd₃
  have hversion : get d₃ (.memory t) = none :=
    (h₂.same (covers_row List.mem_cons_self _)).trans habsent
  have hhead : get d₃ (.memoryHead handle) = get d₁ (.memoryHead handle) :=
    h₁.same (covers_head_of_handle List.mem_cons_self _)
  refine ⟨?_, h _ (get d₁ (.memoryHead handle)) ⟨?_, by simp, ?_, ?_, ?_, ?_, ?_, ?_⟩⟩
  · intro k hk
    cases hold : get d₁ (.memoryHead handle) with
    | some mh =>
      obtain rfl : k = .memory t := by simpa [hold] using hk
      simp [hversion, system, guards, legal, Stand.lock, Stand.see, exclusive]
    | none =>
      obtain rfl | rfl : k = .memory t ∨ k = .memoryHead handle := by simpa [hold] using hk
      · simp [hversion, system, guards, legal, exclusive]
      · simp [hhead, hold, system, guards, legal, exclusive, get_cons_ne]
  · exact fun l hl => by simp [hl]
  · exact fun p hp => List.mem_cons_of_mem _ (List.mem_cons_of_mem _ (List.mem_cons_of_mem _ hp))
  · simp [admission, hw]
  · intro d hd
    simp only [possible_put, possible_lock, possible_see, Stand.held_lock, Stand.held_see] at hd
    exact (hd.2.1.same (covers_row List.mem_cons_self _)).trans habsent
  · intro d hd
    simp only [possible_put, possible_lock, possible_see, Stand.held_lock, Stand.held_see] at hd
    exact hd.2.2.1.same (covers_head_of_handle List.mem_cons_self _)
  · intro hf
    simpa [hf] using hfresh
  · intro mh hmh
    simpa [hmh] using hagrees

section Admission

variable {owner handle t : Uuid} {kind : Memory.MemoryKind} {fresh : Bool}
  {head : Option MemoryHead}
variable {st st' : Stand Row Lock}

lemma get_admission_of_ne (hmemory : k ≠ .memory t) (hhead : k ≠ .memoryHead handle) :
    get (admission owner handle t kind head ++ d) k = get d k := by
  refine get_append_of_notMem ?_
  cases head <;> simp [admission, hmemory, hhead]

lemma Admits.admitted (h : Admits H owner handle t kind fresh head st st')
    (hd : (system H).Possible st' d) :
    Admitted owner handle t kind d (admission owner handle t kind head ++ d) := by
  refine ⟨h.version d hd, by simp [admission], ?_⟩
  rw [h.found d hd]
  cases hhead : head with
  | none => exact .inl ⟨rfl, by simp [admission, get_cons_ne]⟩
  | some mh =>
    have hfound := h.found d hd
    rw [hhead] at hfound
    exact .inr ⟨by simp [admission, get_cons_ne, hfound], mh, rfl, h.agrees mh hhead⟩

end Admission

lemma correct_admitMemory (owner handle t : Uuid) (kind : Memory.MemoryKind) (fresh : Bool) :
    (system H).Correct (.admitMemory owner handle t kind fresh) := by
  change (system H).Wp (admitMemory H owner handle t kind fresh) _ _
  simp only [admitMemory, wp_bind, wp_probe]
  refine wp_admitVersion rfl fun st head hst d _ hd _ => ?_
  rw [hst.writes]
  refine ⟨rfl, hst.admitted hd, fun k hk => ?_⟩
  simp only [List.mem_cons, List.not_mem_nil, or_false, not_or] at hk
  exact get_admission_of_ne hk.1 hk.2

lemma correct_setForgotten (owner t : Uuid) (forgotten : Bool) :
    (system H).Correct (.setForgotten owner t forgotten) := by
  change (system H).Wp (setForgotten H owner t forgotten) _ _
  simp only [setForgotten, wp_bind, wp_lock, wp_view, wp_orFail, wp_probe, Stand.writes_lock,
    Stand.writes_see, Stand.writes_start, List.nil_append]
  intro d₁ _ m₁ hm₁ d₂ hd₂ m hm
  obtain ⟨hm₁, -⟩ := Option.filter_eq_some_iff.1 hm₁
  obtain ⟨hm, howner⟩ := Option.filter_eq_some_iff.1 hm
  simp only [possible_lock, possible_see] at hd₂
  -- the version found first gives the lock of its series
  obtain ⟨m', hm', hhandle, -⟩ := memory_of_follows hd₂.1 hm₁
  obtain rfl : m' = m := Option.mem_unique hm' hm
  refine wp_write_row fun d₃ hd₃ => ?_
  simp only [possible_lock, possible_see, Stand.held_lock, Stand.held_see] at hd₃
  have hrow : get d₃ (.memory t) = some m' :=
    (hd₃.1.same (covers_row List.mem_cons_self _)).trans hm
  refine ⟨by simp [hrow, system, guards, hhandle], by
    simp [hrow, system, legal, MemoryRow.Legal], ?_⟩
  intro d _ hd _
  simp only [possible_put, possible_lock, possible_see, Stand.held_lock, Stand.held_see] at hd
  refine ⟨rfl, m', ?_, by simpa using howner, get_cons_self _ _ _, only_cons⟩
  exact (hd.2.1.same (covers_row List.mem_cons_self _)).trans hm

lemma get_rehome {fromOwner toOwner : Uuid} {l : Tables} :
    get (updates d (rehome handle fromOwner toOwner) ++ l) (.memory t) =
      ((get d (.memory t)).bind fun m => if m.handle = handle ∧ m.ownerId = fromOwner then
        some (some { m with ownerId := toOwner }) else none).getD (get l (.memory t)) :=
  get_updates l

lemma mem_keys_rehome {fromOwner toOwner : Uuid} :
    k ∈ (updates d (rehome handle fromOwner toOwner)).keys ↔
      ∃ t m, k = .memory t ∧ get d (.memory t) = some m ∧ m.handle = handle ∧
        m.ownerId = fromOwner := by
  rw [mem_keys_updates]
  cases k with
  | memory t =>
    simp only [rehome, Option.isSome_iff_exists, Option.bind_eq_some_iff]
    constructor
    · rintro ⟨r, m, hm, hr⟩
      obtain ⟨hcond, -⟩ := Option.ite_none_right_eq_some.1 hr
      exact ⟨t, m, rfl, hm, hcond⟩
    · rintro ⟨t', m, hkey, hm, hcond⟩
      obtain rfl := Key.memory.inj hkey
      exact ⟨_, m, hm, if_pos hcond⟩
  | _ => simp [rehome]

lemma mem_versions :
    t ∈ versions d handle owner ↔
      ∃ m, get d (.memory t) = some m ∧ m.ownerId = owner ∧ m.handle = handle := by
  simp only [versions, List.mem_filterMap, ownedMemory]
  constructor
  · rintro ⟨k, -, hk⟩
    cases k with
    | memory t' =>
      obtain ⟨hany, hk⟩ := Option.ite_none_right_eq_some.1 hk
      obtain rfl := Option.some.inj hk
      cases hm : get d (.memory t') with
      | none => simp [hm] at hany
      | some m =>
        refine ⟨m, rfl, ?_⟩
        by_cases howner : m.ownerId = owner <;> simp_all
    | _ => cases hk
  · rintro ⟨m, hm, howner, hhandle⟩
    exact ⟨.memory t, isSome_of_get hm, by simp [hm, howner, hhandle]⟩

/-- Under the lock of the series no version comes to it. -/
lemma not_handle_of_follows {ls : List Lock} {d' : Tables} (h : (system H).Follows ls d d')
    (hl : exclusive H (.memoryHandle handle) ∈ ls)
    (hno : ∀ m, get d (.memory t) = some m → m.handle ≠ handle) :
    ∀ m, get d' (.memory t) = some m → m.handle ≠ handle := by
  refine h.keeps (k := .memory t) (P := fun o : Option MemoryRow => ∀ m, o = some m →
    m.handle ≠ handle) hno fun o o' ho hf m hm heq => ?_
  obtain rfl := hm
  cases o with
  | none =>
    have hc := hf.2 (exclusive H (.memoryHandle handle)) (by simp [system, guards, heq]) _ hl
    simp [system, exclusive] at hc
  | some m₀ => exact ho m₀ rfl (hf.1.1.symm.trans heq)

lemma correct_transferToOwner (fromOwner toOwner t : Uuid) :
    (system H).Correct (.transferToOwner fromOwner toOwner t) := by
  change (system H).Wp (transferToOwner H fromOwner toOwner t) _ _
  simp only [transferToOwner, wp_bind, wp_failIf]
  intro hne
  refine wp_lockAll (G := system H) fun st₁ hst₁ hfences _ => ?_
  simp only [wp_view, wp_orFail, wp_lock, Stand.writes_see, Stand.writes_lock, hst₁.writes,
    Stand.writes_start, List.nil_append]
  intro d₁ _ m₁ hm₁ d₂ _
  obtain ⟨hm₁, -⟩ := Option.filter_eq_some_iff.1 hm₁
  refine wp_lockAll (G := system H) fun st₂ hst₂ _ _ => ?_
  have hw : st₂.writes = [] := hst₂.writes.trans hst₁.writes
  have hhandle : exclusive H (.memoryHandle m₁.handle) ∈ st₂.held :=
    hst₂.held List.mem_cons_self
  have hfence : ∀ o ∈ [fromOwner, toOwner], exclusive H (.ownerFence o) ∈ st₂.held := fun o ho =>
    hst₂.held (List.mem_cons_of_mem _ (hfences (fence_mem ho)))
  simp only [wp_probe, hw, List.nil_append]
  intro d₃ hd₃ hmem head hhead
  obtain ⟨hhead, howner⟩ := Option.filter_eq_some_iff.1 hhead
  have howner : head.ownerId = fromOwner := by simpa using howner
  -- what was seen of the series is so to the end
  have hsame : ∀ d', (system H).Follows st₂.held d₃ d' →
      get d' (.memoryHead m₁.handle) = some head ∧
      ∀ t' m, get d₃ (.memory t') = some m → m.handle = m₁.handle →
        get d' (.memory t') = some m := by
    refine fun d' hfol => ⟨(hfol.same (covers_head_of_handle hhandle _)).trans hhead, ?_⟩
    intro t' m hm heq
    have hcov : (system H).Covers st₂.held (.memory t') (get d₃ (.memory t')) := by
      rw [hm]
      exact covers_memory_of_handle (heq ▸ hhandle)
    exact (hfol.same hcov).trans hm
  refine wp_write.2 fun d₄ hd₄ => ⟨fun k hk => ?_, fun d _ hd _ => ?_⟩
  · obtain ⟨hhead₄, hmem₄⟩ := hsame d₄ (possible_see.1 hd₄).1
    rw [List.keys_cons, List.mem_cons] at hk
    rcases hk with rfl | hk
    · simp [hhead₄, system, guards, legal, MemoryHead.Legal, MemoryHead.transferred, howner,
        hfence, hhandle, Ne.symm hne]
    · obtain ⟨t', m, rfl, hm, hmhandle, hmowner⟩ := mem_keys_rehome.1 hk
      rw [List.cons_append, get_cons_ne _ _ (by simp), get_rehome, hmem₄ t' m hm hmhandle, hm]
      simp [system, guards, legal, MemoryRow.Legal, hmhandle, hmowner, hhandle]
  · simp only [possible_put, possible_see] at hd
    obtain ⟨-, hfol, -⟩ := hd
    obtain ⟨hhead', hmem'⟩ := hsame d hfol
    obtain ⟨m, hm, hmowner, hmhandle⟩ := mem_versions.1 (not_not.1 hmem)
    simp only [writes_put, Stand.writes_see, hw, List.append_nil, List.cons_append]
    refine ⟨rfl, hne, m, head, hmem' t m hm hmhandle, hmowner, hmhandle ▸ hhead', howner,
      ?_, ?_, ?_⟩
    · rw [hmhandle]
      exact get_cons_self _ _ _
    · intro t'
      rw [hmhandle, get_cons_ne _ _ (by simp), get_rehome]
      by_cases hin : ∃ m', get d₃ (.memory t') = some m' ∧ m'.handle = m₁.handle
      · obtain ⟨m', hm', heq⟩ := hin
        rw [hm', hmem' t' m' hm' heq]
        by_cases hown : m'.ownerId = fromOwner <;> simp [heq, hown]
      · have hno : ∀ m', get d₃ (.memory t') = some m' → m'.handle ≠ m₁.handle := fun m' hm' heq =>
          hin ⟨m', hm', heq⟩
        have hno' := not_handle_of_follows hfol hhandle hno
        cases hrow₃ : get d₃ (.memory t') <;> cases hrow : get d (.memory t') <;>
          simp_all
    · intro k hkhead hkmem
      rw [hmhandle] at hkhead
      rw [get_cons_ne _ _ hkhead, get_append_of_notMem]
      intro hk
      obtain ⟨t', -, rfl, -⟩ := mem_keys_rehome.1 hk
      exact hkmem t' rfl

/-! ### Goals -/

lemma correct_createGoal (owner handle t : Uuid) :
    (system H).Correct (.createGoal owner handle t) := by
  change (system H).Wp (createGoal H owner handle t) _ _
  simp only [createGoal, wp_bind, wp_lock, wp_view, wp_failIf, Stand.writes_lock,
    Stand.writes_start, List.nil_append, not_or, Bool.not_eq_true, Option.isSome_eq_false_iff,
    Option.isNone_iff_eq_none]
  intro d₁ _ ⟨hhead, hgoal⟩
  refine wp_write.2 fun d₂ hd₂ => ⟨fun k hk => ?_, fun d _ hd _ => ?_⟩
  · simp only [possible_lock, possible_see, Stand.held_lock] at hd₂
    have hgoal₂ : get d₂ (.goal t) = none := (hd₂.1.same (covers_row (by simp) _)).trans hgoal
    have hhead₂ : get d₂ (.goalHead handle) = none :=
      (hd₂.1.same (covers_row (by simp) _)).trans hhead
    obtain rfl | rfl : k = .goal t ∨ k = .goalHead handle := by simpa using hk
    · simp [hgoal₂, system, guards, legal]
    · simp [hhead₂, system, guards, legal]
  · simp only [possible_put, possible_lock, possible_see, Stand.held_lock] at hd
    refine ⟨rfl, (hd.2.1.same (covers_row (by simp) _)).trans hhead,
      (hd.2.1.same (covers_row (by simp) _)).trans hgoal, by simp [get_cons_ne], by simp,
      fun k hk => ?_⟩
    simp only [List.mem_cons, List.not_mem_nil, or_false, not_or] at hk
    simp [get_cons_ne, hk]

lemma correct_transitionGoal (owner handle t : Uuid) (state : GoalState) :
    (system H).Correct (.transitionGoal owner handle t state) := by
  change (system H).Wp (transitionGoal H owner handle t state) _ _
  simp only [transitionGoal, wp_bind, wp_lock, wp_view, wp_failIf, wp_orFail, wp_probe,
    Stand.writes_lock, Stand.writes_start, List.nil_append, Bool.not_eq_true,
    Option.isSome_eq_false_iff, Option.isNone_iff_eq_none]
  intro d₁ _ head hhead hgoal
  obtain ⟨hhead, howner⟩ := Option.filter_eq_some_iff.1 hhead
  refine wp_write.2 fun d₂ hd₂ => ⟨fun k hk => ?_, fun d _ hd _ => ?_⟩
  · simp only [possible_lock, possible_see, Stand.held_lock] at hd₂
    have hgoal₂ : get d₂ (.goal t) = none := (hd₂.1.same (covers_row (by simp) _)).trans hgoal
    have hhead₂ : get d₂ (.goalHead handle) = some head :=
      (hd₂.1.same (covers_row (by simp) _)).trans hhead
    obtain rfl | rfl : k = .goal t ∨ k = .goalHead handle := by simpa using hk
    · simp [hgoal₂, system, guards, legal]
    · simp [hhead₂, system, guards, legal, GoalHead.Legal, get_cons_ne]
  · simp only [possible_put, possible_lock, possible_see, Stand.held_lock] at hd
    refine ⟨rfl, head, (hd.2.1.same (covers_row (by simp) _)).trans hhead, by simpa using howner,
      (hd.2.1.same (covers_row (by simp) _)).trans hgoal, by simp [get_cons_ne], by simp,
      fun k hk => ?_⟩
    simp only [List.mem_cons, List.not_mem_nil, or_false, not_or] at hk
    simp [get_cons_ne, hk]

end Proxiima.Collaboration
