import Proxiima.Groups.RowWrites

/-!
# The rebuild of a projection

`rebuild_group_role_projection` brings each of its users in step: under the user's lock it
deletes the rows of the user and inserts what the path query finds. The lock is what makes
the three statements one: no other transaction writes rows of this user in between, and one
that changes how the user reaches a group would need the lock to commit.
-/

namespace Proxiima.Groups

open ReadCommitted Sql Setting

variable {hash : LockName → ℕ} {σ σ' : Side} {P : Side → Prop} {u : Uuid}
variable {users : List Uuid} {events : List Event}

/-- `u` waits for its rebuild, which has begun. -/
def Rebuilding (hash : LockName → ℕ) (u : Uuid) (users : List Uuid) (events : List Event)
    (σ : Side) : Prop :=
  Pending hash (u :: users) events σ ∧ projectionLock hash u ∈ σ.held

lemma carried_rebuilding : Carried hash (Rebuilding hash u users events) :=
  (carried_pending _ _).held _

lemma quiet_projection (u g : Uuid) (o : Option Role) : Quiet [⟨.projection u g, o⟩] := by
  intro k hk
  exact .inr ⟨u, g, by simpa using hk⟩

lemma Rebuilding.put {g : Uuid} (h : Rebuilding hash u users events σ) (o : Option Role) :
    Rebuilding hash u users events (σ.put [⟨.projection u g, o⟩]) := by
  refine ⟨h.1.put_quiet (quiet_projection u g o) fun u' g' hk => ?_, h.2⟩
  obtain ⟨rfl, -⟩ : u' = u ∧ g' = g := by simpa using hk
  exact ⟨h.2, List.mem_cons_self⟩

/-! ### The delete -/

/-- Projection rows of `u` are left in the groups `gs` only. -/
def Deleting (hash : LockName → ℕ) (u : Uuid) (users : List Uuid) (events : List Event)
    (gs : List Uuid) (σ : Side) : Prop :=
  Rebuilding hash u users events σ ∧ ∀ g, (get σ.view (.projection u g)).isSome → g ∈ gs

lemma carried_deleting (gs : List Uuid) : Carried hash (Deleting hash u users events gs) :=
  carried_rebuilding.and (fun σ σ' hσ hgs hf g hg => hgs g (by rwa [hf.get_projection hσ.2] at hg))
    fun _ _ h => h

lemma deleteProjected_spec :
    (setting hash).Triple (Rebuilding hash u users events) (deleteProjected u)
      (fun _ => Deleting hash u users events []) failed := by
  refine (Triple.view (Q := fun v => Deleting hash u users events (projected v u))
    carried_rebuilding.stable (fun _ => (carried_deleting _).stable)
    fun σ _ h => ⟨h, fun g hg => mem_projected.2 hg⟩).bind fun v => ?_
  refine Triple.forM (carried_deleting []).stable (fun g gs => ?_) _
  -- the row of this group is protected, so the lock finds the row there is
  have hrow : ∀ o : Option Role, Carried hash fun σ =>
      Deleting hash u users events (g :: gs) σ ∧ get σ.view (.projection u g) = o := fun o =>
    (carried_deleting _).and (fun σ σ' hσ ho hf => (hf.get_projection hσ.1.2 g).trans ho)
      fun _ _ h => h
  refine Triple.fix (fun σ => get σ.view (.projection u g)) fun o => ?_
  refine (Triple.lockRow_protected (hrow o).stable (hrow o).monotone fun σ h => h.2).bind
    fun o' => ?_
  refine Triple.of_pure (fun σ h => h.2) fun heq => ?_
  subst heq
  cases o' with
  | none =>
    refine Triple.ret (hrow none).pure.stable fun σ _ h => ⟨h.1.1.1, fun g' hg' => ?_⟩
    rcases List.mem_cons.1 (h.1.1.2 g' hg') with rfl | hmem
    · simp [h.1.2] at hg'
    · exact hmem
  | some R =>
    refine Triple.write (hrow _).pure.stable (carried_deleting gs).stable fun σ _ h => ?_
    obtain ⟨⟨⟨hre, hgs⟩, -⟩, -⟩ := h
    refine ⟨(carried_rebuilding.monotone _ _ hre).put none, fun g' hg' => ?_⟩
    rw [Local.view_put, List.singleton_append] at hg'
    by_cases hgg : g' = g
    · subst hgg
      simp at hg'
    · rw [get_cons_ne _ _ (by simpa using hgg)] at hg'
      exact (List.mem_cons.1 (hgs g' hg')).resolve_left hgg

/-! ### The insert -/

/-- The rows `rows` are still to be inserted of what the query found in `v`. -/
structure Inserting (hash : LockName → ℕ) (u : Uuid) (users : List Uuid) (events : List Event)
    (v : Tables) (rows : List PathRow) (σ : Side) : Prop where
  rebuilding : Rebuilding hash u users events σ
  found : ∀ row ∈ rows, ∃ R, fromScratch v u row.group = some R ∧ row = .ofRole row.group R
  nodup : (rows.map PathRow.group).Nodup
  target : ∀ g, IsProjected σ.view u g (fromScratch v u g)
  rest : ∀ g, get σ.view (.projection u g) =
    if g ∈ rows.map PathRow.group then none else fromScratch v u g

lemma carried_inserting (v : Tables) (rows : List PathRow) :
    Carried hash (Inserting hash u users events v rows) where
  stable :=
    { own := fun σ h => h.rebuilding.1.own
      rely := fun σ σ' h hr => by
        have hf := frame_of_rely hr
        refine ⟨carried_rebuilding.stable.rely σ σ' h.rebuilding hr, h.found, h.nodup, ?_, ?_⟩
        · exact fun g => hf.isProjected h.rebuilding.1.own h.rebuilding.2 (h.target g)
        · exact fun g => (hf.get_projection h.rebuilding.2 g).trans (h.rest g) }
  monotone σ ls h :=
    ⟨carried_rebuilding.monotone σ ls h.rebuilding, h.found, h.nodup, h.target, h.rest⟩

lemma inserting_start (h : Deleting hash u users events [] σ) :
    Inserting hash u users events σ.view (folded σ.view u) σ where
  rebuilding := h.1
  found row hrow := mem_folded.1 hrow
  nodup := nodup_folded _ _
  target g := fromScratch_isProjected h.1.1.own.acyclic u g
  rest g := by
    have hnone : get σ.view (.projection u g) = none := by
      by_contra hne
      simpa using h.2 g (Option.isSome_iff_ne_none.2 hne)
    rw [hnone]
    split
    · rfl
    · rename_i hg
      cases hs : fromScratch σ.view u g with
      | none => rfl
      | some R =>
        refine absurd (List.mem_map.2 ⟨.ofRole g R, mem_folded.2 ⟨R, hs, rfl⟩, rfl⟩) hg

/-- The ranks of a role are read back as the role. -/
lemma insertFolded_ofRole (u g : Uuid) (R : Role) :
    insertFolded u (.ofRole g R) = (do let _ ← insertInto (.projection u g) R false) := by
  simp [insertFolded, PathRow.ofRole, AccessCeiling.ofIndex_rank, Role.new, R.write_le]

lemma insertInto_spec {k : Key} {r : Row k} {doNothing : Bool} {Q : Side → Prop}
    (hP : Carried hash P) (hQ : (setting hash).Stable Q)
    (h : ∀ σ, P σ → get σ.view k = none → Q (σ.put [⟨k, some r⟩])) :
    (setting hash).Triple P (insertInto k r doNothing)
      (fun b σ => if b then Q σ else P σ ∧ doNothing = true) failed := by
  refine (Triple.insertRow (Q := Q) hP.stable hP.monotone ?_ hQ ?_).bind fun b => ?_
  · simp [setting, system]
  · intro σ _ hσ _ hk
    exact h _ (hP.monotone σ _ hσ) hk
  cases b with
  | true => exact Triple.ret (by simpa using hQ) fun σ _ hσ => by simpa using hσ
  | false =>
    cases doNothing with
    | true => exact Triple.ret (by simpa using hP.stable) fun σ _ hσ => by simpa using hσ
    | false => exact Triple.fail (by simpa using hP.stable) fun σ hi _ => hi

lemma insertFolded_spec (v : Tables) (row : PathRow) (rows : List PathRow) :
    (setting hash).Triple (Inserting hash u users events v (row :: rows)) (insertFolded u row)
      (fun _ => Inserting hash u users events v rows) failed := by
  refine Triple.of_pure (fun σ h => h.found row List.mem_cons_self) ?_
  rintro ⟨R, hR, hrow⟩
  rw [(congrArg (insertFolded u) hrow).trans (insertFolded_ofRole u row.group R)]
  refine (insertInto_spec (Q := Inserting hash u users events v rows)
    (carried_inserting v (row :: rows)) (carried_inserting v rows).stable fun σ h _ => ?_).bind
    fun b => ?_
  · have hnodup := h.nodup
    rw [List.map_cons, List.nodup_cons] at hnodup
    refine ⟨h.rebuilding.put _, fun r hr => h.found r (List.mem_cons_of_mem _ hr), hnodup.2,
      fun g => ?_, fun g => ?_⟩
    · rw [Local.view_put]
      exact (IsProjected.congr fun r => (quiet_projection u _ _).pathRole).2 (h.target g)
    · rw [Local.view_put, List.singleton_append]
      by_cases hg : g = row.group
      · subst hg
        rw [get_cons_self, if_neg hnodup.1, hR]
      · rw [get_cons_ne _ _ (by simpa using hg), h.rest g]
        simp [hg]
  · cases b with
    | true =>
      exact Triple.ret (by simpa using (carried_inserting v rows).stable) fun σ _ h => by
        simpa using h
    | false => exact fun σ fs h => absurd h.2 (by simp)

/-- **One user is brought in step.** -/
theorem rebuildUser_spec :
    (setting hash).Triple (Pending hash (u :: users) events) (rebuildUser hash u)
      (fun _ => Pending hash users events) failed := by
  refine (lockName_spec (carried_pending _ _) _).bind fun _ => ?_
  refine deleteProjected_spec.bind fun _ => ?_
  refine (Triple.view (Q := fun v => Inserting hash u users events v (folded v u))
    (carried_deleting []).stable (fun v => (carried_inserting v _).stable)
    fun σ _ h => inserting_start h).bind fun v => ?_
  refine (Triple.forM (carried_inserting v []).stable (insertFolded_spec v) (folded v u)).post
    fun _ σ h => ?_
  obtain ⟨⟨hp, hl⟩, -, -, htarget, hrest⟩ := h
  refine ⟨hp.own, hp.owned, fun u' => ?_⟩
  rcases hp.inStep u' with hs | hmem | ha
  · exact .inl hs
  · rcases List.mem_cons.1 hmem with rfl | hmem
    · refine .inl (.inr ⟨hl, fun g => ?_⟩)
      rw [hrest g, if_neg (by simp)]
      exact htarget g
    · exact .inr (.inl hmem)
  · exact .inr (.inr ha)

lemma Pending.of_users {users' : List Uuid} {events' : List Event}
    (h : Pending hash users events σ) (he : events' ⊆ events)
    (hu : ∀ u, (u ∈ users ∨ ∃ e ∈ events, Affects σ.view u e) →
      u ∈ users' ∨ ∃ e ∈ events', Affects σ.view u e) : Pending hash users' events' σ :=
  ⟨h.own, fun c hc => h.owned c (he hc), fun u => (h.inStep u).imp id (hu u)⟩

theorem rebuildGroupRoleProjection_spec (users : List Uuid) :
    (setting hash).Triple (Pending hash users events) (rebuildGroupRoleProjection hash users)
      (fun _ => Pending hash [] events) failed := by
  refine Triple.pre (Triple.forM (P := fun us => Pending hash us events)
    (carried_pending [] events).stable (fun u us => rebuildUser_spec) _) fun σ h => ?_
  exact h.of_users (List.Subset.refl _) fun u hu =>
    hu.imp_left fun hu => (List.mem_insertionSort _).2 (List.mem_dedup.2 hu)

/-- **The AFTER trigger** rebuilds everyone its event affects. -/
theorem groupProjectionAfterWrite_spec (e : Event) (events : List Event) :
    (setting hash).Triple (Pending hash [] (e :: events)) (groupProjectionAfterWrite hash e)
      (fun _ => Pending hash [] events) failed := by
  cases e with
  | membership m =>
    refine (rebuildGroupRoleProjection_spec [m]).pre fun σ h => ?_
    refine h.of_users (List.subset_cons_self _ _) fun u hu => ?_
    rcases hu with hu | ⟨e, he, ha⟩
    · simp at hu
    · rcases List.mem_cons.1 he with rfl | he
      · exact .inl (List.mem_singleton.2 ha.symm)
      · exact .inr ⟨e, he, ha⟩
  | edge c =>
    refine (Triple.view (Q := fun v => Pending hash (affectedUsers v c) events)
      (carried_pending _ _).stable (fun v => (carried_pending _ _).stable) fun σ _ h => ?_).bind
      fun v => ?_
    · refine h.of_users (List.subset_cons_self _ _) fun u hu => ?_
      rcases hu with hu | ⟨e, he, ha⟩
      · simp at hu
      · rcases List.mem_cons.1 he with rfl | he
        · exact .inl ((mem_affectedUsers h.own.acyclic).2 ha)
        · exact .inr ⟨e, he, ha⟩
    · dsimp only
      split
      · exact rebuildGroupRoleProjection_spec _
      · rename_i hnil
        rw [not_not.1 hnil]
        exact Triple.ret (carried_pending _ _).stable fun σ _ h => h

end Proxiima.Groups
