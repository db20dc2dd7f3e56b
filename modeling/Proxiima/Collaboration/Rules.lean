import Proxiima.Collaboration.System

/-!
# What a collaboration transaction knows

Which locks keep which rows, and how the shared parts of the transactions run.
-/

namespace Proxiima.Collaboration

open ReadCommitted ReadCommitted.Guarded Authz Prog

variable {H : Hash} {ls : List Lock} {st : Stand Row Lock}

/-! ### Locks and rows -/

variable {k : Key} {t : Uuid}

lemma covers_of_conflict {o : Option (Row k)}
    (h : ∀ o', legal k o o' → ∃ g ∈ .row k :: guards H k o o', ∃ l ∈ ls,
      TableLock.conflict g l = true) : (system H).Covers ls k o := by
  rintro o' ⟨hlegal, hfree⟩
  obtain ⟨g, hg, l, hl, hc⟩ := h o' hlegal
  cases hc.symm.trans (hfree g hg l hl)

lemma covers_row (h : .row k ∈ ls) (o : Option (Row k)) : (system H).Covers ls k o :=
  covers_of_row h (TableLock.conflict_row_self k) o

lemma covers_share (h : .share k ∈ ls) (o : Option (Row k)) : (system H).Covers ls k o :=
  covers_of_row h (TableLock.conflict_row_share k) o

/-- A fence of its owner keeps the head of a series. -/
lemma covers_head {handle : Uuid} {r : MemoryHead} {x : Bool}
    (h : .advisory (H (.ownerFence r.ownerId)) x ∈ ls) :
    (system H).Covers ls (.memoryHead handle) (some r) :=
  covers_of_conflict fun o' hlegal => by
    cases o' with
    | none => exact hlegal.elim
    | some r' => exact ⟨_, List.mem_cons_of_mem _ List.mem_cons_self, _, h, by simp [exclusive]⟩

lemma covers_head_of_handle {handle : Uuid} (h : exclusive H (.memoryHandle handle) ∈ ls)
    (o : Option MemoryHead) : (system H).Covers ls (.memoryHead handle) o :=
  covers_of_conflict fun o' _ => by
    refine ⟨exclusive H (.memoryHandle handle), ?_, _, h, by simp [exclusive]⟩
    cases o <;> cases o' <;> simp [guards]

lemma covers_memory_of_handle {m : MemoryRow} (h : exclusive H (.memoryHandle m.handle) ∈ ls) :
    (system H).Covers ls (.memory t) (some m) :=
  covers_of_conflict fun _ _ =>
    ⟨_, List.mem_cons_of_mem _ List.mem_cons_self, _, h, by simp [exclusive]⟩

lemma covers_role {subject owner : Uuid} {x : Bool}
    (h : .advisory (H (.authority owner)) x ∈ ls) (o : Option Role) :
    (system H).Covers ls (.role subject owner) o :=
  covers_of_conflict fun _ _ =>
    ⟨_, List.mem_cons_of_mem _ List.mem_cons_self, _, h, by simp [exclusive]⟩

section Goals

variable {goal : Uuid} (h : .row (.goalHead goal) ∈ ls)

include h

lemma covers_grant (subject : Uuid) (o : Option GoalAccessGrant) :
    (system H).Covers ls (.goalAccessGrant goal subject) o :=
  covers_of_conflict fun _ _ =>
    ⟨_, List.mem_cons_of_mem _ List.mem_cons_self, _, h, TableLock.conflict_row_self _⟩

lemma covers_publication (t : Uuid) (o : Option GoalMemoryPublication) :
    (system H).Covers ls (.goalMemoryPublication goal t) o :=
  covers_of_conflict fun _ _ =>
    ⟨_, List.mem_cons_of_mem _ List.mem_cons_self, _, h, TableLock.conflict_row_self _⟩

lemma covers_binding (handle : Uuid) (o : Option GoalWorkBinding) :
    (system H).Covers ls (.goalWorkBinding goal handle) o :=
  covers_of_conflict fun _ _ =>
    ⟨_, List.mem_cons_of_mem _ List.mem_cons_self, _, h, TableLock.conflict_row_self _⟩

end Goals

/-- A version of a Goal is never changed. -/
lemma covers_goal (g : GoalRow) : (system H).Covers ls (.goal t) (some g) :=
  covers_of_conflict fun _ hlegal => hlegal.elim

/-- A memory keeps its series and its kind. -/
lemma memory_of_follows {d d' : Tables} (h : (system H).Follows ls d d') {m : MemoryRow}
    (hm : get d (.memory t) = some m) :
    ∃ m', get d' (.memory t) = some m' ∧ m'.handle = m.handle ∧ m'.kind = m.kind := by
  refine h.keeps (k := .memory t) (P := fun o : Option MemoryRow =>
    ∃ m', o = some m' ∧ m'.handle = m.handle ∧ m'.kind = m.kind) ⟨m, hm, rfl, rfl⟩ ?_
  rintro o o' ⟨m', rfl, hhandle, hkind⟩ ⟨hlegal, -⟩
  cases o' with
  | none => exact hlegal.elim
  | some m'' => exact ⟨m'', rfl, hlegal.1.trans hhandle, hlegal.2.trans hkind⟩

/-! ### The shared parts -/

abbrev Post (α : Type) : Type := α → Stand Row Lock → Prop

@[simp] lemma wp_clocks {Q : Post (ℕ × ℕ)} :
    (system H).Wp clocks Q st ↔ ∀ clock, Q clock st :=
  ⟨fun h clock => h ⟨clock.1, clock.2, true, true⟩ (), fun h _ _ => h _⟩

@[simp] lemma wp_probe {e : StorageError} {Q : Post Unit} :
    (system H).Wp (probe e) Q st ↔ Q () st := by
  refine ⟨fun h => ?_, fun h x _ => wp_failIf.2 fun _ => h⟩
  exact wp_failIf.1 (h ⟨0, 0, true, true⟩ ()) (by simp)

@[simp] lemma wp_orFail {α : Type} {o : Option α} {e : StorageError}
    {Q : Post α} :
    (system H).Wp (orFail o e) Q st ↔ ∀ a, o = some a → Q a st := by
  cases o <;> simp [orFail]

variable {scope : OwnerScope} {roles : Uuid → Option Role}

lemma wp_fencedRoles {owners : List Uuid} {Q : Post (Uuid → Option Role)}
    (h : ∀ st' d, st'.Extends st → fences H false owners ⊆ st'.held →
      authorities H owners ⊆ st'.held → (system H).Possible st' d →
      scope.goalPrincipal ≠ none →
      Q (effectiveRole (st.writes ++ d) scope.roles.subject) (st'.see d)) :
    (system H).Wp (fencedRoles H scope owners) Q st := by
  simp only [fencedRoles, wp_bind, wp_clocks, wp_failIf]
  intro clock hscope
  refine wp_lockAll (G := system H) fun st₁ hst₁ hfences _ => ?_
  refine wp_lockAll (G := system H) fun st₂ hst₂ hauth _ => ?_
  simp only [wp_view, wp_pure]
  intro d hd
  have hext := hst₂.trans hst₁
  rw [hext.writes]
  refine h st₂ d hext (List.Subset.trans hfences hst₂.held) hauth hd ?_
  exact fun hnone => hscope (.inr hnone)

lemma wp_roleForGoal {goal controller : Uuid} {generation : ℕ} {Q : Post ((ℕ × ℕ) × Option Role)}
    (h : ∀ clock d, (system H).Possible st d →
      Q (clock, goalRole (st.writes ++ d) clock scope roles goal controller generation) (st.see d))
    : (system H).Wp (roleForGoal scope roles goal controller generation) Q st := by
  simp only [roleForGoal, wp_bind, wp_failIf, wp_clocks, wp_view, wp_pure]
  exact fun _ clock d hd => h clock d hd

lemma wp_lockGoalManager {permit : GoalCommandPermit} (hw : st.writes = []) {Q : Post (Option Role)}
    (h : ∀ role st', st'.writes = [] → .row (.goalHead permit.goal) ∈ st'.held →
      st.held ⊆ st'.held → Q role st') :
    (system H).Wp (lockGoalManager permit roles) Q st := by
  simp only [lockGoalManager, wp_bind, wp_lock, wp_view, wp_orFail, wp_failIf]
  intro d _ head _ _
  refine wp_roleForGoal fun clock d' _ => ?_
  exact h _ _ hw List.mem_cons_self (List.subset_cons_self _ _)

end Proxiima.Collaboration
