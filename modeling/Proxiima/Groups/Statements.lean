import Proxiima.Groups.Rebuild

/-!
# Statements and whole runs

Each row change of a statement leaves its event pending, and the AFTER triggers take the
events off again, so between statements every projection is in step. A transaction that
commits then leaves a forest and a projection that is right for it. This holds for any
number of writers and any interleaving.
-/

namespace Proxiima.Groups

open ReadCommitted Sql Setting

variable {hash : LockName → ℕ} {σ σ' : Side} {P : Side → Prop}
variable {users : List Uuid} {events : List Event}

/-! ### BEFORE ROW triggers -/

section

variable (hP : Carried hash P)
include hP

lemma Carried.notAbove {c p : Uuid} (hp : ∀ σ, P σ → Owned hash σ p) (φ : Prop) :
    Carried hash fun σ => P σ ∧ (φ → ¬ Above (parent σ.view) p c) := by
  refine hP.and (fun σ σ' hσ h hf hφ habove => h hφ ?_) fun _ _ h => h
  exact (hf.detached_view' (hP.own hσ)).above_congr (fun z hz => (hf.parent_inside hz).symm)
    (hp σ hσ) habove

lemma Carried.attachable (c : Uuid) (o : Option Edge) :
    Carried hash fun σ => P σ ∧ Attachable hash σ c o := by
  refine hP.and (fun σ σ' hσ h hf => ⟨hf.owned h.child, fun e he => ?_⟩) fun σ ls h =>
    ⟨h.child.acquire ls, fun e he => ⟨(h.parent e he).1.acquire ls, (h.parent e he).2⟩⟩
  obtain ⟨hp, hna⟩ := h.parent e he
  refine ⟨hf.owned hp, fun habove => hna ?_⟩
  exact (hf.detached_view' (hP.own hσ)).above_congr
    (fun z hz => (hf.parent_inside hz).symm) hp habove

theorem groupEdgeBeforeWrite_spec (old : Option (Uuid × Uuid)) (c : Uuid) (e : Edge) :
    (setting hash).Triple P (groupEdgeBeforeWrite hash old c e.parent)
      (fun _ σ => (P σ ∧ ¬ old.any (· ≠ (c, e.parent))) ∧ Attachable hash σ c (some e)) failed := by
  refine (Triple.failIf hP.stable fun _ hi _ _ => hi).bind fun _ => ?_
  refine (lockGroupTrees_spec hP.pure c e.parent).bind fun _ => ?_
  have hC := ((hP.pure (φ := ¬ old.any (· ≠ (c, e.parent)))).owned c).owned e.parent
  refine (lockOwnerKinds_spec hC c e.parent).bind fun _ => ?_
  refine (Triple.failIf hC.stable fun _ hi _ _ => hi).bind fun _ => ?_
  refine (Triple.view (Q := fun v σ => ((((P σ ∧ _) ∧ Owned hash σ c) ∧
      Owned hash σ e.parent) ∧ ¬ c = e.parent) ∧
      (c ∉ ancestors v e.parent → ¬ Above (parent σ.view) e.parent c)) hC.pure.stable
    (fun v => (hC.pure.notAbove (fun σ h => h.1.2) _).stable) fun σ _ h => ⟨h, ?_⟩).bind fun v => ?_
  · exact fun hnot habove => hnot ((mem_ancestors (hC.own h.1).acyclic).2 habove)
  · refine (Triple.failIf (hC.pure.notAbove (fun σ h => h.1.2) _).stable
      fun _ hi _ _ => hi).post fun _ σ h => ?_
    obtain ⟨⟨⟨⟨⟨hp, hc⟩, he⟩, -⟩, hna⟩, hnot⟩ := h
    refine ⟨hp, hc, ?_⟩
    rintro _ ⟨⟩
    exact ⟨he, hna hnot⟩

lemma groupEdgeBeforeDelete_spec (c : Uuid) :
    (setting hash).Triple P (groupEdgeBeforeDelete hash c)
      (fun _ σ => P σ ∧ Attachable hash σ c none) failed :=
  (lockGroupTree_spec hP c).bind fun _ =>
    (lockName_keeps (hP.owned c) _).post fun _ _ h =>
      ⟨h.1, h.2, fun _ he => by cases he⟩

lemma groupMembershipBeforeDelete_spec (g m : Uuid) :
    (setting hash).Triple P (groupMembershipBeforeDelete hash g m)
      (fun _ σ => P σ ∧ Owned hash σ g) failed :=
  (lockGroupTree_spec hP g).bind fun _ => lockName_keeps (hP.owned g) _

lemma groupMembershipBeforeWrite_spec (old : Option (Uuid × Uuid)) (g m : Uuid) :
    (setting hash).Triple P (groupMembershipBeforeWrite hash old g m)
      (fun _ σ => (P σ ∧ Owned hash σ g) ∧ ¬ old.any (· ≠ (g, m))) failed := by
  refine (lockGroupTree_spec hP g).bind fun _ => ?_
  refine (Triple.failIf (hP.owned g).stable fun _ hi _ _ => hi).bind fun _ => ?_
  refine (lockName_keeps (hP.owned g).pure _).bind fun _ => ?_
  refine (view_spec (hP.owned g).pure).bind fun v => ?_
  exact (Triple.failIf (hP.owned g).pure.stable fun _ hi _ _ => hi).post fun _ _ h => h.1

lemma ownerGroupKindGuard_spec (o : Uuid) (kind : OwnerKind) :
    (setting hash).Triple P (ownerGroupKindGuard hash o kind) (fun _ => P) failed := by
  cases kind with
  | personal => exact Triple.ret hP.stable fun _ _ h => h
  | group =>
    refine (lockGroupTree_spec hP o).bind fun _ => ?_
    refine (lockName_keeps (hP.owned o) _).bind fun _ => ?_
    refine (view_spec (hP.owned o)).bind fun v => ?_
    split
    · refine (view_spec (hP.owned o)).bind fun v => ?_
      exact (Triple.failIf (hP.owned o).stable fun _ hi _ _ => hi).post fun _ _ h => h.1.1
    · exact Triple.ret (hP.owned o).stable fun _ _ h => h.1

/-! ### Row changes -/

lemma lockedRow_spec (k : Key) : (setting hash).Triple P (lockedRow k) (fun _ => P) failed :=
  (Triple.lockRow hP.stable hP.monotone (by simp [setting, system])).post fun _ _ h => h.1

end

/-- Writing the edge once its trees are locked. -/
lemma write_edge_spec (c : Uuid) (o : Option Edge) :
    (setting hash).Triple (fun σ => Pending hash [] events σ ∧ Attachable hash σ c o)
      (Prog.write [⟨.edge c, o⟩]) (fun _ => Pending hash [] (events ++ [.edge c])) failed := by
  refine Triple.write ((carried_pending [] events).attachable c o).stable
    (carried_pending _ _).stable fun σ _ h => ?_
  have h' := ((carried_pending [] events).attachable c o).monotone σ [.row (.edge c)] h
  exact h'.1.put_edge h'.2

lemma write_membership_spec (g m : Uuid) (relation : Relation) (o : Option Unit) :
    (setting hash).Triple (fun σ => Pending hash [] events σ ∧ Owned hash σ g)
      (Prog.write [⟨.membership g m relation, o⟩])
      (fun _ σ => Pending hash [] (events ++ [.membership m]) σ ∧ Owned hash σ g) failed := by
  refine Triple.write ((carried_pending [] events).owned g).stable
    ((carried_pending _ _).owned g).stable fun σ _ h => ?_
  have h' := ((carried_pending [] events).owned g).monotone σ [.row (.membership g m relation)] h
  exact ⟨h'.1.put_membership h'.2, h'.2⟩

/-- A membership event that is already pending is not made worse by writing the row again. -/
lemma Pending.merge {m : Uuid}
    (h : Pending hash [] ((events ++ [.membership m]) ++ [.membership m]) σ) :
    Pending hash [] (events ++ [.membership m]) σ := by
  refine h.of_users (by simp) fun u hu => hu.imp_right ?_
  rintro ⟨e, he, ha⟩
  exact ⟨e, by simpa using he, ha⟩

theorem changeRow_spec (change : RowChange) :
    (setting hash).Triple (Pending hash [] events) (changeRow hash change)
      (fun e => Pending hash [] (events ++ e.toList)) failed := by
  have hP : Carried hash (Pending hash [] events) := carried_pending _ _
  have hnone : (setting hash).Triple (Pending hash [] events) (pure none)
      (fun e : Option Event => Pending hash [] (events ++ e.toList)) failed :=
    Triple.ret hP.stable fun σ _ h => by simpa using h
  have hsome : ∀ e, (setting hash).Triple (Pending hash [] (events ++ [e])) (pure (some e))
      (fun e : Option Event => Pending hash [] (events ++ e.toList)) failed :=
    fun e => Triple.ret (carried_pending _ _).stable fun σ _ h => h
  cases change with
  | insertEdge c e doNothing =>
    refine (groupEdgeBeforeWrite_spec hP none c e).bind fun _ => ?_
    have hA := (hP.pure (φ := ¬ (none : Option (Uuid × Uuid)).any (· ≠ (c, e.parent)))).attachable
      c (some e)
    refine (insertInto_spec (Q := Pending hash [] (events ++ [.edge c])) hA
      (carried_pending _ _).stable fun σ h _ => h.1.1.put_edge h.2).bind fun b => ?_
    cases b with
    | true => exact hsome _
    | false => exact hnone.pre fun σ h => h.1.1.1
  | updateEdge c set =>
    refine (lockedRow_spec hP _).bind fun old => ?_
    cases old with
    | none => exact hnone
    | some old =>
      dsimp only
      cases hset : set old with
      | none => exact hnone
      | some new =>
        obtain ⟨c', new⟩ := new
        refine (groupEdgeBeforeWrite_spec hP _ c' new).bind fun _ => ?_
        refine Triple.of_pure (fun σ h => h.1.2) fun hid => ?_
        obtain ⟨rfl, hpar⟩ : c = c' ∧ old.parent = new.parent := by simpa using hid
        exact ((write_edge_spec c (some new)).pre fun σ h => ⟨h.1.1, h.2⟩).bind fun _ => hsome _
  | deleteEdge c condition =>
    refine (lockedRow_spec hP _).bind fun old => ?_
    cases old with
    | none => exact hnone
    | some old =>
      dsimp only
      split
      · refine (groupEdgeBeforeDelete_spec hP c).bind fun _ => ?_
        exact (write_edge_spec c none).bind fun _ => hsome _
      · exact hnone
  | insertMembership g m relation doNothing =>
    refine (groupMembershipBeforeWrite_spec hP none g m).bind fun _ => ?_
    have hG := (hP.owned g).pure (φ := ¬ (none : Option (Uuid × Uuid)).any (· ≠ (g, m)))
    refine (insertInto_spec (Q := Pending hash [] (events ++ [.membership m])) hG
      (carried_pending _ _).stable fun σ h _ => h.1.1.put_membership h.1.2).bind fun b => ?_
    cases b with
    | true => exact hsome _
    | false => exact hnone.pre fun σ h => h.1.1.1
  | updateMembership g m relation g' m' relation' =>
    refine (lockedRow_spec hP _).bind fun old => ?_
    cases old with
    | none => exact hnone
    | some _ =>
      refine (groupMembershipBeforeWrite_spec hP _ g' m').bind fun _ => ?_
      refine Triple.of_pure (fun σ h => h.2) fun hid => ?_
      obtain ⟨rfl, rfl⟩ : g = g' ∧ m = m' := by simpa using hid
      refine ((write_membership_spec g m relation none).pre fun σ h => h.1).bind fun _ => ?_
      have hG : Carried hash fun σ =>
          Pending hash [] (events ++ [.membership m]) σ ∧ Owned hash σ g :=
        (carried_pending _ _).owned g
      refine (insertInto_spec (Q := Pending hash [] (events ++ [.membership m])) hG
        (carried_pending _ _).stable fun σ h _ => (h.1.put_membership h.2).merge).bind fun b => ?_
      cases b with
      | true => exact hsome _
      | false => exact fun σ fs h => absurd h.2 (by simp)
  | deleteMembership g m relation =>
    refine (lockedRow_spec hP _).bind fun old => ?_
    cases old with
    | none => exact hnone
    | some _ =>
      refine (groupMembershipBeforeDelete_spec hP g m).bind fun _ => ?_
      refine (write_membership_spec g m relation none).bind fun _ => ?_
      exact (hsome _).pre fun σ h => h.1
  | insertOwner o kind =>
    refine (ownerGroupKindGuard_spec hP o kind).bind fun _ => ?_
    refine (insertInto_spec (Q := Pending hash [] events) hP hP.stable fun σ h _ => ?_).bind
      fun b => ?_
    · refine h.put_quiet (fun k hk => .inl ⟨o, by simpa using hk⟩) fun u g hk => ?_
      simp at hk
    · refine hnone.pre fun σ h => ?_
      cases b <;> simp_all

theorem changeRows_spec (changes : List RowChange) (events : List Event) :
    (setting hash).Triple (Pending hash [] events) (changeRows hash changes)
      (fun es => Pending hash [] (events ++ es)) failed := by
  induction changes generalizing events with
  | nil => exact Triple.ret (carried_pending _ _).stable fun σ _ h => by simpa using h
  | cons c cs ih =>
    refine (changeRow_spec c).bind fun e => ?_
    refine (ih (events ++ e.toList)).bind fun es => ?_
    exact Triple.ret (carried_pending _ _).stable fun σ _ h => by
      rwa [List.append_assoc] at h

/-! ### Statements and transactions -/

lemma lockNames_spec (hP : Carried hash P) (f : Uuid → LockName) (xs : List Uuid) :
    (setting hash).Triple P (xs.forM fun x => lockName hash (f x)) (fun _ => P) failed :=
  Triple.forM (P := fun _ => P) hP.stable (fun x _ => lockName_keeps hP (f x)) xs

/-- **One statement**: whatever rows it changes, its triggers leave nothing pending. -/
theorem runStatement_spec (statement : Statement) :
    (setting hash).Triple (Pending hash [] []) (runStatement hash statement)
      (fun _ => Pending hash [] []) failed := by
  have hP : Carried hash (Pending hash [] []) := carried_pending _ _
  cases statement with
  | change rows =>
    refine (view_spec hP).bind fun v => ?_
    refine (changeRows_spec (rows v) []).bind fun es => ?_
    exact Triple.forM (P := fun es => Pending hash [] es) hP.stable
      groupProjectionAfterWrite_spec es
  | lockRequest left right =>
    cases right with
    | none => exact (lockGroupTree_spec hP left).post fun _ _ h => h.1
    | some right =>
      refine (lockGroupTrees_spec hP left right).bind fun _ => ?_
      exact (lockOwnerKinds_spec ((hP.owned left).owned right) left right).post fun _ _ h => h.1.1
  | lockAuthority owners subjects =>
    exact (lockNames_spec hP .ownerKind _).bind fun _ => lockNames_spec hP .groupProjection _

/-- A transaction that has written nothing has nothing pending. -/
lemma pending_of_fresh {statements : List Statement} (h : (setting hash).Fresh statements σ) :
    Pending hash [] [] σ := by
  have hinv : Sound σ.db := h.inv
  have hw := h.writes
  have hview : σ.view = σ.db := by rw [Local.view, hw, List.nil_append]
  refine ⟨⟨?_, ?_, ?_, ?_⟩, by simp, fun u => .inl (.inl ⟨fun g r => by rw [hview], by simp [hw]⟩)⟩
  · rw [hview]
    exact hinv.acyclic
  all_goals simp [hw]

/-- With nothing pending, what would be committed is sound. -/
lemma Pending.sound (h : Pending hash [] [] σ) (hdb : Sound σ.db) : Sound σ.view := by
  refine ⟨h.own.acyclic, fun u g => ?_⟩
  rcases h.inStep u with (⟨hpaths, hkeys⟩ | ⟨-, hproj⟩) | hmem | ⟨e, he, -⟩
  · rw [Local.view, get_append_of_notMem (hkeys g)]
    exact (IsProjected.congr (hpaths g)).2 (hdb.projected u g)
  · exact hproj g
  · simp at hmem
  · simp at he

theorem verified (hash : LockName → ℕ) (statements : List Statement) :
    (setting hash).Verified statements := by
  have hC : Carried hash (Pending hash [] []) := carried_pending _ _
  have hrun : (setting hash).Triple (Pending hash [] []) (runStatements hash statements)
      (fun _ => Pending hash [] []) failed :=
    Triple.forM (P := fun _ => Pending hash [] []) hC.stable (fun s _ => runStatement_spec s) _
  refine (hrun.pre fun σ h => pending_of_fresh h).mono (fun _ σ hi h => ?_) fun _ _ _ hx => hx
  exact h.sound hi

lemma sound_nil : Sound [] where
  acyclic x hx := by
    obtain ⟨y, hy, -⟩ := Relation.TransGen.head'_iff.1 hx
    cases hy
  projected u g := by
    intro r hr
    induction hr with
    | direct h => cases h
    | up _ he => cases he

abbrev Machine := State Row Lock Error ℕ Unit (List Statement) Unit

variable {s : Machine}

theorem good_of_reachable (hash : LockName → ℕ) (h : Reachable (system hash) () s) :
    (setting hash).Good s :=
  Setting.good_of_reachable sound_nil (verified hash) h

/-! ### Every committed state -/

/-- **The projection is exact.** Whatever the writers and their interleaving, a projection row
is there exactly for a user who reaches the group, its role is the join over all ways to
reach it, and the table is the one computed from scratch. -/
theorem projection_exact (hash : LockName → ℕ) (h : Reachable (system hash) () s) (u g : Uuid) :
    ((get s.db (.projection u g)).isSome ↔ ∃ r, PathRole s.db u g r) ∧
      (∀ R, get s.db (.projection u g) = some R → IsLUB {r | PathRole s.db u g r} R) ∧
      get s.db (.projection u g) = fromScratch s.db u g := by
  have hsound : Sound s.db := (good_of_reachable hash h).inv
  have hp := hsound.projected u g
  refine ⟨?_, fun R hR => ?_, hp.unique (fromScratch_isProjected hsound.acyclic u g)⟩
  · cases hget : get s.db (.projection u g) with
    | none =>
      rw [hget] at hp
      exact ⟨fun hsome => by simp at hsome, fun ⟨r, hr⟩ => absurd hr (hp r)⟩
    | some R =>
      rw [hget] at hp
      simpa using hp.1
  · rw [hR] at hp
    exact hp.2

/-- A hash without collisions, to run the tables with. -/
def plainHash : LockName → ℕ
  | .groupTree root => 3 * root
  | .ownerKind owner => 3 * owner + 1
  | .groupProjection user => 3 * user + 2

/-- One transaction hangs group 1 under group 2 as an editor and makes user 7 an admin of 1. -/
def editorChild : List (Action ℕ (List Statement)) :=
  .start [.change fun _ =>
    [.insertEdge 1 ⟨2, .editor⟩ false, .insertMembership 1 7 .admin false]] ::
    List.replicate 71 (.run 0 1)

/-- The user then has the editor's role in 2. -/
theorem projection_exact_editor :
    ∃ s, (system plainHash).run (State.init ()) editorChild = some s ∧
      get s.db (.projection 7 2) = some Role.editor ∧
        IsLUB {r | PathRole s.db 7 2 r} Role.editor := by
  have hrun : ((system plainHash).run (State.init ()) editorChild).map
      (fun s => get s.db (.projection 7 2)) = some (some Role.editor) := by decide +kernel
  obtain ⟨s, hs, hget⟩ := Option.map_eq_some_iff.1 hrun
  exact ⟨s, hs, hget, (projection_exact _ (Reachable.run .init hs) 7 2).2.1 _ hget⟩

/-- The transaction `t` has an attachment of the group to a parent pending in state `s`. -/
def Attaches (s : Machine) (t : Txn Row Lock Error ℕ Unit (List Statement) Unit)
    (child p : Uuid) : Prop :=
  Key.edge child ∈ t.writes.keys ∧ parent (s.side t).view child = some p

def SameTree (v : Tables) (x y : Uuid) : Prop :=
  ∃ r, IsRoot (parent v) x r ∧ IsRoot (parent v) y r

lemma Owned.sameTree {x y : Uuid} (h : Owned hash σ x) (hs : SameTree σ.db x y) :
    Owned hash σ y := by
  obtain ⟨r, hr, hl⟩ := h
  obtain ⟨r', hx, hy⟩ := hs
  obtain rfl := hr.unique hx
  exact ⟨r, hy, hl⟩

/-- **The edges are a forest**, committed and in the view of every live transaction, which
is what it would commit. Two live transactions never have attachments pending of which one
hangs into a tree that the other moves. -/
theorem edges_forest (hash : LockName → ℕ) (h : Reachable (system hash) () s) :
    (∀ c e e', (c, e) ∈ edges s.db → (c, e') ∈ edges s.db → e = e') ∧
      Acyclic (parent s.db) ∧ (∀ t ∈ s.txns, Acyclic (parent (s.side t).view)) ∧
      s.txns.Pairwise fun t t' => ∀ a p b q, Attaches s t a p → Attaches s t' b q →
        ¬ SameTree s.db p b ∧ ¬ SameTree s.db q a := by
  have hgood := good_of_reachable hash h
  have hown : ∀ t ∈ s.txns, Own hash (s.side t) := fun t ht => hgood.own ht
  refine ⟨fun c e e' he he' => ?_, (show Sound s.db from hgood.inv).acyclic,
    fun t ht => (hown t ht).acyclic, hgood.apart.imp_of_mem ?_⟩
  · exact Option.some.inj ((mem_edges.1 he).symm.trans (mem_edges.1 he'))
  · intro t t' ht ht' hc a p b q hap hbq
    obtain ⟨hoa, hop⟩ := (hown t ht).edge a hap.1
    obtain ⟨hob, hoq⟩ := (hown t' ht').edge b hbq.1
    obtain ⟨e, he, rfl⟩ := up_parent.1 hap.2
    obtain ⟨e', he', rfl⟩ := up_parent.1 hbq.2
    refine ⟨fun hs => ?_, fun hs => ?_⟩
    · exact ((hop e he).sameTree hs).disjoint (σ := s.side t') rfl hc hob
    · exact hoa.disjoint (σ := s.side t') rfl hc ((hoq e' he').sameTree hs)

/-- Two transactions attach 1 under 2 and 2 under 1. -/
def crossingEdges : List (Action ℕ (List Statement)) :=
  .start [.change fun _ => [.insertEdge 2 ⟨1, .editor⟩ false]] ::
    .start [.change fun _ => [.insertEdge 1 ⟨2, .editor⟩ false]] ::
    (List.replicate 5 (.run 0 2) ++ List.replicate 4 (.run 1 2) ++ List.replicate 27 (.run 0 2))

/-- The second waits for the first and is then refused; the one edge that was committed is a
forest. -/
theorem edges_forest_crossing :
    ∃ s, (system plainHash).run (State.init ()) crossingEdges = some s ∧
      s.hist.map Entry.result = [.error .wouldCreateCycle, .ok ()] ∧ parent s.db 1 = some 2 ∧
      Acyclic (parent s.db) := by
  have hrun : ((system plainHash).run (State.init ()) crossingEdges).map
      (fun s => (s.hist.map Entry.result, parent s.db 1)) =
        some ([.error .wouldCreateCycle, .ok ()], some 2) := by decide +kernel
  obtain ⟨s, hs, heq⟩ := Option.map_eq_some_iff.1 hrun
  obtain ⟨hhist, hparent⟩ := Prod.mk.inj heq
  exact ⟨s, hs, hhist, hparent, (edges_forest _ (Reachable.run .init hs)).2.1⟩

end Proxiima.Groups
