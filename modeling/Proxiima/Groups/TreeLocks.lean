import Proxiima.Groups.Ownership

/-!
# Tree locks end on the true root

The root of a group is read before its lock is waited for, so it may be stale when the lock
is granted. The loop of `lock_group_tree` reads the root again and goes on only when it is
still the one it locked. At that moment the transaction owns the group: either no group on
the way to the root was written by the transaction, and the way is the committed one, or
one was, and then it was owned already. From then on no other transaction can change it.
-/

namespace Proxiima.Groups

open ReadCommitted Sql Setting

variable {hash : LockName → ℕ} {σ σ' : Side} {P : Side → Prop}

/-- What a failing statement leaves: nothing of it is written. -/
abbrev failed : Error → Side → Prop := fun _ σ => Sound σ.db

/-- An assertion the rules can carry through lock waits. -/
structure Carried (hash : LockName → ℕ) (P : Side → Prop) : Prop where
  stable : (setting hash).Stable P
  monotone : Monotone P

lemma Owned.acquire {x : Uuid} (h : Owned hash σ x) (ls : List Lock) :
    Owned hash (σ.acquire ls) x := by
  obtain ⟨r, hr, hl⟩ := h
  exact ⟨r, hr, List.mem_append_right _ hl⟩

section

variable (hP : Carried hash P)
include hP

lemma Carried.own (h : P σ) : Own hash σ := hP.stable.own σ h

lemma Carried.and {P' : Side → Prop} (h : ∀ σ σ', P σ → P' σ → Frame hash σ σ' → P' σ')
    (hm : Monotone P') :
    Carried hash fun σ => P σ ∧ P' σ where
  stable := hP.stable.and fun σ σ' hσ hσ' hr => h σ σ' hσ hσ' (frame_of_rely hr)
  monotone σ ls hσ := ⟨hP.monotone σ ls hσ.1, hm σ ls hσ.2⟩

lemma Carried.pure {φ : Prop} : Carried hash fun σ => P σ ∧ φ :=
  hP.and (fun _ _ _ hφ _ => hφ) fun _ _ hφ => hφ

lemma Carried.held (l : Lock) : Carried hash fun σ => P σ ∧ l ∈ σ.held :=
  hP.and (fun _ _ _ hl hf => hf.held ▸ hl) fun _ _ hl => List.mem_append_right _ hl

lemma Carried.owned (x : Uuid) : Carried hash fun σ => P σ ∧ Owned hash σ x :=
  hP.and (fun _ _ _ hx hf => hf.owned hx) fun _ ls hx => hx.acquire ls

lemma Carried.ifOwned (φ : Prop) (x : Uuid) : Carried hash fun σ => P σ ∧ (φ → Owned hash σ x) :=
  hP.and (fun _ _ _ hx hf hφ => hf.owned (hx hφ)) fun _ ls hx hφ => (hx hφ).acquire ls

end

/-- The lock of the root a transaction sees is the lock of the tree it must own. -/
lemma owned_of_root (ho : Own hash σ) {x : Uuid}
    (hl : treeLock hash (groupTreeRoot σ.view x) ∈ σ.held) : Owned hash σ x := by
  have hroot := groupTreeRoot_isRoot ho.acyclic x
  by_cases hw : ∃ c, Above (parent σ.view) x c ∧ Key.edge c ∈ σ.writes.keys
  · obtain ⟨c, hxc, hc⟩ := hw
    exact (ho.detached_view.mem_iff hxc).2 (ho.edge c hc).1
  · refine ⟨_, hroot.congr fun z hz => ?_, hl⟩
    rw [parent, parent, edgeOf_view_of_notMem fun hk => hw ⟨z, hz, hk⟩]

section

variable (hP : Carried hash P)
include hP

lemma lockName_spec (n : LockName) :
    (setting hash).Triple P (lockName hash n) (fun _ σ => P σ ∧ Lock.advisory (hash n) ∈ σ.held)
      failed :=
  Triple.lock_held hP.stable hP.monotone

/-- Looking at the tables with no use of what is found. -/
lemma view_spec : (setting hash).Triple P Prog.view (fun _ => P) failed :=
  Triple.look hP.stable

/-- A look that finds the locked root gives the group. -/
lemma view_root_spec (x r : Uuid) :
    (setting hash).Triple (fun σ => P σ ∧ treeLock hash r ∈ σ.held) Prog.view
      (fun v σ => (P σ ∧ treeLock hash r ∈ σ.held) ∧ (groupTreeRoot v x = r → Owned hash σ x))
      failed := by
  refine Triple.view (hP.held _).stable (fun v => ((hP.held _).ifOwned _ x).stable) ?_
  rintro σ - ⟨h, hl⟩
  refine ⟨⟨h, hl⟩, ?_⟩
  rintro rfl
  exact owned_of_root (hP.own h) hl

theorem lockGroupTreeLoop_spec (x : Uuid) (n : ℕ) :
    (setting hash).Triple P (lockGroupTreeLoop hash x n) (fun _ σ => P σ ∧ Owned hash σ x)
      failed := by
  induction n with
  | zero => exact Triple.fail hP.stable fun _ hi _ => hi
  | succ n ih =>
    refine (view_spec hP).bind fun v => ?_
    refine (lockName_spec hP _).bind fun _ => ?_
    refine (view_root_spec hP x _).bind fun v' => ?_
    dsimp only
    split
    · rename_i heq
      exact Triple.ret ((hP.held _).ifOwned _ x).stable fun σ _ h => ⟨h.1.1, h.2 heq.symm⟩
    · exact ih.pre fun σ h => h.1.1

theorem lockGroupTree_spec (x : Uuid) :
    (setting hash).Triple P (lockGroupTree hash x) (fun _ σ => P σ ∧ Owned hash σ x) failed :=
  (Triple.call (Q := fun _ => P) hP.stable (fun _ => hP.stable) fun _ _ _ _ h => h).bind
    fun n => lockGroupTreeLoop_spec hP x n

lemma lockRoots_spec (l r : Uuid) :
    (setting hash).Triple P (lockRoots hash l r)
      (fun _ σ => (P σ ∧ treeLock hash l ∈ σ.held) ∧ treeLock hash r ∈ σ.held) failed := by
  unfold lockRoots
  split
  · refine (lockName_spec hP _).bind fun _ => ?_
    split
    · exact lockName_spec (hP.held _) _
    · rename_i heq
      obtain rfl := not_not.1 heq
      exact Triple.ret (hP.held _).stable fun σ _ h => ⟨h, h.2⟩
  · refine (lockName_spec hP _).bind fun _ => ?_
    exact (lockName_spec (hP.held _) _).post fun _ _ h => ⟨⟨h.1.1, h.2⟩, h.1.2⟩

theorem lockGroupTreesLoop_spec (l r : Uuid) (n : ℕ) :
    (setting hash).Triple P (lockGroupTreesLoop hash l r n)
      (fun _ σ => (P σ ∧ Owned hash σ l) ∧ Owned hash σ r) failed := by
  induction n with
  | zero => exact Triple.fail hP.stable fun _ hi _ => hi
  | succ n ih =>
    refine (view_spec hP).bind fun v => ?_
    refine (view_spec hP).bind fun v' => ?_
    set a := groupTreeRoot v l
    set b := groupTreeRoot v' r
    refine (lockRoots_spec hP a b).bind fun _ => ?_
    have hPb := hP.held (treeLock hash b)
    refine ((view_root_spec hPb l a).pre fun σ h => ⟨⟨h.1.1, h.2⟩, h.1.2⟩).bind fun w => ?_
    have hPl := hP.ifOwned (groupTreeRoot w l = a) l
    refine ((view_root_spec hPl r b).pre fun σ h => ⟨⟨h.1.1.1, h.2⟩, h.1.1.2⟩).bind fun w' => ?_
    dsimp only
    split
    · rename_i heq
      exact Triple.ret ((hPl.held _).ifOwned _ r).stable fun σ _ h =>
        ⟨⟨h.1.1.1, h.1.1.2 heq.1⟩, h.2 heq.2⟩
    · exact ih.pre fun σ h => h.1.1.1

theorem lockGroupTrees_spec (l r : Uuid) :
    (setting hash).Triple P (lockGroupTrees hash l r)
      (fun _ σ => (P σ ∧ Owned hash σ l) ∧ Owned hash σ r) failed :=
  (Triple.call (Q := fun _ => P) hP.stable (fun _ => hP.stable) fun _ _ _ _ h => h).bind
    fun n => lockGroupTreesLoop_spec hP l r n

lemma lockName_keeps (n : LockName) :
    (setting hash).Triple P (lockName hash n) (fun _ => P) failed :=
  (lockName_spec hP n).post fun _ _ h => h.1

lemma lockOwnerKinds_spec (l r : Uuid) :
    (setting hash).Triple P (lockOwnerKinds hash l r) (fun _ => P) failed :=
  (lockName_keeps hP _).bind fun _ => lockName_keeps hP _

end

end Proxiima.Groups
