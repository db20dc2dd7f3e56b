import Proxiima.ReadCommitted.Triple

/-!
# From triples to every reachable state

When the transaction of each command, started with no writes and no locks, keeps its side
and commits only into the invariant, the invariant holds in every state the machine
reaches, and every live transaction has its side there. The induction is over the steps of
the machine: one transaction moves by its own program, and the rest see at most a commit.
-/

namespace ReadCommitted

variable {K : Type} {V : K → Type} {L E I A C R : Type}

/-- Every written row is locked, now and at each open savepoint, and a savepoint's locks
are still held. -/
structure Txn.WellLocked (rowLock : K → L) (t : Txn V L E I A C R) : Prop where
  row : ∀ fr ∈ (t.writes, t.held) :: t.saves, ∀ k ∈ fr.1.keys, rowLock k ∈ fr.2
  nested : ((t.writes, t.held) :: t.saves).Pairwise fun fr fr' => fr'.2 ⊆ fr.2

namespace Setting

variable (S : Setting V L E I A C R)

/-- What a transaction may assume when it starts. -/
structure Fresh (c : C) (σ : Local V L E C R) : Prop where
  inv : S.Inv σ
  cmd : σ.cmd = c
  since : σ.since = σ.hist.length
  writes : σ.writes = []
  held : σ.held = []

/-- A command is verified when its transaction commits into the invariant and records a
failure into it. -/
def Verified (c : C) : Prop :=
  S.Triple (S.Fresh c) (S.body c)
    (fun r σ => S.inv (σ.writes ++ σ.db) (σ.ended (.ok r) :: σ.hist))
    (fun e σ => S.inv σ.db (σ.ended (.error e) :: σ.hist))

/-- What holds of every reachable state. -/
structure Good (s : State V L E I A C R) : Prop where
  inv : S.inv s.db s.hist
  safe : ∀ t ∈ s.txns, S.Safe (fun e σ => S.inv σ.db (σ.ended (.error e) :: σ.hist))
    (fun r σ _ => S.inv (σ.writes ++ σ.db) (σ.ended (.ok r) :: σ.hist))
    t.prog (s.side t) t.saves
  locked : ∀ t ∈ s.txns, t.WellLocked S.rowLock
  apart : s.txns.Pairwise fun t u => S.Compatible t.held u.held

variable {S}

lemma Compatible.symm {hs hs' : List L} (h : S.Compatible hs hs') : S.Compatible hs' hs :=
  fun l hl l' hl' => S.symm l l' ▸ h l' hl' l hl

lemma free_iff {others : List (Txn V L E I A C R)} {l : L} :
    S.free others l = true ↔ ∀ u ∈ others, ∀ l' ∈ u.held, S.conflict l l' = false := by
  simp [System.free]

variable {t : Txn V L E I A C R} {t' : Txn V L E I A C R}

/-- A move of a transaction keeps it well locked, adds only free locks and stays safe. -/
lemma move_keeps {free : L → Bool} {db : Log V} {x : I} {a a' : A}
    (hm : S.move free db x a t = some (t', a')) (hl : t.WellLocked S.rowLock) :
    t'.WellLocked S.rowLock ∧ (∀ l ∈ t'.held, l ∈ t.held ∨ free l = true) ∧
      ∀ hist X Q, S.inv db hist →
        S.Safe X Q t.prog ⟨t.cmd, t.since, db, hist, t.writes, t.held⟩ t.saves →
        S.Safe X Q t'.prog ⟨t'.cmd, t'.since, db, hist, t'.writes, t'.held⟩ t'.saves := by
  obtain ⟨cmd, since, prog, writes, held, saves⟩ := t
  obtain ⟨hrow, hnest⟩ := hl
  simp only [List.pairwise_cons, List.forall_mem_cons] at hrow hnest
  cases prog with
  | ret | raise => simp [System.move] at hm
  | acquire l p =>
    obtain ⟨hfree, heq⟩ := by simpa [System.move] using hm
    obtain ⟨rfl, rfl⟩ := heq
    refine ⟨⟨?_, ?_⟩, ?_, fun hist X Q hi hs => (hs _ .refl hi).2⟩
    · exact List.forall_mem_cons.2 ⟨fun k hk => List.mem_cons_of_mem _ (hrow.1 k hk), hrow.2⟩
    · exact List.pairwise_cons.2
        ⟨fun fr hfr => List.Subset.trans (hnest.1 fr hfr) (List.subset_cons_self _ _), hnest.2⟩
    · intro l' hl'
      rcases List.mem_cons.1 hl' with rfl | h
      · exact .inr hfree
      · exact .inl h
  | look p =>
    obtain ⟨rfl, rfl⟩ := by simpa [System.move] using hm
    exact ⟨⟨List.forall_mem_cons.2 hrow, List.pairwise_cons.2 hnest⟩, fun l h => .inl h,
      fun hist X Q hi hs => (hs _ .refl hi).2⟩
  | put ws p =>
    obtain ⟨hfree, heq⟩ := by simpa [System.move] using hm
    obtain ⟨rfl, rfl⟩ := heq
    refine ⟨⟨?_, ?_⟩, ?_, fun hist X Q hi hs => (hs _ .refl hi).2⟩
    · refine List.forall_mem_cons.2 ⟨fun k hk => ?_, hrow.2⟩
      rw [List.keys, List.map_append, List.mem_append] at hk
      rcases hk with hk | hk
      · exact List.mem_append_left _ (List.mem_map_of_mem hk)
      · exact List.mem_append_right _ (hrow.1 k hk)
    · exact List.pairwise_cons.2
        ⟨fun fr hfr => List.Subset.trans (hnest.1 fr hfr) (List.subset_append_right _ _), hnest.2⟩
    · intro l' hl'
      rcases List.mem_append.1 hl' with h | h
      · obtain ⟨k, hk, rfl⟩ := List.mem_map.1 h
        exact .inr (hfree k hk)
      · exact .inl h
  | ask u p =>
    obtain ⟨rfl, rfl⟩ := by simpa [System.move] using hm
    exact ⟨⟨List.forall_mem_cons.2 hrow, List.pairwise_cons.2 hnest⟩, fun l h => .inl h,
      fun hist X Q hi hs => (hs _ .refl hi).2 x a⟩
  | save p =>
    obtain ⟨rfl, rfl⟩ := by simpa [System.move] using hm
    refine ⟨⟨?_, ?_⟩, fun l h => .inl h, fun hist X Q hi hs => (hs _ .refl hi).2⟩
    · exact List.forall_mem_cons.2 ⟨hrow.1, List.forall_mem_cons.2 hrow⟩
    · exact List.pairwise_cons.2
        ⟨List.forall_mem_cons.2 ⟨List.Subset.refl _, hnest.1⟩, List.pairwise_cons.2 hnest⟩
  | rollback p =>
    cases saves with
    | nil => simp [System.move] at hm
    | cons fr rest =>
      obtain ⟨rfl, rfl⟩ := by simpa [System.move] using hm
      refine ⟨⟨hrow.2, hnest.2⟩, fun l h => .inl (hnest.1 fr (by simp) h), ?_⟩
      intro hist X Q hi hs
      obtain ⟨-, fr', rest', heq, hp⟩ := hs _ .refl hi
      obtain ⟨rfl, rfl⟩ := List.cons.inj heq
      exact hp
  | release p =>
    cases saves with
    | nil => simp [System.move] at hm
    | cons fr rest =>
      obtain ⟨rfl, rfl⟩ := by simpa [System.move] using hm
      refine ⟨⟨?_, ?_⟩, fun l h => .inl h, ?_⟩
      · exact List.forall_mem_cons.2 ⟨hrow.1, (List.forall_mem_cons.1 hrow.2).2⟩
      · exact List.pairwise_cons.2
          ⟨(List.forall_mem_cons.1 hnest.1).2, (List.pairwise_cons.1 hnest.2).2⟩
      intro hist X Q hi hs
      obtain ⟨-, fr', rest', heq, hp⟩ := hs _ .refl hi
      obtain ⟨rfl, rfl⟩ := List.cons.inj heq
      exact hp

variable {s s' : State V L E I A C R}

/-- The live transactions, with one of them brought to the front. -/
lemma apart_middle {pre post : List (Txn V L E I A C R)} :
    (pre ++ t :: post).Pairwise (fun t u => S.Compatible t.held u.held) ↔
      (∀ u ∈ pre ++ post, S.Compatible t.held u.held) ∧
        (pre ++ post).Pairwise fun t u => S.Compatible t.held u.held := by
  rw [List.pairwise_middle fun h => Compatible.symm h, List.pairwise_cons]

/-- Dropping transactions keeps a state good, when those that stay are still safe. -/
lemma Good.sublist (hg : S.Good s) (hinv : S.inv s'.db s'.hist)
    (hsub : s'.txns.Sublist s.txns) (henv : ∀ u ∈ s'.txns, S.Env (s.side u) (s'.side u)) :
    S.Good s' where
  inv := hinv
  safe u hu := (hg.safe u (hsub.subset hu)).env (henv u hu)
  locked u hu := hg.locked u (hsub.subset hu)
  apart := hg.apart.sublist hsub

lemma Good.start (hv : ∀ c, S.Verified c) (hg : S.Good s) (c : C) :
    S.Good { s with txns := S.start c s.hist.length :: s.txns } where
  inv := hg.inv
  safe := List.forall_mem_cons.2
    ⟨(hv c (s.side (S.start c s.hist.length)) _ ⟨hg.inv, rfl, rfl, rfl, rfl⟩).imp
      fun _ _ _ h => h.1, fun u hu => hg.safe u hu⟩
  locked := List.forall_mem_cons.2 ⟨⟨by simp [System.start], by simp [System.start]⟩, hg.locked⟩
  apart := List.pairwise_cons.2 ⟨fun u _ l hl => by simp [System.start] at hl, hg.apart⟩

lemma Good.move (hg : S.Good s) {i : ℕ} {x : I} {a : A} (ht : s.txns[i]? = some t)
    (hm : S.move (S.free (s.txns.eraseIdx i)) s.db x s.aux t = some (t', a)) :
    S.Good { s with aux := a, txns := s.txns.set i t' } := by
  obtain ⟨pre, post, hts, herase, hset⟩ := split_txns ht
  rw [herase] at hm
  have hmem : t ∈ s.txns := List.mem_of_getElem? ht
  obtain ⟨hlock, hheld, hsafe⟩ := move_keeps hm (hg.locked t hmem)
  have hothers : ∀ u ∈ pre ++ post, u ∈ s.txns := by
    intro u hu
    rw [← herase] at hu
    exact List.mem_of_mem_eraseIdx hu
  have hapart := hg.apart
  rw [hts, apart_middle] at hapart
  have hnew : ∀ u, u ∈ pre ++ t' :: post ↔ u = t' ∨ u ∈ pre ++ post := by
    intro u
    simp only [List.mem_append, List.mem_cons]
    tauto
  refine ⟨hg.inv, ?_, ?_, ?_⟩ <;> simp only [hset]
  · intro u hu
    rcases (hnew u).1 hu with rfl | hu
    · exact hsafe s.hist _ _ hg.inv (hg.safe t hmem)
    · exact hg.safe u (hothers u hu)
  · intro u hu
    rcases (hnew u).1 hu with rfl | hu
    · exact hlock
    · exact hg.locked u (hothers u hu)
  · refine apart_middle.2 ⟨fun u hu l hl l' hl' => ?_, hapart.2⟩
    rcases hheld l hl with h | h
    · exact hapart.1 u hu l h l' hl'
    · exact free_iff.1 h u hu l' hl'

lemma Good.step (hv : ∀ c, S.Verified c) (hg : S.Good s) {a : Action I C}
    (hs : S.step s a = some s') : S.Good s' := by
  obtain ⟨c, rfl, rfl⟩ | ⟨i, rfl, rfl⟩ | ⟨i, x, t, rfl, ht, h⟩ := step_cases hs
  · exact hg.start hv c
  · exact hg.sublist hg.inv (List.eraseIdx_sublist _ _) fun u _ => .refl
  have hmem : t ∈ s.txns := List.mem_of_getElem? ht
  have hsafe := hg.safe t hmem
  obtain ⟨pre, post, hts, herase, -⟩ := split_txns ht
  have hapart := hg.apart
  rw [hts, apart_middle] at hapart
  obtain ⟨r, hr, rfl⟩ | ⟨e, he, rfl⟩ | ⟨t', aux, hm, rfl⟩ := h
  · -- `t` commits: its post-condition gives the invariant, and the others see one commit
    rw [hr] at hsafe
    obtain ⟨hown, hinv⟩ := hsafe _ .refl hg.inv
    refine hg.sublist hinv (List.eraseIdx_sublist _ _) fun u hu => .single ?_
    rw [herase] at hu
    exact .commit (s.side t) r hg.inv rfl rfl hown
      ((hg.locked t hmem).row _ List.mem_cons_self) (hapart.1 u hu) hinv
  · rw [he] at hsafe
    have hinv := (hsafe _ .refl hg.inv).2
    exact hg.sublist hinv (List.eraseIdx_sublist _ _) fun u _ =>
      .single (.refuse (s.side t) e hg.inv rfl hinv)
  · exact hg.move ht hm

/-- **Soundness**: when every command is verified, every reachable state is good. -/
theorem good_of_reachable (h0 : S.inv [] []) (hv : ∀ c, S.Verified c) {aux : A}
    (h : Reachable S.toSystem aux s) : S.Good s := by
  induction h with
  | init => exact ⟨h0, by simp [State.init], by simp [State.init], by simp [State.init]⟩
  | step _ hs ih => exact ih.step hv hs

theorem inv_of_reachable (h0 : S.inv [] []) (hv : ∀ c, S.Verified c) {aux : A}
    (h : Reachable S.toSystem aux s) : S.inv s.db s.hist :=
  (good_of_reachable h0 hv h).inv

/-- The side of every live transaction. -/
theorem Good.own (hg : S.Good s) (ht : t ∈ s.txns) : S.own (s.side t) :=
  (hg.safe t ht).own hg.inv

end Setting

end ReadCommitted
