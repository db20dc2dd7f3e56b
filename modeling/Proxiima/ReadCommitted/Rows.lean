import Proxiima.ReadCommitted.Triple

/-!
# Locking and inserting single rows

An UPDATE or DELETE waits for the lock of the row it found and looks at the row again; when
the row is gone it goes on without it and keeps no lock. An INSERT waits for a concurrent
insert of the same key and gives up, also without a lock, when the key is taken. Both are
built from a savepoint, which is what drops the lock.
-/

namespace ReadCommitted

variable {K : Type} {V : K → Type} {L E I A C R : Type} [DecidableEq K]

namespace Prog

/-- Wait for the lock `l` of the row under `k`; the row, or `none` and no lock when there is
none. -/
def lockRow (l : L) (k : K) : Prog V L E I A (Option (V k)) :=
  attempt
    (do
      lock l
      let v ← view
      pure ((get v k).map some))
    (pure none)

/-- Insert a row; whether it was inserted. -/
def insertRow (l : L) (k : K) (r : V k) : Prog V L E I A Bool := do
  let v ← view
  if (get v k).isSome then
    pure false
  else
    attempt
      (do
        lock l
        let v ← view
        if (get v k).isSome then
          pure none
        else
          write [⟨k, some r⟩]
          pure (some true))
      (pure false)

end Prog

namespace Setting

variable {S : Setting V L E I A C R}
variable {P : Local V L E C R → Prop} {X : E → Local V L E C R → Prop}
variable {σ σ' : Local V L E C R} {k : K} {l : L}

/-! ### What a lock protects -/

/-- A key that others write only under the lock `l` is stable for the holder of a lock
against it. -/
lemma Rely.get_db_of_guard (h : S.Rely σ σ') {l' : L} (hl : l ∈ σ.held)
    (hguard : ∀ u, S.own u → (∀ k ∈ u.writes.keys, S.rowLock k ∈ u.held) → k ∈ u.writes.keys →
      l' ∈ u.held) (hc : S.conflict l' l = true) : get σ'.db k = get σ.db k := by
  cases h with
  | commit u r hinv hdb hhist hown hrow hcompat hinv' =>
    refine get_append_of_notMem fun hk => ?_
    have := hcompat l' (hguard u hown hrow hk) l hl
    simp [hc] at this
  | refuse => rfl

lemma Rely.get_view_of_db (h : S.Rely σ σ') (hdb : get σ'.db k = get σ.db k) :
    get σ'.view k = get σ.view k := by
  rw [Local.view, Local.view, h.keeps.1]
  exact get_append_congr _ hdb

/-- The holder of a row's lock, or of one against it, sees the row unchanged. -/
lemma Rely.get_view_of_row (h : S.Rely σ σ') (hl : l ∈ σ.held)
    (hc : S.conflict (S.rowLock k) l = true) : get σ'.view k = get σ.view k :=
  h.get_view_of_db (h.get_db_of_guard hl (fun _ _ hrow hk => hrow k hk) hc)

/-! ### Rules -/

/-- The row under a locked key is a stable fact. -/
lemma Stable.row (h : S.Stable P) (hc : S.conflict (S.rowLock k) l = true) (o : Option (V k)) :
    S.Stable fun σ => (P σ ∧ l ∈ σ.held) ∧ get σ.view k = o :=
  (h.held l).and fun _ _ hσ ho hr => (hr.get_view_of_row hσ.2 hc).trans ho

/-- What locking a row has found stays there. -/
lemma Stable.found (h : S.Stable P) (hc : S.conflict (S.rowLock k) l = true) (o : Option (V k)) :
    S.Stable fun σ => P σ ∧ ∀ r, o = some r → l ∈ σ.held ∧ get σ.view k = some r :=
  h.and fun _ _ _ ho hr r hor =>
    ⟨hr.keeps.2 ▸ (ho r hor).1, (hr.get_view_of_row (ho r hor).1 hc).trans (ho r hor).2⟩

/-- What is read of a locked row stays true. -/
theorem Triple.view_row (hP : S.Stable P) (hc : S.conflict (S.rowLock k) l = true) :
    S.Triple (fun σ => P σ ∧ l ∈ σ.held) Prog.view
      (fun v σ => (P σ ∧ l ∈ σ.held) ∧ get σ.view k = get v k) X :=
  Triple.view (hP.held l) (fun _ => hP.row hc _) fun _ _ hσ => ⟨hσ, rfl⟩

section

variable (hP : S.Stable P) (hm : Monotone P)
include hP hm

theorem Triple.lockRow (hc : S.conflict (S.rowLock k) l = true) :
    S.Triple P (Prog.lockRow l k)
      (fun o σ => P σ ∧ ∀ r, o = some r → l ∈ σ.held ∧ get σ.view k = some r) X := by
  refine Triple.attempt (M := fun o σ => P σ ∧
    ∀ r, o = some (some r) → l ∈ σ.held ∧ get σ.view k = some r) hP ?_ ?_ ?_ (φ := True)
    (fun _ _ => trivial) fun _ => ?_
  · rintro (_ | o)
    · simpa using hP
    · simpa using hP.found hc o
  · refine (Triple.lock_held hP hm).bind fun _ => ?_
    refine (Triple.view_row hP hc).bind fun v => ?_
    refine Triple.ret (hP.row hc _) fun σ _ hσ => ⟨hσ.1.1, fun r hr => ⟨hσ.1.2, ?_⟩⟩
    rw [hσ.2]
    simpa using hr
  · intro o σ hσ
    simpa using hσ
  · exact Triple.ret hP fun σ _ hσ => ⟨hσ, fun r hr => by cases hr⟩

/-- Where the row is protected already, locking it finds the row there is. -/
theorem Triple.lockRow_protected {o : Option (V k)} (hk : ∀ σ, P σ → get σ.view k = o) :
    S.Triple P (Prog.lockRow l k) (fun o' σ => P σ ∧ o' = o) X := by
  refine Triple.attempt (M := fun o' σ => P σ ∧ o' = o.map some) hP (fun _ => hP.pure) ?_ ?_
    (φ := o = none) ?_ ?_
  · refine (Triple.lock_held hP hm).bind fun _ => ?_
    refine (Triple.view (Q := fun v σ => P σ ∧ get v k = o) (hP.held l)
      (fun _ => hP.pure) fun σ _ h => ⟨h.1, hk σ h.1⟩).bind fun v => ?_
    exact Triple.ret hP.pure fun σ _ h => ⟨h.1, by rw [h.2]⟩
  · rintro o' σ ⟨hσ, h⟩
    refine ⟨hσ, ?_⟩
    cases o <;> simp_all
  · rintro σ ⟨-, h⟩
    simpa using h.symm
  · rintro rfl
    exact Triple.ret hP fun σ _ hσ => ⟨hσ, rfl⟩

/-- An insert: `Q` when the row was inserted, and otherwise what its presence tells about
the committed part. -/
theorem Triple.insertRow_seen {r : V k} {Q N : Local V L E C R → Prop}
    (hc : S.conflict (S.rowLock k) l = true) (hQ : S.Stable Q) (hN : S.Stable N)
    (h : ∀ σ, S.Inv σ → P σ → l ∈ σ.held → get σ.view k = none →
      Q ((σ.acquire [S.rowLock k]).put [⟨k, some r⟩]))
    (hseen : ∀ σ τ, P σ → P τ → σ.db = τ.db → σ.hist = τ.hist → get σ.view k ≠ none → N τ) :
    S.Triple P (Prog.insertRow l k r) (fun b σ => if b then Q σ else N σ) X := by
  refine (Triple.view (Q := fun v σ => P σ ∧ (get v k ≠ none → N σ)) hP ?_ ?_).bind
    fun v => ?_
  · exact fun v => hP.and fun σ σ' _ hn hr hv => hN.rely σ σ' (hn hv) hr
  · exact fun σ _ hσ => ⟨hσ, hseen σ σ hσ hσ rfl rfl⟩
  split
  · rename_i hv
    refine Triple.ret (hP.and fun σ σ' _ hn hr hv => hN.rely σ σ' (hn hv) hr) fun σ _ hσ => ?_
    simpa using hσ.2 (Option.isSome_iff_ne_none.1 hv)
  refine Triple.pre ?_ fun σ hσ => hσ.1
  refine Triple.attempt_back (B := N) (M := fun o σ => o.elim
    (P σ ∧ l ∈ σ.held ∧ get σ.view k ≠ none) fun b => if b then Q σ else N σ) hP ?_ ?_ ?_ ?_ ?_
  · rintro (_ | _ | _)
    · exact hP.and fun σ σ' _ hσ hr =>
        ⟨hr.keeps.2 ▸ hσ.1, (hr.get_view_of_row hσ.1 hc) ▸ hσ.2⟩
    · exact hN
    · exact hQ
  · refine (Triple.lock_held hP hm).bind fun _ => ?_
    refine (Triple.view_row hP hc).bind fun v => ?_
    split
    · rename_i hv
      refine Triple.ret (hP.row hc _) fun σ _ hσ => ⟨hσ.1.1, hσ.1.2, ?_⟩
      rw [hσ.2]
      exact Option.isSome_iff_ne_none.1 hv
    · rename_i hnone
      refine (Triple.write (Q := fun _ => Q) (hP.row hc _) hQ ?_).bind fun _ =>
        Triple.ret hQ fun σ _ hσ => hσ
      rintro σ hi ⟨⟨hσ, hl⟩, hv⟩
      refine h σ hi hσ hl ?_
      rw [hv]
      simpa using hnone
  · rintro (_ | _) σ hσ <;> simpa using hσ
  · intro σ τ hσ hτ _ _
    exact hseen τ _ hτ.1 hσ rfl rfl hτ.2.2
  · exact Triple.ret hN fun σ _ hσ => by simpa using hσ

theorem Triple.insertRow {r : V k} {Q : Local V L E C R → Prop}
    (hc : S.conflict (S.rowLock k) l = true) (hQ : S.Stable Q)
    (h : ∀ σ, S.Inv σ → P σ → l ∈ σ.held → get σ.view k = none →
      Q ((σ.acquire [S.rowLock k]).put [⟨k, some r⟩])) :
    S.Triple P (Prog.insertRow l k r) (fun b σ => if b then Q σ else P σ) X :=
  Triple.insertRow_seen hP hm hc hQ hP h fun _ _ _ hτ _ _ _ => hτ

end

end Setting

end ReadCommitted
