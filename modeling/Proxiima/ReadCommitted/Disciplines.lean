import Proxiima.ReadCommitted.Processes

/-!
# What processes may rely on

The processes of a cluster share the committed rows and the service. A discipline says what the
transactions do, what a process has to know before it runs one, and what may become of the
service. A process that keeps to it may rely on the others doing the same, so a cluster of such
processes moves only as the discipline says.
-/

namespace ReadCommitted

variable {K : Type} {V : K → Type} {L E I A C R X Y W J P α β : Type}

/-! ### What the processes share -/

/-- The answers so far, the committed rows and the service. -/
structure Shared (V : K → Type) (E C R W : Type) where
  hist : List (Entry V E C R)
  db : Log V
  outside : W

def World.shared (z : World V L E I A C R X Y W) : Shared V E C R W :=
  ⟨z.base.hist, z.base.db, z.outside⟩

/-- The answer `e` is given and leaves `db`. -/
def Shared.answered (g : Shared V E C R W) (e : Entry V E C R) (db : Log V) : Shared V E C R W :=
  ⟨e :: g.hist, db, g.outside⟩

/-- What the transactions do, what a process has to know before it runs one, and what may become
of the service. -/
structure Discipline (V : K → Type) (E C R W : Type) where
  effect : List (Entry V E C R) → Entry V E C R → Log V → Prop
  may : C → Shared V E C R W → Prop
  allows : Shared V E C R W → W → Prop

variable {n : ℕ}

namespace Discipline

variable (D : Discipline V E C R W)

inductive Move : Shared V E C R W → Shared V E C R W → Prop where
  | answer {g : Shared V E C R W} {e : Entry V E C R} {db : Log V} (hbefore : e.before = g.db)
      (heff : D.effect g.hist e db) (hmay : D.may e.cmd g) : Move g (g.answered e db)
  | outside {g : Shared V E C R W} {w : W} (h : D.allows g w) : Move g { g with outside := w }

abbrev Moves : Shared V E C R W → Shared V E C R W → Prop := Relation.ReflTransGen D.Move

/-- What no move takes away. -/
def Stable (F : Shared V E C R W → Prop) : Prop := ∀ g g', F g → D.Move g g' → F g'

variable {D} {g : Shared V E C R W} {g' : Shared V E C R W}

lemma Stable.moves {F : Shared V E C R W → Prop} (h : D.Stable F) (hg : F g) (hm : D.Moves g g') :
    F g' := by
  induction hm with
  | refl => exact hg
  | tail _ hstep ih => exact h _ _ ih hstep

lemma length_le (h : D.Moves g g') : g.hist.length ≤ g'.hist.length := by
  have hstable : D.Stable fun x => g.hist.length ≤ x.hist.length := by
    intro x x' hx hm
    cases hm with
    | answer => exact Nat.le_succ_of_le hx
    | outside => exact hx
  exact hstable.moves (Nat.le_refl _) h

/-- The shared part an answer was given in. -/
lemma exists_answer_move {w : W} (h : D.Moves ⟨[], [], w⟩ g) {e : Entry V E C R}
    (he : answer g.hist n = some e) :
    ∃ g', D.Moves ⟨[], [], w⟩ g' ∧ g'.hist.length = n ∧ e.before = g'.db ∧ D.may e.cmd g' ∧
      D.effect g'.hist e (stateAt g.hist g.db (n + 1)) ∧ (e :: g'.hist) <:+ g.hist ∧
      ∃ db, D.Moves (g'.answered e db) g := by
  induction h with
  | refl => simp [answer] at he
  | @tail x y hx hmove ih =>
    cases hmove with
    | outside hall =>
      obtain ⟨g', hg', hlen, hbefore, hmay, heff, hsuf, db, hrest⟩ := ih he
      exact ⟨g', hg', hlen, hbefore, hmay, heff, hsuf, db, hrest.tail (.outside hall)⟩
    | @answer e' db hbefore heff hmay =>
      unfold answer at he
      simp only [Shared.answered, List.reverse_cons] at he
      have hlt : n < x.hist.length + 1 := by
        have := (List.getElem?_eq_some_iff.1 he).1
        simpa using this
      rcases Nat.lt_or_eq_of_le (Nat.le_of_lt_succ hlt) with hlt | rfl
      · rw [List.getElem?_append_left (by simpa using hlt)] at he
        obtain ⟨g', hg', hlen, hb, hm, heff', hsuf, db', hrest⟩ := ih he
        refine ⟨g', hg', hlen, hb, hm, ?_, hsuf.trans (List.suffix_cons _ _), db',
          hrest.tail (.answer hbefore heff hmay)⟩
        simpa only [Shared.answered, stateAt_cons (Nat.succ_le_of_lt hlt) hbefore] using heff'
      · obtain rfl : e' = e := by simpa using he
        refine ⟨x, hx, rfl, hbefore, hmay, ?_, List.suffix_refl _, db, .refl⟩
        have hlast : x.hist.length + 1 = (e' :: x.hist).length := rfl
        simpa only [Shared.answered, hlast, stateAt_length] using heff

end Discipline

namespace Cluster

variable {S : Cluster V L E I A C R X Y W J P} {D : Discipline V E C R W}

variable (S D) in
/-- Run where `g` is shared, the process keeps to the discipline, whatever the others do, and
returns only with `Q`. -/
def Wp : Proc E C R X Y α → (α → Shared V E C R W → Prop) → Shared V E C R W → Prop
  | .done a, Q, g => Q a g
  | .transact c next, Q, g => ∀ g', D.Moves g g' → D.may c g' ∧ Wp (next none) Q g' ∧
      ∀ e db, e.cmd = c → g.hist.length ≤ e.since → e.before = g'.db → D.effect g'.hist e db →
        Wp (next (some e.result)) Q (g'.answered e db)
  | .request x next, Q, g => ∀ g', D.Moves g g' → ∀ j y w,
      S.serve g'.hist.length x j g'.outside = some (y, w) →
      D.allows g' w ∧ Wp (next y) Q { g' with outside := w }

variable {Q Q' : α → Shared V E C R W → Prop} {g g' : Shared V E C R W} {p : Proc E C R X Y α}
  {x : X} {t : Txn V L E I A C R} {i : ℕ}

lemma Wp.mono (h : Wp S D p Q g) (hQ : ∀ a g, Q a g → Q' a g) : Wp S D p Q' g := by
  induction p generalizing g with
  | done a => exact hQ a g h
  | transact c next ih =>
    intro g' hg
    obtain ⟨hmay, hnone, hsome⟩ := h g' hg
    exact ⟨hmay, ih _ hnone, fun e db hc hs hb he => ih _ (hsome e db hc hs hb he)⟩
  | request x next ih =>
    intro g' hg j y w hw
    exact (h g' hg j y w hw).imp id (ih y)

variable {f : β → Proc E C R X Y α} {t' : Txn V L E I A C R}

@[simp] lemma wp_bind {p : Proc E C R X Y β} :
    Wp S D (p >>= f) Q g ↔ Wp S D p (fun b g => Wp S D (f b) Q g) g := by
  change Wp S D (p.bind f) Q g ↔ _
  induction p generalizing g with
  | done a => rfl
  | transact c next ih =>
    refine forall₂_congr fun g' _ => and_congr_right fun _ => and_congr (ih _) ?_
    exact forall₂_congr fun e db => forall₄_congr fun _ _ _ _ => ih _
  | request x next ih =>
    exact forall₂_congr fun g' _ => forall₄_congr fun j y w _ => and_congr_right fun _ => ih y

lemma wp_transaction {c : C} {Q : Option (Except E R) → Shared V E C R W → Prop} :
    Wp S D (Proc.transaction c : Proc E C R X Y _) Q g ↔ ∀ g', D.Moves g g' → D.may c g' ∧
      Q none g' ∧ ∀ e db, e.cmd = c → g.hist.length ≤ e.since → e.before = g'.db →
        D.effect g'.hist e db → Q (some e.result) (g'.answered e db) := Iff.rfl

lemma wp_ask {Q : Y → Shared V E C R W → Prop} :
    Wp S D (Proc.ask x : Proc E C R X Y _) Q g ↔ ∀ g', D.Moves g g' → ∀ j y w,
      S.serve g'.hist.length x j g'.outside = some (y, w) →
      D.allows g' w ∧ Q y { g' with outside := w } := Iff.rfl

/-- A process ends where moves lead. -/
lemma Wp.reached (h : Wp S D p Q g) : Wp S D p (fun a g' => D.Moves g g' ∧ Q a g') g := by
  induction p generalizing g with
  | done a => exact ⟨.refl, h⟩
  | transact c next ih =>
    intro g' hg
    obtain ⟨hmay, hnone, hsome⟩ := h g' hg
    refine ⟨hmay, (ih none hnone).mono fun _ _ hq => ⟨hg.trans hq.1, hq.2⟩, ?_⟩
    intro e db hc hs hb he
    have hmove : D.Moves g (g'.answered e db) := hg.tail (.answer hb he (hc ▸ hmay))
    exact (ih _ (hsome e db hc hs hb he)).mono fun _ _ hq => ⟨hmove.trans hq.1, hq.2⟩
  | request x next ih =>
    intro g' hg j y w hw
    obtain ⟨hall, hnext⟩ := h g' hg j y w hw
    have hmove : D.Moves g { g' with outside := w } := hg.tail (.outside hall)
    exact ⟨hall, (ih y hnext).mono fun _ _ hq => ⟨hmove.trans hq.1, hq.2⟩⟩

/-! ### Processes that need to know nothing -/

section Plain

variable {g₀ : Shared V E C R W}

variable (S D g₀) in
/-- The process keeps to the discipline wherever it is started. -/
def Plain (p : Proc E C R X Y α) : Prop :=
  ∀ g, D.Moves g₀ g → Wp S D p (fun _ _ => True) g

lemma Plain.wp (hp : Plain S D g₀ p) (hg : D.Moves g₀ g) (h : ∀ a g', D.Moves g g' → Q a g') :
    Wp S D p Q g :=
  (hp g hg).reached.mono fun a g' hq => h a g' hq.1

lemma plain_pure (a : α) : Plain S D g₀ (pure a : Proc E C R X Y α) := fun _ _ => trivial

lemma Plain.bind {p : Proc E C R X Y β} (hp : Plain S D g₀ p) (hf : ∀ b, Plain S D g₀ (f b)) :
    Plain S D g₀ (p >>= f) := fun _ hg =>
  wp_bind.2 (hp.wp hg fun b _ hm => hf b _ (hg.trans hm))

lemma plain_ask
    (h : ∀ g j y w, D.Moves g₀ g → S.serve g.hist.length x j g.outside = some (y, w) → D.allows g w)
    :
    Plain S D g₀ (Proc.ask x : Proc E C R X Y _) := fun _ hg g' hm j y w hw =>
  ⟨h g' j y w (hg.trans hm) hw, trivial⟩

end Plain

/-! ### Processes that fail -/

section Fails

variable {F : Type}

variable (S D) in
/-- The process keeps to the discipline and returns only with `Q`; where it fails, it has ended. -/
def WpE (p : ExceptT F (Proc E C R X Y) α) (Q : α → Shared V E C R W → Prop)
    (g : Shared V E C R W) : Prop :=
  Wp S D p.run (fun r g => ∀ a, r = .ok a → Q a g) g

@[simp] lemma wpE_pure {a : α} : WpE S D (pure a : ExceptT F (Proc E C R X Y) α) Q g ↔ Q a g :=
  ⟨fun h => h a rfl, fun h _ heq => Except.ok.inj heq ▸ h⟩

@[simp] lemma wpE_throw {e : F} : WpE S D (throw e : ExceptT F (Proc E C R X Y) α) Q g ↔ True :=
  ⟨fun _ => trivial, fun _ _ heq => nomatch heq⟩

@[simp] lemma wpE_bind {p : ExceptT F (Proc E C R X Y) β} {f : β → ExceptT F (Proc E C R X Y) α} :
    WpE S D (p >>= f) Q g ↔ WpE S D p (fun b g => WpE S D (f b) Q g) g := by
  unfold WpE
  rw [ExceptT.run_bind, wp_bind]
  constructor
  · refine fun h => h.mono fun r g hr a heq => ?_
    subst heq
    exact hr
  · refine fun h => h.mono fun r g hr => ?_
    cases r with
    | error e => exact fun _ heq => nomatch heq
    | ok a => exact hr a rfl

@[simp] lemma wpE_map {p : ExceptT F (Proc E C R X Y) β} {f : β → α} :
    WpE S D (f <$> p) Q g ↔ WpE S D p (fun b g => Q (f b) g) g := by
  have hmap : WpE S D (f <$> p) Q g ↔ WpE S D (p >>= fun b => pure (f b)) Q g := by
    unfold WpE
    change Wp S D (p.run >>= _) _ g ↔ Wp S D (p.run >>= _) _ g
    rw [wp_bind, wp_bind]
    constructor
    all_goals exact fun h => h.mono fun r g hr => by cases r <;> exact hr
  simp only [hmap, wpE_bind, wpE_pure]

@[simp] lemma wpE_lift : WpE S D (liftM p : ExceptT F (Proc E C R X Y) α) Q g ↔ Wp S D p Q g := by
  unfold WpE
  change Wp S D (p >>= fun a => pure (Except.ok (ε := F) a)) _ g ↔ _
  rw [wp_bind]
  constructor
  · exact fun h => h.mono fun a g ha => ha a rfl
  · exact fun h => h.mono fun a g ha b heq => Except.ok.inj heq ▸ ha

variable {g₀ : Shared V E C R W}

variable (S D g₀) in
def PlainE (p : ExceptT F (Proc E C R X Y) α) : Prop := Plain S D g₀ p.run

lemma PlainE.wpE {p : ExceptT F (Proc E C R X Y) α} (hp : PlainE S D g₀ p) (hg : D.Moves g₀ g)
    (h : ∀ a g', D.Moves g g' → Q a g') : WpE S D p Q g :=
  Plain.wp hp hg fun _ g' hm a _ => h a g' hm

lemma plainE_of_wpE {p : ExceptT F (Proc E C R X Y) α}
    (h : ∀ g, D.Moves g₀ g → WpE S D p (fun _ _ => True) g) : PlainE S D g₀ p := fun g hg =>
  (h g hg).mono fun _ _ _ => trivial

lemma plainE_pure (a : α) : PlainE S D g₀ (pure a : ExceptT F (Proc E C R X Y) α) :=
  plain_pure _

lemma plainE_throw (e : F) : PlainE S D g₀ (throw e : ExceptT F (Proc E C R X Y) α) :=
  plain_pure _

lemma PlainE.bind {p : ExceptT F (Proc E C R X Y) β} {f : β → ExceptT F (Proc E C R X Y) α}
    (hp : PlainE S D g₀ p) (hf : ∀ b, PlainE S D g₀ (f b)) : PlainE S D g₀ (p >>= f) :=
  plainE_of_wpE fun _ hg => wpE_bind.2 <| hp.wpE hg fun b _ hm => PlainE.wpE (hf b) (hg.trans hm)
    fun _ _ _ => trivial

lemma PlainE.map {p : ExceptT F (Proc E C R X Y) β} (hp : PlainE S D g₀ p) (f : β → α) :
    PlainE S D g₀ (f <$> p) :=
  plainE_of_wpE fun _ hg => wpE_map.2 <| hp.wpE hg fun _ _ _ => trivial

lemma plainE_lift (hp : Plain S D g₀ p) : PlainE S D g₀ (liftM p : ExceptT F (Proc E C R X Y) α) :=
  plainE_of_wpE fun g hg => wpE_lift.2 (hp g hg)

end Fails

/-- What is left of a process is right for what has become of the shared part. -/
lemma Wp.moves {p : Proc E C R X Y Unit} (h : Wp S D p (fun _ _ => True) g)
    (hm : D.Moves g g') : Wp S D p (fun _ _ => True) g' := by
  cases p with
  | done a => trivial
  | transact c next =>
    intro g'' hg
    obtain ⟨hmay, hnone, hsome⟩ := h g'' (hm.trans hg)
    exact ⟨hmay, hnone, fun e db hc hs hb he =>
      hsome e db hc (Nat.le_trans (Discipline.length_le hm) hs) hb he⟩
  | request x next => exact fun g'' hg => h g'' (hm.trans hg)

/-! ### The processes of a cluster -/

variable (S D) in
/-- Every command is right for the discipline, every program keeps to it, and so do the others. -/
structure Keeps (aux : A) (w : W) : Prop where
  runs : ∀ s, Reachable S.system aux s → Run D.effect s.db s.hist
  programs : ∀ g, D.Moves ⟨[], [], w⟩ g → ∀ i p, Wp S D (S.program i p) (fun _ _ => True) g
  drifts : ∀ g, D.Moves ⟨[], [], w⟩ g → ∀ j w', S.drift g.hist.length j g.outside = some w' →
    D.allows g w'

variable (S D) in
/-- The live transaction `t` of the process `i`: the process waits for it or has stopped. -/
def Waits (z : World V L E I A C R X Y W) (t : Txn V L E I A C R) (i : ℕ) : Prop :=
  (∀ g, D.Moves z.shared g → D.may t.cmd g) ∧
  (z.procs[i]? = some (.done ()) ∨ ∃ next g, z.procs[i]? = some (.transact t.cmd next) ∧
    D.Moves g z.shared ∧ g.hist.length ≤ t.since ∧
    Wp S D (.transact t.cmd next) (fun _ _ => True) g)

variable (S D) in
structure Good (aux : A) (w : W) (z : World V L E I A C R X Y W) : Prop where
  base : Reachable S.system aux z.base
  moves : D.Moves ⟨[], [], w⟩ z.shared
  aligned : z.owners.length = z.base.txns.length
  nodup : z.owners.Nodup
  procs : ∀ p ∈ z.procs, Wp S D p (fun _ _ => True) z.shared
  live : ∀ (n : ℕ) t i, z.base.txns[n]? = some t → z.owners[n]? = some i → Waits S D z t i

variable {aux : A} {w : W} {z z' : World V L E I A C R X Y W}

lemma Waits.of_moves (h : Waits S D z t i) (z' : World V L E I A C R X Y W)
    (hm : D.Moves z.shared z'.shared) (hcmd : t'.cmd = t.cmd) (hsince : t'.since = t.since)
    (hproc : z'.procs[i]? = z.procs[i]?) : Waits S D z' t' i := by
  obtain ⟨hmay, hproc'⟩ := h
  refine ⟨fun g hg => hcmd ▸ hmay g (hm.trans hg), ?_⟩
  rw [hproc, hcmd, hsince]
  refine hproc'.imp id ?_
  rintro ⟨next, g, hi, hg, hs, hw⟩
  exact ⟨next, g, hi, hg.trans hm, hs, hw⟩

/-- A process that makes requests has no live transaction. -/
lemma Good.not_owner {next : Y → Proc E C R X Y Unit} (h : Good S D aux w z)
    (hp : z.procs[i]? = some (.request x next)) : i ∉ z.owners := by
  intro hi
  obtain ⟨n, hn⟩ := List.getElem?_of_mem hi
  have hlt : n < z.base.txns.length := h.aligned ▸ (List.getElem?_eq_some_iff.1 hn).1
  obtain ⟨-, hdone | ⟨next', g, hnext, -⟩⟩ :=
    h.live n _ i (List.getElem?_eq_getElem hlt) hn
  · cases hp.symm.trans hdone
  · cases hp.symm.trans hnext

/-- The service changed, and a process with it. -/
lemma Good.outside {w' : W} {procs' : List (Proc E C R X Y Unit)} (h : Good S D aux w z)
    (hall : D.allows z.shared w')
    (hprocs : ∀ p ∈ procs', p ∈ z.procs ∨
      Wp S D p (fun _ _ => True) { z.shared with outside := w' })
    (howners : ∀ i ∈ z.owners, procs'[i]? = z.procs[i]?) :
    Good S D aux w { z with outside := w', procs := procs' } := by
  have hm : D.Moves z.shared { z.shared with outside := w' } := .single (.outside hall)
  refine ⟨h.base, h.moves.trans hm, h.aligned, h.nodup, fun p hp => ?_, fun n t i ht hi => ?_⟩
  · exact (hprocs p hp).elim (fun hp' => (h.procs p hp').moves hm) id
  · exact (h.live n t i ht hi).of_moves _ hm rfl rfl (howners i (List.mem_of_getElem? hi))

/-- A transaction has ended and its process goes on. -/
lemma Good.ended {s : State V L E I A C R} {r : Option (Except E R)} (h : Good S D aux w z)
    (hbase : Reachable S.system aux s) (ht : z.base.txns[n]? = some t)
    (htxns : s.txns = z.base.txns.eraseIdx n) (hm : D.Moves z.shared ⟨s.hist, s.db, z.outside⟩)
    (hgoes : ∀ (next : _ → Proc E C R X Y Unit) g, D.Moves g z.shared → g.hist.length ≤ t.since →
      Wp S D (.transact t.cmd next) (fun _ _ => True) g →
      Wp S D (next r) (fun _ _ => True) ⟨s.hist, s.db, z.outside⟩)
    (hz : Cluster.ended z s n r = some z') : Good S D aux w z' := by
  obtain ⟨i, hi, rfl⟩ := Option.map_eq_some_iff.1 hz
  have hwaits := h.live n t i ht hi
  refine ⟨hbase, h.moves.trans hm, ?_, h.nodup.eraseIdx n, fun p hp => ?_,
    fun n' t' i' ht' hi' => ?_⟩
  · have hn := (List.getElem?_eq_some_iff.1 ht).1
    simp only [htxns, List.length_eraseIdx, h.aligned]
  · obtain ⟨k, hk⟩ := List.getElem?_of_mem hp
    rw [List.getElem?_modify] at hk
    obtain ⟨p', hp', rfl⟩ := Option.map_eq_some_iff.1 hk
    split
    · rename_i hki
      subst hki
      obtain ⟨-, hdone | ⟨next, g, hnext, hg, hs, hw⟩⟩ := hwaits
      · obtain rfl := Option.mem_unique hp' hdone
        trivial
      · obtain rfl := Option.mem_unique hp' hnext
        exact hgoes next g hg hs hw
    · exact (h.procs p' (List.mem_of_getElem? hp')).moves hm
  · obtain ⟨m, hmt, hmi, hne⟩ : ∃ m, z.base.txns[m]? = some t' ∧ z.owners[m]? = some i' ∧
      m ≠ n := by
      rw [htxns, List.getElem?_eraseIdx] at ht'
      rw [List.getElem?_eraseIdx] at hi'
      by_cases hlt : n' < n
      · exact ⟨n', by simpa [hlt] using ht', by simpa [hlt] using hi', by omega⟩
      · exact ⟨n' + 1, by simpa [hlt] using ht', by simpa [hlt] using hi', by omega⟩
    refine (h.live m t' i' hmt hmi).of_moves _ hm rfl rfl ?_
    have hii : i ≠ i' := fun heq => hne <| by
      subst heq
      exact (List.getElem?_inj (List.getElem?_eq_some_iff.1 hmi).1 h.nodup).1 (hmi.trans hi.symm)
    simp [hii]

lemma move_keeps {S : System V L E I A C R} {free : L → Bool} {db : Log V} {x : I} {a a' : A}
    (h : S.move free db x a t = some (t', a')) : t'.cmd = t.cmd ∧ t'.since = t.since := by
  unfold System.move at h
  split at h
  all_goals try split at h
  all_goals cases h
  all_goals exact ⟨rfl, rfl⟩

lemma Good.step_run (hk : Keeps S D aux w) (h : Good S D aux w z) {x : I} {heard : Bool}
    (hz : S.step z (.run n x heard) = some z') : Good S D aux w z' := by
  obtain ⟨s, hs, hz⟩ := Option.bind_eq_some_iff.1 hz
  have hbase : Reachable S.system aux s := h.base.step hs
  -- an end of the transaction is an answer, with the effect of its command
  have hend : ∀ t r db, z.base.txns[n]? = some t →
      s = { z.base with
        hist := (z.base.side t).ended r :: z.base.hist
        db := db
        txns := z.base.txns.eraseIdx n } → Good S D aux w z' := by
    rintro t r db ht rfl
    obtain ⟨-, heff⟩ := (hk.runs _ hbase).inv_cons
    obtain ⟨i, hi⟩ : ∃ i, z.owners[n]? = some i :=
      ⟨_, List.getElem?_eq_getElem (h.aligned ▸ (List.getElem?_eq_some_iff.1 ht).1)⟩
    have hmay : D.may t.cmd z.shared := (h.live n t i ht hi).1 _ .refl
    have hmove : D.Move z.shared (z.shared.answered ((z.base.side t).ended r) db) :=
      .answer rfl heff hmay
    rw [if_neg (by simp)] at hz
    refine h.ended hbase ht rfl (.single hmove) (fun next g hg hsince hw => ?_) hz
    cases heard with
    | false => exact (hw _ (hg.tail hmove)).2.1
    | true => exact (hw _ hg).2.2 _ _ rfl hsince rfl heff
  obtain ⟨c, hc, -⟩ | ⟨i, hc, -⟩ | ⟨n', x', t, hc, ht, hcase⟩ := step_cases hs
  · cases hc
  · cases hc
  obtain ⟨rfl, rfl⟩ : n = n' ∧ x = x' := by simpa using hc
  obtain ⟨r, -, rfl⟩ | ⟨e, -, rfl⟩ | ⟨t', a, hmove, rfl⟩ := hcase
  · exact hend t (.ok r) _ ht rfl
  · exact hend t (.error e) z.base.db ht rfl
  obtain rfl := Option.some.inj ((if_pos rfl).symm.trans hz)
  refine ⟨hbase, h.moves, by simpa using h.aligned, h.nodup, h.procs, fun m t₁ i ht₁ hi => ?_⟩
  rw [List.getElem?_set] at ht₁
  split at ht₁
  · rename_i hnm
    subst hnm
    split at ht₁
    · obtain rfl := Option.some.inj ht₁
      obtain ⟨hcmd, hsince⟩ := move_keeps hmove
      exact (h.live n t i ht hi).of_moves { z with base := _ } .refl hcmd hsince rfl
    · cases ht₁
  · exact (h.live m t₁ i ht₁ hi).of_moves { z with base := _ } .refl rfl rfl rfl

lemma Good.step_start (h : Good S D aux w z) (hz : S.step z (.start i) = some z') :
    Good S D aux w z' := by
  simp only [Cluster.step, Cluster.start] at hz
  split at hz
  · rename_i c next hp
    split at hz
    · cases hz
    rename_i hi
    obtain ⟨s, hs, rfl⟩ := Option.map_eq_some_iff.1 hz
    have hbase : Reachable S.system aux s := h.base.step hs
    obtain rfl := Option.some.inj hs
    have hw := h.procs _ (List.mem_of_getElem? hp)
    refine ⟨hbase, h.moves, by simpa using h.aligned, List.nodup_cons.2 ⟨hi, h.nodup⟩, h.procs, ?_⟩
    rintro (_ | n) t i' ht hi'
    · obtain rfl := Option.some.inj ht
      obtain rfl := Option.some.inj hi'
      exact ⟨fun g hg => (hw g hg).1, .inr ⟨next, z.shared, hp, .refl, Nat.le_refl _, hw⟩⟩
    · exact (h.live n t i' ht hi').of_moves { z with base := _, owners := _ } .refl rfl rfl rfl
  · cases hz

lemma Good.step_request (h : Good S D aux w z) {j : J} (hz : S.step z (.request i j) = some z') :
    Good S D aux w z' := by
  simp only [Cluster.step, Cluster.request] at hz
  split at hz
  · rename_i x next hp
    obtain ⟨⟨y, w'⟩, hserve, rfl⟩ := Option.map_eq_some_iff.1 hz
    obtain ⟨hall, hw⟩ := h.procs _ (List.mem_of_getElem? hp) _ .refl j y w' hserve
    refine h.outside hall (fun p hp' => ?_) fun i' hi' => ?_
    · rcases List.mem_or_eq_of_mem_set hp' with hmem | rfl
      · exact .inl hmem
      · exact .inr hw
    · have hne : i ≠ i' := fun heq => h.not_owner hp (heq ▸ hi')
      exact List.getElem?_set_ne hne
  · cases hz

lemma Good.step (hk : Keeps S D aux w) (h : Good S D aux w z) {e : Event I P J}
    (hz : S.step z e = some z') : Good S D aux w z' := by
  cases e with
  | spawn p =>
    obtain rfl := Option.some.inj hz
    refine ⟨h.base, h.moves, h.aligned, h.nodup, fun q hq => ?_, fun n t i ht hi => ?_⟩
    · rcases List.mem_append.1 hq with hq | hq
      · exact h.procs q hq
      · obtain rfl := List.mem_singleton.1 hq
        exact hk.programs _ h.moves _ p
    · have hwaits := h.live n t i ht hi
      have hlt : i < z.procs.length := by
        obtain ⟨-, hdone | ⟨next, g, hnext, -⟩⟩ := hwaits
        · exact (List.getElem?_eq_some_iff.1 hdone).1
        · exact (List.getElem?_eq_some_iff.1 hnext).1
      exact hwaits.of_moves _ .refl rfl rfl (List.getElem?_append_left hlt)
  | start i => exact h.step_start hz
  | run n x heard => exact h.step_run hk hz
  | cancel n =>
    simp only [Cluster.step] at hz
    obtain ⟨s, hs, hz⟩ := Option.bind_eq_some_iff.1 hz
    have hbase : Reachable S.system aux s := h.base.step hs
    obtain rfl := Option.some.inj hs
    obtain ⟨i, hi, -⟩ := Option.map_eq_some_iff.1 hz
    have hlt : n < z.base.txns.length := h.aligned ▸ (List.getElem?_eq_some_iff.1 hi).1
    exact h.ended hbase (List.getElem?_eq_getElem hlt) rfl .refl
      (fun next g hg _ hw => (hw _ hg).2.1) hz
  | request i j => exact h.step_request hz
  | drift j =>
    obtain ⟨w', hw', rfl⟩ := Option.map_eq_some_iff.1 hz
    exact h.outside (hk.drifts _ h.moves j w' hw') (fun p hp => .inl hp) fun _ _ => rfl
  | crash i =>
    obtain rfl := Option.some.inj hz
    refine ⟨h.base, h.moves, h.aligned, h.nodup, fun p hp => ?_, fun n t i' ht hi' => ?_⟩
    · rcases List.mem_or_eq_of_mem_set hp with hmem | rfl
      · exact h.procs p hmem
      · trivial
    · have hwaits := h.live n t i' ht hi'
      by_cases heq : i = i'
      · subst heq
        refine ⟨hwaits.1, .inl ?_⟩
        obtain ⟨-, hdone | ⟨next, g, hnext, -⟩⟩ := hwaits
        · exact List.getElem?_set_self (List.getElem?_eq_some_iff.1 hdone).1
        · exact List.getElem?_set_self (List.getElem?_eq_some_iff.1 hnext).1
      · exact hwaits.of_moves _ .refl rfl rfl (List.getElem?_set_ne heq)

/-- **A cluster keeps to its discipline**: what its processes share moves only by it. -/
theorem moves_of_reaches (hk : Keeps S D aux w) (h : S.Reaches aux w z) :
    D.Moves ⟨[], [], w⟩ z.shared := by
  have hgood : Good S D aux w z := by
    induction h with
    | init =>
      exact ⟨.init, .refl, rfl, List.nodup_nil, fun _ hp => (List.not_mem_nil hp).elim,
        fun _ _ _ ht => nomatch ht⟩
    | step _ hs ih => exact ih.step hk hs
  exact hgood.moves

end Cluster

end ReadCommitted
