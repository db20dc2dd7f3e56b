import Proxiima.ReadCommitted.Locks
import Proxiima.ReadCommitted.Runs
import Proxiima.ReadCommitted.Soundness

/-!
# Rows behind guards

In a guarded system a row changes only by its rule, and only under the locks that guard this
change. A transaction that holds a lock against them knows what can become of a row it has
read, and keeps a row as it was when no change is left to the others. So what it has read under
its locks is still true when it commits. A command is verified when its transaction commits
into its effect, judged by the rows before and after.
-/

namespace ReadCommitted

variable {K : Type} {V : K → Type} {L E I A C R : Type}

/-- A system with what a change may make of a row, the locks that guard it, and what each
command does when it answers: its answer, the committed rows while it ran, those it found at
its end and those it left. -/
structure Guarded (V : K → Type) (L E I A C R : Type) extends System V L E I A C R where
  legal : ∀ k, Option (V k) → Option (V k) → Prop
  guards : ∀ k, Option (V k) → Option (V k) → List L
  post : C → R → (Log V → Prop) → Log V → Log V → Prop

/-- What is known of a transaction while it runs: its writes, locks it holds, and what it has
seen under the locks it held then. -/
structure Stand (V : K → Type) (L : Type) where
  writes : Log V
  held : List L
  seen : List (List L × Log V)

variable {st' : Stand V L}

namespace Stand

variable (st : Stand V L)

/-- A transaction that has just started. -/
def start : Stand V L := ⟨[], [], []⟩

def lock (l : L) : Stand V L := { st with held := l :: st.held }

def see (d : Log V) : Stand V L := { st with seen := (st.held, d) :: st.seen }

@[simp] lemma writes_start : (start : Stand V L).writes = [] := rfl
@[simp] lemma held_start : (start : Stand V L).held = [] := rfl
@[simp] lemma writes_lock (l : L) : (st.lock l).writes = st.writes := rfl
@[simp] lemma held_lock (l : L) : (st.lock l).held = l :: st.held := rfl
@[simp] lemma writes_see (d : Log V) : (st.see d).writes = st.writes := rfl
@[simp] lemma held_see (d : Log V) : (st.see d).held = st.held := rfl

/-- More is known than before: the same writes, and no lock and nothing seen is lost. -/
structure Extends (st' st : Stand V L) : Prop where
  writes : st'.writes = st.writes
  held : st.held ⊆ st'.held
  seen : st.seen ⊆ st'.seen

lemma Extends.refl : st.Extends st :=
  ⟨rfl, List.Subset.refl _, List.Subset.refl _⟩

variable {st} in
lemma Extends.trans {st'' : Stand V L} (h : st''.Extends st') (h' : st'.Extends st) :
    st''.Extends st :=
  ⟨h.writes.trans h'.writes, List.Subset.trans h'.held h.held, List.Subset.trans h'.seen h.seen⟩

lemma Extends.lock (l : L) : (st.lock l).Extends st :=
  ⟨rfl, List.subset_cons_self _ _, List.Subset.refl _⟩

lemma Extends.see (d : Log V) : (st.see d).Extends st :=
  ⟨rfl, List.Subset.refl _, List.subset_cons_self _ _⟩

end Stand

namespace Guarded

variable [DecidableEq K] (G : Guarded V L E I A C R)

/-- The committed rows while a transaction ran. -/
def During (hist : List (Entry V E C R)) (db : Log V) (since : ℕ) (d : Log V) : Prop :=
  ∃ n, since ≤ n ∧ n ≤ hist.length ∧ stateAt hist db n = d

/-- What an answer may leave behind: its command's effect, made of allowed changes; nothing
when it is a refusal. -/
def Effect (hist : List (Entry V E C R)) (e : Entry V E C R) (db : Log V) : Prop :=
  match e.result with
  | .ok r => G.post e.cmd r (During hist e.before e.since) e.before db ∧
      ∀ k, get db k = get e.before k ∨ G.legal k (get e.before k) (get db k)
  | .error _ => db = e.before

/-- Every row a transaction has written it may write. -/
def Own (σ : Local V L E C R) : Prop :=
  ∀ k ∈ σ.writes.keys, G.rowLock k ∈ σ.held ∧ G.guards k (get σ.db k) (get σ.view k) ⊆ σ.held ∧
    G.legal k (get σ.db k) (get σ.view k)

def setting : Setting V L E I A C R where
  toSystem := G.toSystem
  inv := Run G.Effect
  own := G.Own

/-- Others may make the row `o'` of `o` while these locks are held. -/
def Free (ls : List L) (k : K) (o o' : Option (V k)) : Prop :=
  G.legal k o o' ∧ ∀ g ∈ G.rowLock k :: G.guards k o o', ∀ l ∈ ls, G.conflict g l = false

/-- The locks leave no change of the row to others. -/
def Covers (ls : List L) (k : K) (o : Option (V k)) : Prop := ∀ o', G.Free ls k o o' → o' = o

/-- Each row has become what it is by changes of others under these locks. -/
def Follows (ls : List L) (d d' : Log V) : Prop :=
  ∀ k, Relation.ReflTransGen (G.Free ls k) (get d k) (get d' k)

/-- Rows are written, and with them the rows underneath are locked. -/
def put (st : Stand V L) (ws d : Log V) : Stand V L where
  writes := ws ++ st.writes
  held := ws.keys.map G.rowLock ++ st.held
  seen := (ws.keys.map G.rowLock ++ st.held, d) :: st.seen

/-- The committed rows may be these, after all that was seen. -/
def Possible (st : Stand V L) (d : Log V) : Prop := ∀ p ∈ st.seen, G.Follows p.1 p.2 d

/-- A live transaction of the command `c`. -/
structure Known (c : C) (st : Stand V L) (σ : Local V L E C R) : Prop where
  cmd : σ.cmd = c
  since : σ.since ≤ σ.hist.length
  writes : σ.writes = st.writes
  held : st.held ⊆ σ.held
  seen : ∀ p ∈ st.seen, p.1 ⊆ σ.held
  past : ∀ p ∈ st.seen, During σ.hist σ.db σ.since p.2
  possible : G.Possible st σ.db
  own : G.Own σ

variable {G}
variable {σ σ' : Local V L E C R} {c : C} {ls : List L} {st : Stand V L}

/-! ### What the others can do -/

variable {k : K} {d d' ws : Log V} {l : L}

omit [DecidableEq K] in
lemma Free.mono {ls' : List L} {o o' : Option (V k)} (h : G.Free ls k o o') (hsub : ls' ⊆ ls) :
    G.Free ls' k o o' :=
  ⟨h.1, fun g hg l hl => h.2 g hg l (hsub hl)⟩

/-- Another transaction leaves a row alone, or changes it as our locks leave free. -/
lemma rely_row (h : G.setting.Rely σ σ') (k : K) :
    get σ'.db k = get σ.db k ∨ G.Free σ.held k (get σ.db k) (get σ'.db k) := by
  cases h with
  | refuse => exact .inl rfl
  | commit u r hinv hdb hhist hown hrow hcompat hinv' =>
    by_cases hk : k ∈ u.writes.keys
    · obtain ⟨hrow, hguards, hlegal⟩ := hown k hk
      rw [Local.view, hdb] at hlegal hguards
      refine .inr ⟨hlegal, fun g hg l hl => hcompat g ?_ l hl⟩
      rcases List.mem_cons.1 hg with rfl | hg
      · exact hrow
      · exact hguards hg
    · exact .inl (get_append_of_notMem hk)

lemma Follows.refl (d : Log V) : G.Follows ls d d := fun _ => .refl

lemma Follows.mono {ls' : List L} (h : G.Follows ls d d') (hsub : ls' ⊆ ls) :
    G.Follows ls' d d' := fun k =>
  (h k).lift id fun _ _ hf => Free.mono hf hsub

lemma Follows.rely (h : G.Follows ls d σ.db) (hsub : ls ⊆ σ.held) (hr : G.setting.Rely σ σ') :
    G.Follows ls d σ'.db := by
  intro k
  rcases rely_row hr k with hsame | hfree
  · exact hsame.symm ▸ h k
  · exact (h k).tail (hfree.mono hsub)

/-- What no change of others breaks still holds of the row. -/
lemma Follows.keeps (h : G.Follows ls d d') {k : K} {P : Option (V k) → Prop} (hk : P (get d k))
    (hstep : ∀ o o', P o → G.Free ls k o o' → P o') : P (get d' k) := by
  have hpath := h k
  generalize get d' k = o at hpath
  induction hpath with
  | refl => exact hk
  | tail _ hf ih => exact hstep _ _ ih hf

lemma Follows.same (h : G.Follows ls d d') (hk : G.Covers ls k (get d k)) : get d' k = get d k :=
  h.keeps (P := fun o => o = get d k) rfl fun _ o' ho hf => hk o' (ho ▸ hf)

omit [DecidableEq K] in
lemma covers_of_row (hl : l ∈ ls) (hc : G.conflict (G.rowLock k) l = true) (o : Option (V k)) :
    G.Covers ls k o := fun _ hf => by
  have := hf.2 _ List.mem_cons_self l hl
  rw [hc] at this
  cases this

lemma Own.rely (h : G.Own σ) (hr : G.setting.Rely σ σ') : G.Own σ' := by
  obtain ⟨hwrites, hheld⟩ := hr.keeps
  intro k hk
  rw [hwrites] at hk
  obtain ⟨hrow, hguard, hlegal⟩ := h k hk
  -- the row lock of a written row covers it
  have hdb : get σ'.db k = get σ.db k := by
    rcases rely_row hr k with hsame | hfree
    · exact hsame
    · exact covers_of_row hrow (G.row_conflict k) _ _ hfree
  have hview : get σ'.view k = get σ.view k := by
    rw [Local.view, Local.view, hwrites]
    exact get_append_of_mem hk _ _
  rw [hheld, hdb, hview]
  exact ⟨hrow, hguard, hlegal⟩

lemma Known.stable : G.setting.Stable (G.Known c st) where
  own _ h := h.own
  rely σ σ' h hr := by
    have hsince : σ'.since = σ.since := hr.start.2
    have hheld : σ'.held = σ.held := hr.keeps.2
    refine ⟨hr.start.1.trans h.cmd, ?_, hr.keeps.1.trans h.writes, hheld ▸ h.held,
      hheld ▸ h.seen, fun p hp => ?_, fun p hp => (h.possible p hp).rely (h.seen p hp) hr,
      h.own.rely hr⟩
    · rw [hsince, hr.hist_length]
      exact Nat.le_succ_of_le h.since
    · obtain ⟨n, hn, hle, heq⟩ := h.past p hp
      rw [hsince]
      exact ⟨n, hn, by rw [hr.hist_length]; exact Nat.le_succ_of_le hle, (hr.stateAt hle).trans heq⟩

lemma Own.acquire (h : G.Own σ) (ls : List L) : G.Own (σ.acquire ls) := fun k hk =>
  ⟨List.mem_append_right _ (h k hk).1, fun _ hg => List.mem_append_right _ ((h k hk).2.1 hg),
    (h k hk).2.2⟩

lemma Known.lock (h : G.Known c st σ) (l : L) : G.Known c (st.lock l) (σ.acquire [l]) :=
  { h with
    held := List.cons_subset_cons l h.held
    seen := fun p hp => List.subset_cons_of_subset l (h.seen p hp)
    own := h.own.acquire _ }

lemma Known.now (h : G.Known c st σ) : During σ.hist σ.db σ.since σ.db :=
  ⟨σ.hist.length, h.since, Nat.le_refl _, stateAt_length⟩

lemma Known.see (h : G.Known c st σ) : G.Known c (st.see σ.db) σ :=
  { h with
    seen := List.forall_mem_cons.2 ⟨h.held, h.seen⟩
    past := List.forall_mem_cons.2 ⟨h.now, h.past⟩
    possible := List.forall_mem_cons.2 ⟨.refl _, h.possible⟩ }

lemma Known.put (h : G.Known c st σ)
    (hws : ∀ k ∈ ws.keys, G.guards k (get σ.db k) (get (ws ++ (st.writes ++ σ.db)) k) ⊆
      ws.keys.map G.rowLock ++ st.held ∧
      G.legal k (get σ.db k) (get (ws ++ (st.writes ++ σ.db)) k)) :
    G.Known c (G.put st ws σ.db) ((σ.acquire (ws.keys.map G.rowLock)).put ws) := by
  have hheld : ws.keys.map G.rowLock ++ st.held ⊆ ws.keys.map G.rowLock ++ σ.held := fun _ hl =>
    List.mem_append.2 ((List.mem_append.1 hl).imp_right fun hl' => h.held hl')
  refine { h with
    writes := congrArg _ h.writes
    held := hheld
    seen := List.forall_mem_cons.2
      ⟨hheld, fun p hp _ hl => List.mem_append_right _ (h.seen p hp hl)⟩
    past := List.forall_mem_cons.2 ⟨h.now, h.past⟩
    possible := List.forall_mem_cons.2 ⟨.refl _, h.possible⟩
    own := fun k hmem => ?_ }
  rw [Local.keys_put] at hmem
  rw [Local.view_put, Local.view_acquire, Local.view, h.writes]
  by_cases hnew : k ∈ ws.keys
  · obtain ⟨hguards, hlegal⟩ := hws k hnew
    exact ⟨List.mem_append_left _ (List.mem_map_of_mem hnew),
      fun _ hg => hheld (hguards hg), hlegal⟩
  · obtain ⟨hrow, hguards, hlegal⟩ := h.own k ((List.mem_append.1 hmem).resolve_left hnew)
    rw [Local.view, h.writes] at hlegal hguards
    rw [get_append_of_notMem hnew]
    exact ⟨List.mem_append_right _ hrow, fun _ hg => List.mem_append_right _ (hguards hg), hlegal⟩

/-! ### What was seen -/

omit [DecidableEq K] in
@[simp] lemma writes_put (ws d : Log V) : (G.put st ws d).writes = ws ++ st.writes := rfl

omit [DecidableEq K] in
@[simp] lemma held_put (ws d : Log V) :
    (G.put st ws d).held = ws.keys.map G.rowLock ++ st.held := rfl

@[simp] lemma possible_lock : G.Possible (st.lock l) d ↔ G.Possible st d :=
  Iff.rfl

@[simp] lemma possible_see : G.Possible (st.see d) d' ↔ G.Follows st.held d d' ∧ G.Possible st d' :=
  List.forall_mem_cons

@[simp] lemma possible_put : G.Possible (G.put st ws d) d' ↔
    G.Follows (ws.keys.map G.rowLock ++ st.held) d d' ∧ G.Possible st d' :=
  List.forall_mem_cons

lemma Possible.of_extends (h : G.Possible st' d) (hst : st'.Extends st) :
    G.Possible st d := fun p hp => h p (hst.seen hp)

/-! ### Rows that stay as they were seen -/

variable (G) in
/-- No transaction but this one can still change the committed row. -/
def Pinned (st : Stand V L) (k : K) (o : Option (V k)) : Prop :=
  ∀ d, G.Possible st d → get d k = o

section Pinned

variable {k : K} {o : Option (V k)}

lemma Pinned.of_seen (h : G.Pinned st k o) (hst : st.seen ⊆ st'.seen) :
    G.Pinned st' k o := fun d hd => h d fun p hp => hd p (hst hp)

lemma pinned_see (h : G.Covers st.held k (get d k)) :
    G.Pinned (st.see d) k (get d k) := fun _ hd => (possible_see.1 hd).1.same h

end Pinned

/-! ### Running a program on what is known -/

variable {α β : Type}

variable (G) in
/-- Run from `st`, the program keeps to the rules of the rows and returns only with `Q`,
whatever it sees. Savepoints are not treated. -/
def Wp : Prog V L E I A α → (α → Stand V L → Prop) → Stand V L → Prop
  | .ret a, Q, st => Q a st
  | .raise _, _, _ => True
  | .acquire l p, Q, st => Wp p Q (st.lock l)
  | .look p, Q, st => ∀ d, G.Possible st d → Wp (p (st.writes ++ d)) Q (st.see d)
  | .put ws p, Q, st => ∀ d, G.Possible st d →
      (∀ k ∈ ws.keys, G.guards k (get d k) (get (ws ++ (st.writes ++ d)) k) ⊆
        ws.keys.map G.rowLock ++ st.held ∧ G.legal k (get d k) (get (ws ++ (st.writes ++ d)) k)) ∧
      Wp p Q (G.put st ws d)
  | .ask _ p, Q, st => ∀ x a, Wp (p x a) Q st
  | .save _, _, _ => False
  | .rollback _, _, _ => False
  | .release _, _, _ => False

variable {Q Q' : α → Stand V L → Prop}

@[simp] lemma wp_bind {p : Prog V L E I A β} {f : β → Prog V L E I A α} :
    G.Wp (p >>= f) Q st ↔ G.Wp p (fun b st => G.Wp (f b) Q st) st := by
  change G.Wp (p.bind f) Q st ↔ _
  induction p generalizing st with
  | ret | raise => rfl
  | acquire l p ih => exact ih
  | look p ih => exact forall₂_congr fun d hd => ih _
  | put ws p ih => exact forall₂_congr fun d hd => and_congr_right fun _ => ih
  | ask u p ih => exact forall₂_congr fun x a => ih x a
  | save p | rollback p | release p => rfl

@[simp] lemma wp_pure {a : α} : G.Wp (pure a : Prog V L E I A α) Q st ↔ Q a st := Iff.rfl

@[simp] lemma wp_fail {e : E} : G.Wp (Prog.fail e : Prog V L E I A α) Q st ↔ True := Iff.rfl

@[simp] lemma wp_lock {Q : Unit → Stand V L → Prop} :
    G.Wp (Prog.lock l : Prog V L E I A Unit) Q st ↔ Q () (st.lock l) := Iff.rfl

@[simp] lemma wp_view {Q : Log V → Stand V L → Prop} :
    G.Wp (Prog.view : Prog V L E I A (Log V)) Q st ↔
      ∀ d, G.Possible st d → Q (st.writes ++ d) (st.see d) := Iff.rfl

@[simp] lemma wp_call {f : I → A → α × A} :
    G.Wp (Prog.call f : Prog V L E I A α) Q st ↔ ∀ x a, Q (f x a).1 st := Iff.rfl

@[simp] lemma wp_write {Q : Unit → Stand V L → Prop} :
    G.Wp (Prog.write ws : Prog V L E I A Unit) Q st ↔ ∀ d, G.Possible st d →
      (∀ k ∈ ws.keys, G.guards k (get d k) (get (ws ++ (st.writes ++ d)) k) ⊆
        ws.keys.map G.rowLock ++ st.held ∧ G.legal k (get d k) (get (ws ++ (st.writes ++ d)) k)) ∧
      Q () (G.put st ws d) := Iff.rfl

lemma wp_write_row {r : Option (V k)} {Q : Unit → Stand V L → Prop}
    (h : ∀ d, G.Possible st d → G.guards k (get d k) r ⊆ G.rowLock k :: st.held ∧
      G.legal k (get d k) r ∧ Q () (G.put st [⟨k, r⟩] d)) :
    G.Wp (Prog.write [⟨k, r⟩] : Prog V L E I A Unit) Q st := by
  refine wp_write.2 fun d hd => ?_
  obtain ⟨hguards, hlegal, hQ⟩ := h d hd
  refine ⟨fun k' hk' => ?_, hQ⟩
  obtain rfl : k' = k := by simpa using hk'
  simpa using And.intro hguards hlegal

@[simp] lemma wp_failIf {q : Prop} [Decidable q] {e : E} {Q : Unit → Stand V L → Prop} :
    G.Wp (Prog.failIf q e : Prog V L E I A Unit) Q st ↔ (¬ q → Q () st) := by
  by_cases hq : q <;> simp [Prog.failIf, hq]

variable {p : Prog V L E I A α} {hist : List (Entry V E C R)}

@[simp] lemma wp_ite {q : Prop} [Decidable q] {p' : Prog V L E I A α} :
    G.Wp (if q then p else p') Q st ↔ (q → G.Wp p Q st) ∧ (¬ q → G.Wp p' Q st) := by
  by_cases hq : q <;> simp [hq]

lemma wp_lockAll {locks : List L} {Q : PUnit → Stand V L → Prop}
    (h : ∀ st', st'.Extends st → locks ⊆ st'.held → st'.seen = st.seen → Q ⟨⟩ st') :
    G.Wp (locks.forM fun l => (Prog.lock l : Prog V L E I A Unit)) Q st := by
  induction locks generalizing st with
  | nil => exact h st (.refl st) (List.nil_subset _) rfl
  | cons l locks ih =>
    refine wp_bind.2 (ih fun st' hst hall hseen => ?_)
    refine h st' (hst.trans (.lock st l)) ?_ hseen
    exact List.cons_subset.2 ⟨hst.held List.mem_cons_self, hall⟩

/-- A program run on what is known runs so on the machine. -/
theorem Wp.triple (h : G.Wp p Q st) :
    G.setting.Triple (G.Known c st) p (fun a σ => ∃ st', G.Known c st' σ ∧ Q a st')
      fun _ _ => True := by
  induction p generalizing st with
  | ret a => exact Setting.Triple.ret Known.stable fun σ _ hσ => ⟨st, hσ, h⟩
  | raise e => exact Setting.Triple.fail Known.stable fun _ _ _ => trivial
  | acquire l p ih =>
    exact (Setting.Triple.lock Known.stable Known.stable fun _ _ hσ => hσ.lock l).bind fun _ => ih h
  | look p ih =>
    refine Setting.Triple.bind (M := fun v σ => ∃ d, (v = st.writes ++ d ∧ G.Possible st d) ∧
      G.Known c (st.see d) σ) (Setting.Triple.view Known.stable
        (fun v => Setting.Stable.exists fun d => ?_) fun σ _ hσ => ?_) fun v => ?_
    · exact ⟨fun σ hσ => hσ.2.own, fun σ σ' hσ hr => ⟨hσ.1, Known.stable.rely σ σ' hσ.2 hr⟩⟩
    · exact ⟨σ.db, ⟨by rw [Local.view, hσ.writes], hσ.possible⟩, hσ.see⟩
    · refine Setting.Triple.of_exists fun d => Setting.Triple.of_pure (fun _ hσ => hσ.1) ?_
      rintro ⟨rfl, hd⟩
      exact Setting.Triple.pre (ih _ (h d hd)) fun _ hσ => hσ.2
  | put ws p ih =>
    change G.setting.Triple _ (Prog.write ws >>= fun _ => p) _ _
    refine Setting.Triple.bind (M := fun _ σ => ∃ d, G.Possible st d ∧
      G.Known c (G.put st ws d) σ) (Setting.Triple.write Known.stable
        (Setting.Stable.exists fun d => ?_) fun σ _ hσ => ?_) fun _ => ?_
    · exact ⟨fun σ hσ => hσ.2.own, fun σ σ' hσ hr => ⟨hσ.1, Known.stable.rely σ σ' hσ.2 hr⟩⟩
    · exact ⟨σ.db, hσ.possible, hσ.put (h σ.db hσ.possible).1⟩
    · refine Setting.Triple.of_exists fun d => Setting.Triple.of_pure (fun _ hσ => hσ.1)
        fun hd => ?_
      exact Setting.Triple.pre (ih (h d hd).2) fun _ hσ => hσ.2
  | ask u p ih =>
    change G.setting.Triple _ (Prog.call (fun x a => ((x, a), u x a)) >>= fun y => p y.1 y.2) _ _
    exact Setting.Triple.bind (M := fun _ => G.Known c st)
      (Setting.Triple.call Known.stable (fun _ => Known.stable) fun _ _ _ _ hσ => hσ)
      fun y => ih y.1 y.2 (h y.1 y.2)
  | save p | rollback p | release p => exact h.elim

/-! ### From commands to runs -/

/-- The transaction of `c` may end here with this answer. -/
def Ending (G : Guarded V L E I A C R) (c : C) (r : R) (st : Stand V L) : Prop :=
  ∀ d during, G.Possible st d → (∀ p ∈ st.seen, during p.2) →
    G.post c r during d (st.writes ++ d)

/-- A command whose transaction ends in its effect. -/
def Correct (G : Guarded V L E I A C R) (c : C) : Prop := G.Wp (G.body c) (G.Ending c) .start

lemma Known.of_fresh (h : G.setting.Fresh c σ) : G.Known c .start σ where
  cmd := h.cmd
  since := Nat.le_of_eq h.since
  writes := h.writes
  held := List.nil_subset _
  seen := fun _ hp => nomatch hp
  past := fun _ hp => nomatch hp
  possible := fun _ hp => nomatch hp
  own := fun k hk => by
    rw [h.writes] at hk
    cases hk

theorem Correct.verified (h : G.Correct c) : G.setting.Verified c := by
  have hbody := Setting.Triple.pre (P := G.setting.Fresh c) (Wp.triple (c := c) h)
    fun σ hσ => Known.of_fresh hσ
  refine hbody.mono (fun r σ hi hq => ?_) fun e σ hi _ => .step hi rfl rfl
  obtain ⟨st, hσ, hpost⟩ := hq
  obtain rfl := hσ.cmd
  refine .step hi rfl ⟨?_, fun k => ?_⟩
  · rw [hσ.writes]
    exact hpost σ.db _ hσ.possible hσ.past
  by_cases hk : k ∈ σ.writes.keys
  · exact .inr (hσ.own k hk).2.2
  · exact .inl (get_append_of_notMem hk)

/-- **Guarded systems are serializable**: what they reach is a run of their effects. -/
theorem run_of_reachable (h : ∀ c, G.Correct c) {aux : A} {s : State V L E I A C R}
    (hs : Reachable G.toSystem aux s) : Run G.Effect s.db s.hist :=
  Setting.inv_of_reachable (S := G.setting) .nil (fun c => (h c).verified) hs

lemma Effect.row {e : Entry V E C R} {db : Log V} (h : G.Effect hist e db) (k : K) :
    get db k = get e.before k ∨ G.legal k (get e.before k) (get db k) := by
  unfold Effect at h
  split at h
  · exact h.2 k
  · exact .inl (h ▸ rfl)

/-- Along a run each row moves by its rule. -/
lemma follows_of_run {db : Log V} (h : Run G.Effect db hist) {i j : ℕ} (hij : i ≤ j)
    (hj : j ≤ hist.length) : G.Follows [] (stateAt hist db i) (stateAt hist db j) := by
  refine h.persist (fun older e db' _ _ hQ heff k => ?_) hij hj (.refl _)
  rcases heff.row k with hsame | hlegal
  · exact hsame.symm ▸ hQ k
  · exact (hQ k).tail ⟨hlegal, by simp⟩

end Guarded

end ReadCommitted
