import Proxiima.Memory.Refinement

/-!
# The history of a series

What the answers of a run say about one series: its head in every state, which admissions can
follow each other, and in which order its versions and publication positions come. A series
loses a live version only to a forget or an erase, and a version only to an erase.
-/

namespace Proxiima.Memory

open ReadCommitted

/-- The commands that take a live version away. -/
def Command.withdraws : Command → Bool
  | forget .. => true
  | erase .. => true
  | eraseSeries .. => true
  | _ => false

/-- Admissions, forgets and restores: the commands that keep every version and its owner. -/
def Command.keeps : Command → Bool
  | erase .. => false
  | eraseSeries .. => false
  | transfer .. => false
  | _ => true

variable {H : Hashes} {hist : List Answer} {e : Answer} {db : Tables} {t : Uuid} {m : MemoryRow}

/-! ### What one answer does to a version -/

variable {s s' : Store} {position : Option ℕ}

lemma Replaces.version {u : Uuid} {r : MemoryRow} {o : Option MemoryRow} (h : Replaces s u r o s')
    (hm : s.memory t = some m) : (t = u ∧ m = r ∧ s'.memory t = o) ∨ s'.memory t = some m := by
  rw [h.memory]
  by_cases ht : t = u
  · subst ht
    rw [Function.update_self]
    exact .inl ⟨rfl, Option.mem_unique hm h.found, rfl⟩
  · rw [Function.update_of_ne ht]
    exact .inr hm

lemma Admits.version {p : Prepared} (h : Admits H s p position s') (hm : s.memory t = some m) :
    s'.memory t = some m := by
  rw [h.memory, Function.update_of_ne, hm]
  rintro rfl
  simp [h.unused] at hm

/-- A live version stays live unless the command withdraws it. -/
lemma Effect.live_version (h : Effect H hist e db) (hc : e.cmd.withdraws = false)
    (hm : memoryOf e.before t = some m) (hlive : m.forgotten = false) :
    ∃ m', memoryOf db t = some m' ∧ m'.handle = m.handle ∧ m'.forgotten = false := by
  cases h with
  | refused | replayed | live => exact ⟨m, hm, rfl, hlive⟩
  | admitted _ _ h => exact ⟨m, h.version hm, rfl, hlive⟩
  | restored h =>
    obtain ⟨r, -, -, hr, -⟩ := h
    rcases hr.version hm with ⟨-, rfl, hnew⟩ | hsame
    · exact ⟨_, hnew, rfl, rfl⟩
    · exact ⟨m, hsame, rfl, hlive⟩
  | @transferred fromOwner toOwner _ handle _ _ _ h =>
    obtain ⟨h1, h2, -⟩ := rehome_handle m handle fromOwner toOwner
    refine ⟨m.rehome handle fromOwner toOwner, ?_, h1, h2.trans hlive⟩
    exact (h.memory t).trans (congrArg _ hm)
  | forgotten | erased | erasedSeries => cases hc

/-- Under the commands that keep it nothing of a version changes but its forgotten mark. -/
lemma Effect.marked_version (h : Effect H hist e db) (hc : e.cmd.keeps = true)
    (hm : memoryOf e.before t = some m) :
    ∃ forgotten, memoryOf db t = some { m with forgotten := forgotten } := by
  cases h with
  | refused | replayed | live => exact ⟨m.forgotten, hm⟩
  | admitted _ _ h => exact ⟨m.forgotten, h.version hm⟩
  | forgotten h | restored h =>
    obtain ⟨r, -, -, hr, -⟩ := h
    rcases hr.version hm with ⟨-, rfl, hnew⟩ | hsame
    · exact ⟨_, hnew⟩
    · exact ⟨m.forgotten, hsame⟩
  | erased | erasedSeries | transferred => cases hc

/-- A version stays in its series and with its owner, live or forgotten, under the commands
that keep it. -/
lemma Effect.kept_version (h : Effect H hist e db) (hc : e.cmd.keeps = true)
    (hm : memoryOf e.before t = some m) :
    ∃ m', memoryOf db t = some m' ∧ m'.handle = m.handle ∧ m'.ownerId = m.ownerId := by
  obtain ⟨forgotten, hm'⟩ := h.marked_version hc hm
  exact ⟨_, hm', rfl, rfl⟩

lemma erasesSeries_counter {owner : Uuid}
    (h : Relation.ReflTransGen (fun s s' => ∃ t, Erases owner t s s') s s') :
    s'.counter = s.counter := by
  induction h with
  | refl => rfl
  | tail _ hstep ih =>
    obtain ⟨t, m, -, hr, -⟩ := hstep
    exact hr.counter.trans ih

/-- The publication counter of a series only grows. -/
lemma Effect.counter_le (h : Effect H hist e db) {handle : Uuid} {c : Counter}
    (hm : counterOf e.before handle = some c) :
    ∃ c', counterOf db handle = some c' ∧ c.sequence ≤ c'.sequence := by
  have hsame : (store db).counter = (store e.before).counter →
      ∃ c', counterOf db handle = some c' ∧ c.sequence ≤ c'.sequence := fun heq =>
    ⟨c, (congrFun heq handle).trans hm, le_rfl⟩
  cases h with
  | refused | replayed | live => exact hsame rfl
  | @admitted _ _ before _ p position _ _ h =>
    have hcounter := h.counter
    cases position with
    | none => exact hsame hcounter
    | some n =>
      by_cases hh : handle = p.handle
      · subst hh
        have hm' : (store before).counter p.handle = some c := hm
        refine ⟨_, (congrFun hcounter.2 p.handle).trans (Function.update_self ..), ?_⟩
        rw [hm']
        exact Nat.le_succ _
      · exact ⟨c, (congrFun hcounter.2 handle).trans ((Function.update_of_ne hh ..).trans hm),
          le_rfl⟩
  | forgotten h | restored h =>
    obtain ⟨r, -, -, hr, -⟩ := h
    exact hsame hr.counter
  | erased h =>
    obtain ⟨r, -, hr, -⟩ := h
    exact hsame hr.counter
  | erasedSeries h => exact hsame (erasesSeries_counter h)
  | transferred h =>
    have hmap := (h.counter handle).trans (congrArg (Option.map _) hm)
    obtain ⟨c', hc', heq⟩ := Option.map_eq_some_iff.1 hmap
    exact ⟨c', hc', heq.ge⟩

/-- A version that is still there is still of its series. -/
lemma Effect.handle_eq (h : Effect H hist e db) (hm : memoryOf e.before t = some m)
    {m' : MemoryRow} (hm' : memoryOf db t = some m') : m'.handle = m.handle := by
  have hinherits (hin : Inherits (store e.before) (store db)) : m'.handle = m.handle := by
    obtain ⟨r, hr, hh, -⟩ := hin t m' hm'
    obtain rfl := Option.mem_unique hr hm
    exact hh
  cases h with
  | refused | replayed | live => exact congrArg _ (Option.mem_unique hm' hm)
  | admitted _ _ h => exact congrArg _ (Option.some.inj (hm'.symm.trans (h.version hm)))
  | forgotten h | restored h | erased h => exact hinherits h.inheritsOwned.inherits
  | erasedSeries h => exact hinherits (erasesSeries_inheritsOwned h).inherits
  | transferred h => exact hinherits h.inherits

variable {o : FactIngestOutcome} {expected : Option Uuid}

/-- What an answer that admits a version says. -/
lemma Effect.admits (h : Effect H hist e db) (hr : e.result = .ok (.admitted o expected position)) :
    ∃ p, o = ⟨p.t, p.handle, false, false⟩ ∧ expected = p.expectedHeadT ∧
      Admits H (store e.before) p position (store db) := by
  cases h with
  | admitted _ _ h =>
    simp only [Except.ok.injEq, Response.admitted.injEq] at hr
    obtain ⟨rfl, rfl, rfl⟩ := hr
    exact ⟨_, rfl, rfl, h⟩
  | _ => simp at hr

/-! ### Heads -/

/-- The answer takes a live version of the series away. -/
def TakesLive (handle : Uuid) (e : Answer) (after : Tables) : Prop :=
  e.cmd.withdraws = true ∧ ∃ t m, memoryOf e.before t = some m ∧ m.handle = handle ∧
    m.forgotten = false ∧ ∀ m', memoryOf after t = some m' → m'.forgotten = true

/-- A version is live in its series. -/
def LiveIn (handle t : Uuid) (v : Tables) : Prop :=
  ∃ m, memoryOf v t = some m ∧ m.handle = handle ∧ m.forgotten = false

/-- A live version is lost only to an answer that takes it. -/
lemma Effect.takesLive {handle : Uuid} (h : Effect H hist e db) (hlive : LiveIn handle t e.before)
    (hno : ¬ LiveIn handle t db) : TakesLive handle e db := by
  obtain ⟨m, hm, hh, hf⟩ := hlive
  have hc : e.cmd.withdraws = true := by
    by_contra hc
    obtain ⟨m', hm', hh', hf'⟩ := h.live_version (Bool.eq_false_iff.2 hc) hm hf
    exact hno ⟨m', hm', hh'.trans hh, hf'⟩
  refine ⟨hc, t, m, hm, hh, hf, fun m' hm' => ?_⟩
  -- the row that is left is of the same series, so it is forgotten
  by_contra hf'
  exact hno ⟨m', hm', (h.handle_eq hm hm').trans hh, Bool.eq_false_iff.2 hf'⟩

/-- **The heads of the series**: in every committed state a series has a head exactly when it
has a version, its versions have the owner, kind and schema of the head, and the head is its
newest live version, or its newest when none is live. Two admissions against the same head of
a series both commit only when a forget or an erase took a live version of the series away
in between. -/
theorem series_heads (H : Hashes) {processes : Processes} {s : Machine}
    (h : Reachable (system H) processes s) :
    (∀ handle, (∃ head, headOf s.db handle = some head) ↔
      ∃ t m, memoryOf s.db t = some m ∧ m.handle = handle) ∧
    (∀ t m head, memoryOf s.db t = some m → headOf s.db m.handle = some head →
      m.ownerId = head.ownerId ∧ m.kind = head.kind ∧ m.schemaId = head.schemaId) ∧
    (∀ handle head, headOf s.db handle = some head → IsNewest (memoryOf s.db) handle head.t) ∧
    ∀ i j e e' o o' expected p p', i < j → answer s.hist i = some e → answer s.hist j = some e' →
      e.result = .ok (.admitted o expected p) → e'.result = .ok (.admitted o' expected p') →
      o.handle = o'.handle → ∃ n d, i < n ∧ n < j ∧ answer s.hist n = some d ∧
        TakesLive o.handle d (stateAt s.hist s.db (n + 1)) := by
  have hrun := run_of_reachable H h
  have hsound := sound_of_run hrun
  refine ⟨fun handle => ⟨?_, ?_⟩, fun t m head hm hhead => ?_, fun handle head hhead => ?_, ?_⟩
  · rintro ⟨head, hhead⟩
    obtain ⟨m, hm, hh, -⟩ := (hsound.series handle).newest head hhead
    exact ⟨head.t, m, hm, hh⟩
  · rintro ⟨t, m, hm, hh⟩
    obtain ⟨head, hhead, -⟩ := (hsound.series handle).rows t m hm hh
    exact ⟨head, hhead⟩
  · obtain ⟨head', hhead', hcols⟩ := (hsound.series m.handle).rows t m hm rfl
    obtain rfl := Option.mem_unique hhead hhead'
    exact hcols
  · exact (hsound.series handle).newest head hhead
  intro i j e e' o o' expected position position' hij hi hj hr hr' hh
  obtain ⟨_, _, _, _, hrun₁, heff₁⟩ := hrun.effect_of_answer hi
  obtain ⟨_, _, _, hbefore₂, hrun₂, heff₂⟩ := hrun.effect_of_answer hj
  obtain ⟨p, rfl, rfl, hadm₁⟩ := heff₁.admits hr
  obtain ⟨p', rfl, hexp, hadm₂⟩ := heff₂.admits hr'
  have hjlen : j ≤ s.hist.length := by
    have := (List.getElem?_eq_some_iff.1 hj).1
    exact Nat.le_of_lt (by simpa using this)
  have hlive : LiveIn p.handle p.t (stateAt s.hist s.db (i + 1)) :=
    ⟨p.row, (congrFun hadm₁.memory p.t).trans (Function.update_self ..), rfl, rfl⟩
  -- while the first version is live, the head lies above the head both were prepared against
  have hlost : ¬ LiveIn p.handle p.t (stateAt s.hist s.db j) := by
    rw [← hbefore₂]
    rintro ⟨m, hm, hmh, hf⟩
    obtain ⟨head, hhead, hle⟩ := ((sound_of_run hrun₂).series p.handle).live_le hm hmh hf
    have hh : p.handle = p'.handle := hh
    have hfound := hadm₂.expected
    rw [← hh, hhead, ← hexp] at hfound
    have hbase := hadm₁.expected
    rw [← hfound] at hbase
    obtain ⟨head₁, hhead₁, ht₁⟩ := Option.map_eq_some_iff.1 hbase
    have hlt := hadm₁.head_lt (sound_of_run hrun₁) hhead₁
    rw [ht₁] at hlt
    exact Nat.lt_irrefl _ (Nat.lt_of_le_of_lt hle hlt)
  obtain ⟨n, d, hin, hnj, hd, hlived, hnot⟩ := hrun.breaks hij hjlen hlive hlost
  obtain ⟨_, _, _, _, _, heff⟩ := hrun.effect_of_answer hd
  exact ⟨n, d, hin, hnj, hd, heff.takesLive hlived hnot⟩

/-- A Fact of owner 1 for the series 5. -/
def plainFact : MemoryAdmissionDraft :=
  ⟨0, none, 1, ⟨"s", some 5, none, none, none, .fact, none⟩, [], [], []⟩

/-- No two locks apart: enough for transactions that run one at a time. -/
def oneLock : Hashes := ⟨fun _ => 0, fun _ => ""⟩

/-- Two Facts, the second forgotten, and a third one, with the clock the last is minted by. -/
def forgetBetween (process clockMillis : ℕ) : List (Command × Input) :=
  [(.ingest plainFact true, { clockMillis := 100 }),
    (.ingest plainFact true, { clockMillis := 200 }),
    (.forget 1 (layout 200 0 0 0) none, {}),
    (.ingest plainFact true, { process := process, clockMillis := clockMillis })]

/-- The commands one after the other. -/
abbrev inTurn (H : Hashes) : List (Command × Input) → Option Machine :=
  (system H).serial 200 (State.init fun _ => {})

/-- Version `t` of the series 5, after version `p`. -/
abbrev admits (t p n : ℕ) : Except StorageError Response :=
  .ok (.admitted ⟨layout t 0 0 0, 5, false, false⟩ (some (layout p 0 0 0)) (some n))

/-- Two answers of a run, as they were evaluated with something else of it. -/
lemma answers_of_map {α : Type} {run : Option Machine} {f : Machine → α} {a : α} {i j : ℕ}
    {r r' : Except StorageError Response}
    (h : run.map (fun s => (f s, (answer s.hist i).map Entry.result,
      (answer s.hist j).map Entry.result)) = some (a, some r, some r')) :
    ∃ s, run = some s ∧ f s = a ∧ ∃ e e', answer s.hist i = some e ∧ answer s.hist j = some e' ∧
      e.result = r ∧ e'.result = r' := by
  obtain ⟨s, hs, heq⟩ := Option.map_eq_some_iff.1 h
  simp only [Prod.mk.injEq, Option.map_eq_some_iff] at heq
  obtain ⟨ha, ⟨e, he, hr⟩, e', he', hr'⟩ := heq
  exact ⟨s, hs, ha, e, e', he, he', hr, hr'⟩

lemma forgetBetween_run : (inTurn oneLock (forgetBetween 0 300)).map (fun s => ((),
      (answer s.hist 1).map Entry.result, (answer s.hist 3).map Entry.result)) =
    some ((), some (admits 200 100 2), some (admits 300 100 3)) := by decide +kernel

/-- Two admissions against the same head of a series commit when the version of the first is
forgotten in between. -/
theorem same_head_admitted_twice :
    ∃ s, Reachable (system oneLock) (fun _ => {}) s ∧ ∃ e e' o o' x p p',
      answer s.hist 1 = some e ∧ answer s.hist 3 = some e' ∧
      e.result = .ok (.admitted o (some x) p) ∧ e'.result = .ok (.admitted o' (some x) p') ∧
      o.handle = o'.handle := by
  obtain ⟨s, hs, -, e, e', he, he', hr, hr'⟩ := answers_of_map forgetBetween_run
  exact ⟨s, Reachable.serial .init hs, e, e', _, _, _, _, _, he, he', hr, hr', rfl⟩

/-- The two admissions against one head, and the forget between them. -/
theorem series_heads_forgotten :
    ∃ s, inTurn oneLock (forgetBetween 0 300) = some s ∧
      ∃ n d, 1 < n ∧ n < 3 ∧ answer s.hist n = some d ∧
        TakesLive 5 d (stateAt s.hist s.db (n + 1)) := by
  obtain ⟨s, hs, -, e, e', he, he', hr, hr'⟩ := answers_of_map forgetBetween_run
  exact ⟨s, hs, (series_heads oneLock (Reachable.serial .init hs)).2.2.2 1 3 e e' _ _ _ _ _
    (by decide) he he' hr hr' rfl⟩

/-! ### Orders -/

/-- The answer did not admit a version of the series while there was one above the head. -/
def headNewest (handle : Uuid) (e : Answer) : Bool :=
  match e.result with
  | .ok (.admitted o _ _) => o.handle ≠ handle || (headOf e.before handle).all fun head =>
      (versions e.before handle).all fun p => p.1 ≤ head.t
  | _ => true

lemma headNewest_le (h : headNewest o.handle e = true)
    (hr : e.result = .ok (.admitted o expected position)) {head : Head}
    (hhead : headOf e.before o.handle = some head) (hm : memoryOf e.before t = some m)
    (hh : m.handle = o.handle) : t ≤ head.t := by
  simp only [headNewest, hr, hhead, Option.all_some, ne_eq, not_true, decide_false, Bool.false_or,
    List.all_eq_true, decide_eq_true_eq] at h
  exact h (t, m) (mem_versions.2 ⟨hm, hh⟩)

/-- The answer erased a version of the series. -/
def TakesVersion (handle : Uuid) (e : Answer) (after : Tables) : Prop :=
  ∃ t m, memoryOf e.before t = some m ∧ m.handle = handle ∧ memoryOf after t = none

/-- **The orders of a series**: in every history the publication positions of a series grow in
the order of commits. When every admission to it finds no version of the series above the head,
every new version has a greater id than every version of the series before it, live or forgotten;
if moreover none of its versions was erased, the ids grow in the order of commits too. -/
theorem series_orders (H : Hashes) {processes : Processes} {s : Machine}
    (h : Reachable (system H) processes s) (handle : Uuid) :
    (∀ i j e e' o o' x x' n n', i < j → answer s.hist i = some e → answer s.hist j = some e' →
      e.result = .ok (.admitted o x (some n)) → e'.result = .ok (.admitted o' x' (some n')) →
      o.handle = handle → o'.handle = handle → n < n') ∧
    ((∀ e ∈ s.hist, headNewest handle e = true) →
      (∀ j e' o' x' p', answer s.hist j = some e' → e'.result = .ok (.admitted o' x' p') →
        o'.handle = handle →
        ∀ t m, memoryOf e'.before t = some m → m.handle = handle → t < o'.memoryId) ∧
      ((∀ n d, answer s.hist n = some d → ¬ TakesVersion handle d (stateAt s.hist s.db (n + 1))) →
        ∀ i j e e' o o' x x' p p', i < j → answer s.hist i = some e → answer s.hist j = some e' →
        e.result = .ok (.admitted o x p) → e'.result = .ok (.admitted o' x' p') →
        o.handle = handle → o'.handle = handle → o.memoryId < o'.memoryId)) := by
  have hrun := run_of_reachable H h
  refine ⟨?_, fun hnewest => ?_⟩
  · rintro i j e e' o o' x x' n n' hij hi hj hr hr' rfl hh
    obtain ⟨_, _, _, _, _, heff₁⟩ := hrun.effect_of_answer hi
    obtain ⟨_, _, _, hbefore₂, _, heff₂⟩ := hrun.effect_of_answer hj
    obtain ⟨p, rfl, rfl, hadm₁⟩ := heff₁.admits hr
    obtain ⟨p', rfl, rfl, hadm₂⟩ := heff₂.admits hr'
    obtain ⟨hn, hcounter₁⟩ := hadm₁.counter
    obtain ⟨hn', -⟩ := hadm₂.counter
    -- the counter is at least `n` from the first admission on
    have hle : ∃ c, counterOf (stateAt s.hist s.db j) p.handle = some c ∧ n ≤ c.sequence := by
      refine hrun.persist (Q := fun v => ∃ c, counterOf v p.handle = some c ∧ n ≤ c.sequence)
        ?_ hij (answer_lt hj).le
        ⟨_, (congrFun hcounter₁ p.handle).trans (Function.update_self ..), hn.le⟩
      rintro older d db' - - ⟨c, hc, hnc⟩ heff
      obtain ⟨c', hc', hcc'⟩ := heff.counter_le hc
      exact ⟨c', hc', hnc.trans hcc'⟩
    obtain ⟨c, hc, hnc⟩ := hle
    rw [← hbefore₂] at hc
    have hh : p'.handle = p.handle := hh
    have hc : (store e'.before).counter p'.handle = some c := hh ▸ hc
    rw [hn', hc]
    exact Nat.lt_succ_of_le hnc
  have habove : ∀ j e' o' x' p', answer s.hist j = some e' →
      e'.result = .ok (.admitted o' x' p') → o'.handle = handle →
      ∀ t m, memoryOf e'.before t = some m → m.handle = handle → t < o'.memoryId := by
    rintro j e' o' x' p' hj hr' rfl t m hm hmh
    obtain ⟨_, _, _, _, hrun₂, heff₂⟩ := hrun.effect_of_answer hj
    obtain ⟨q, rfl, rfl, hadm₂⟩ := heff₂.admits hr'
    have hsound := sound_of_run hrun₂
    obtain ⟨head, hhead, -⟩ := (hsound.series q.handle).rows t m hm hmh
    exact (headNewest_le (hnewest e' (mem_of_answer hj)) hr' hhead hm hmh).trans_lt
      (hadm₂.head_lt hsound hhead)
  refine ⟨habove, fun hkept => ?_⟩
  rintro i j e e' o o' x x' p p' hij hi hj hr hr' rfl hh
  obtain ⟨_, _, _, _, _, heff₁⟩ := hrun.effect_of_answer hi
  obtain ⟨_, _, _, hbefore₂, _⟩ := hrun.effect_of_answer hj
  obtain ⟨q, rfl, rfl, hadm₁⟩ := heff₁.admits hr
  have hstays : ∃ m, memoryOf (stateAt s.hist s.db j) q.t = some m ∧ m.handle = q.handle := by
    by_contra hno
    obtain ⟨n, d, -, -, hd, ⟨m, hm, hmh⟩, hlost⟩ := hrun.breaks
      (Q := fun v => ∃ m, memoryOf v q.t = some m ∧ m.handle = q.handle) hij (answer_lt hj).le
      ⟨q.row, (congrFun hadm₁.memory q.t).trans (Function.update_self ..), rfl⟩ hno
    obtain ⟨_, _, _, _, _, heff⟩ := hrun.effect_of_answer hd
    refine hkept n d hd ⟨q.t, m, hm, hmh, Option.eq_none_iff_forall_ne_some.2 fun m' hm' => ?_⟩
    exact hlost ⟨m', hm', (heff.handle_eq hm hm').trans hmh⟩
  obtain ⟨m, hm, hmh⟩ := hstays
  rw [← hbefore₂] at hm
  exact habove j e' o' x' p' hj hr' hh q.t m hm hmh

/-- A process whose clock is behind admits after the newest version was forgotten: the id of
the new version lies below that of the forgotten one, and its position above. -/
theorem series_orders_disagree :
    ∃ s, Reachable (system oneLock) (fun _ => {}) s ∧ (∀ e ∈ s.hist, e.cmd.keeps = true) ∧
      ∃ e e' o o' x x' n n', answer s.hist 1 = some e ∧ answer s.hist 3 = some e' ∧
        e.result = .ok (.admitted o x (some n)) ∧ e'.result = .ok (.admitted o' x' (some n')) ∧
        o.handle = o'.handle ∧ n < n' ∧ o'.memoryId < o.memoryId := by
  have hrun : (inTurn oneLock (forgetBetween 1 150)).map
      (fun s => (s.hist.all fun e => e.cmd.keeps, (answer s.hist 1).map Entry.result,
        (answer s.hist 3).map Entry.result)) =
      some (true, some (admits 200 100 2), some (admits 150 100 3)) := by decide +kernel
  obtain ⟨s, hs, hall, e, e', he, he', hr, hr'⟩ := answers_of_map hrun
  exact ⟨s, Reachable.serial .init hs, List.all_eq_true.1 hall, e, e', _, _, _, _, _, _, he, he',
    hr, hr', rfl, by decide, by decide⟩

/-- Two admissions on one head after the other. -/
theorem series_orders_two :
    ∃ s, inTurn oneLock ((forgetBetween 0 300).take 2) = some s ∧
      ∃ e e' o o' x x' n n', answer s.hist 0 = some e ∧ answer s.hist 1 = some e' ∧
        e.result = .ok (.admitted o x (some n)) ∧ e'.result = .ok (.admitted o' x' (some n')) ∧
        n < n' ∧ o.memoryId < o'.memoryId := by
  have hrun : (inTurn oneLock ((forgetBetween 0 300).take 2)).map
      (fun s => ((s.hist.all fun e => e.cmd.keeps) && s.hist.all (headNewest 5),
        (answer s.hist 0).map Entry.result, (answer s.hist 1).map Entry.result)) =
      some (true, some (.ok (.admitted ⟨layout 100 0 0 0, 5, false, false⟩ none (some 1))),
        some (admits 200 100 2)) := by decide +kernel
  obtain ⟨s, hs, hall, e, e', he, he', hr, hr'⟩ := answers_of_map hrun
  rw [Bool.and_eq_true, List.all_eq_true, List.all_eq_true] at hall
  have hreach := Reachable.serial .init hs
  have hkept : ∀ n d, answer s.hist n = some d →
      ¬ TakesVersion 5 d (stateAt s.hist s.db (n + 1)) := by
    rintro n d hd ⟨t, m, hm, -, hnone⟩
    obtain ⟨_, _, _, _, _, heff⟩ := (run_of_reachable oneLock hreach).effect_of_answer hd
    obtain ⟨m', hm', -⟩ := heff.kept_version (hall.1 d (mem_of_answer hd)) hm
    cases hm'.symm.trans hnone
  obtain ⟨hpos, hids⟩ := series_orders oneLock hreach 5
  exact ⟨s, hs, e, e', _, _, _, _, _, _, he, he', hr, hr',
    hpos 0 1 e e' _ _ _ _ _ _ (by decide) he he' hr hr' rfl rfl,
    (hids hall.2).2 hkept 0 1 e e' _ _ _ _ _ _ (by decide) he he' hr hr' rfl rfl⟩

end Proxiima.Memory
