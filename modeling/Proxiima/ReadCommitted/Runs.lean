import Proxiima.ReadCommitted.Triple

/-!
# Serial runs

What the transactions of a system mean, one at a time: an effect says which log an answer
may leave behind, given the answers before it. A run is a list of answers, each with its
effect on the log the one before left. A system whose invariant is `Run` is serializable:
every state it reaches, with the answers that led there, is one of a machine that takes the
commands one after the other, in the order in which they ended.
-/

namespace ReadCommitted

variable {K : Type} {V : K → Type} {L E I A C R : Type}

/-- The committed log after the first `n` answers. -/
def stateAt (hist : List (Entry V E C R)) (db : Log V) (n : ℕ) : Log V :=
  (hist.reverse[n]?).elim db Entry.before

/-- The answers in the order in which they were given. -/
def answer (hist : List (Entry V E C R)) (n : ℕ) : Option (Entry V E C R) := hist.reverse[n]?

/-- The runs of the serial machine with these effects: the log an answer finds is recorded
in the answer, the log it leaves is the last argument of `effect`. -/
inductive Run (effect : List (Entry V E C R) → Entry V E C R → Log V → Prop) :
    Log V → List (Entry V E C R) → Prop where
  | nil : Run effect [] []
  | step {db db' : Log V} {hist : List (Entry V E C R)} {e : Entry V E C R}
      (h : Run effect db hist) (hbefore : e.before = db) (heff : effect hist e db') :
      Run effect db' (e :: hist)

section States

variable {hist newer older : List (Entry V E C R)} {db db' : Log V} {e : Entry V E C R} {n : ℕ}

lemma stateAt_length : stateAt hist db hist.length = db := by
  simp [stateAt]

lemma stateAt_cons (hn : n ≤ hist.length) (he : e.before = db) :
    stateAt (e :: hist) db' n = stateAt hist db n := by
  unfold stateAt
  rw [List.reverse_cons]
  rcases Nat.lt_or_eq_of_le hn with h | rfl
  · rw [List.getElem?_append_left (by simpa using h)]
    rw [List.getElem?_eq_getElem (by simpa using h)]
    rfl
  · simp [he]

/-- An answer and those before it know the states up to the one it found. -/
lemma stateAt_of_suffix (db : Log V) (h : (e :: older) <:+ hist) (hn : n ≤ older.length) :
    stateAt older e.before n = stateAt hist db n := by
  obtain ⟨newer, rfl⟩ := h
  have hrev : (newer ++ e :: older).reverse = (older.reverse ++ [e]) ++ newer.reverse := by simp
  unfold stateAt
  rw [hrev, List.getElem?_append_left (by simpa using Nat.lt_succ_of_le hn)]
  rcases Nat.lt_or_eq_of_le hn with hlt | rfl
  · rw [List.getElem?_append_left (by simpa using hlt),
      List.getElem?_eq_getElem (by simpa using hlt)]
    rfl
  · simp

end States

variable {n : ℕ}

section Runs

variable {effect : List (Entry V E C R) → Entry V E C R → Log V → Prop}
variable {hist newer older : List (Entry V E C R)} {db : Log V} {e : Entry V E C R}

lemma Run.inv_cons (h : Run effect db (e :: hist)) :
    Run effect e.before hist ∧ effect hist e db := by
  cases h with
  | step h hbefore heff => exact ⟨hbefore ▸ h, heff⟩

/-- What an answer of a run found and left. -/
lemma Run.effect_of_answer (h : Run effect db hist) (he : answer hist n = some e) :
    ∃ older, older.length = n ∧ (e :: older) <:+ hist ∧ e.before = stateAt hist db n ∧
      Run effect e.before older ∧ effect older e (stateAt hist db (n + 1)) := by
  have hn : n < hist.length := by
    have := (List.getElem?_eq_some_iff.1 he).1
    simpa using this
  induction h with
  | nil => simp at hn
  | @step db db' hist e' h hbefore heff ih =>
    unfold answer at he
    rw [List.reverse_cons] at he
    rcases Nat.lt_or_eq_of_le (Nat.le_of_lt_succ hn) with hlt | rfl
    · rw [List.getElem?_append_left (by simpa using hlt)] at he
      obtain ⟨older, hlen, hsuf, hb, hrun, heff'⟩ := ih he hlt
      refine ⟨older, hlen, hsuf.trans (List.suffix_cons _ _), ?_, hrun, ?_⟩
      · rw [hb, stateAt_cons (Nat.le_of_lt hlt) hbefore]
      · rwa [stateAt_cons hlt hbefore]
    · obtain rfl : e' = e := by simpa using he
      refine ⟨hist, rfl, List.suffix_refl _, ?_, hbefore ▸ h, ?_⟩
      · rw [stateAt_cons le_rfl hbefore, stateAt_length, hbefore]
      · have hlast : hist.length + 1 = (e' :: hist).length := rfl
        rw [hlast, stateAt_length]
        exact heff

lemma exists_answer (hn : n < hist.length) : ∃ e, answer hist n = some e :=
  ⟨_, List.getElem?_eq_getElem (by simpa using hn)⟩

lemma answer_lt (h : answer hist n = some e) : n < hist.length := by
  have := (List.getElem?_eq_some_iff.1 h).1
  simpa using this

lemma mem_of_answer (h : answer hist n = some e) : e ∈ hist :=
  List.mem_reverse.1 (List.mem_of_getElem? h)

lemma exists_answer_of_mem (h : e ∈ hist) : ∃ n, answer hist n = some e :=
  List.getElem?_of_mem (List.mem_reverse.2 h)

/-- Every state of a run is the end of a shorter run. -/
lemma Run.at_state (h : Run effect db hist) (hn : n ≤ hist.length) :
    ∃ older, older.length = n ∧ older <:+ hist ∧ Run effect (stateAt hist db n) older := by
  rcases Nat.lt_or_eq_of_le hn with hlt | rfl
  · obtain ⟨e, he⟩ := exists_answer hlt
    obtain ⟨older, hlen, hsuf, hbefore, hrun, -⟩ := h.effect_of_answer he
    exact ⟨older, hlen, (List.suffix_cons e older).trans hsuf, hbefore ▸ hrun⟩
  · exact ⟨hist, rfl, List.suffix_refl _, stateAt_length.symm ▸ h⟩

variable {Q : Log V → Prop}

/-- What holds in one state and no longer in a later one was lost by an answer in between. -/
lemma Run.breaks (h : Run effect db hist) {i j : ℕ} (hij : i ≤ j) (hj : j ≤ hist.length)
    (hi : Q (stateAt hist db i)) (hno : ¬ Q (stateAt hist db j)) :
    ∃ n e, i ≤ n ∧ n < j ∧ answer hist n = some e ∧ Q e.before ∧ ¬ Q (stateAt hist db (n + 1)) := by
  induction j, hij using Nat.le_induction with
  | base => exact absurd hi hno
  | succ j hij ih =>
    by_cases hQ : Q (stateAt hist db j)
    · obtain ⟨e, he⟩ := exists_answer hj
      obtain ⟨-, -, -, hbefore, -⟩ := h.effect_of_answer he
      exact ⟨j, e, hij, Nat.lt_succ_self j, he, hbefore ▸ hQ, hno⟩
    · obtain ⟨n, e, hin, hnj, hrest⟩ := ih (Nat.le_of_lt hj) hQ
      exact ⟨n, e, hin, Nat.lt_succ_of_lt hnj, hrest⟩

/-- What every answer of a run keeps, a later state has from an earlier one. -/
lemma Run.persist (h : Run effect db hist)
    (hkeep : ∀ older e db', (e :: older) <:+ hist → Run effect e.before older → Q e.before →
      effect older e db' → Q db') {i j : ℕ} (hij : i ≤ j) (hj : j ≤ hist.length)
    (hi : Q (stateAt hist db i)) : Q (stateAt hist db j) := by
  by_contra hno
  obtain ⟨n, e, -, -, he, hQ, hlost⟩ := h.breaks hij hj hi hno
  obtain ⟨older, -, hsuf, -, hrun, heff⟩ := h.effect_of_answer he
  exact hlost (hkeep older e _ hsuf hrun hQ heff)

/-- What holds at the end and not at the start was made to hold by an answer, and holds since. -/
lemma Run.last (h : Run effect db hist) (hend : Q db) (hstart : ¬ Q []) :
    ∃ n e, answer hist n = some e ∧ ¬ Q e.before ∧
      ∀ i, n < i → i ≤ hist.length → Q (stateAt hist db i) := by
  induction h with
  | nil => exact absurd hend hstart
  | @step db db' hist e h hbefore heff ih =>
    by_cases hQ : Q db
    · obtain ⟨n, e', he', hno, hsince⟩ := ih hQ
      refine ⟨n, e', ?_, hno, fun i hi hle => ?_⟩
      · unfold answer at he' ⊢
        rw [List.reverse_cons, List.getElem?_append_left (List.getElem?_eq_some_iff.1 he').1]
        exact he'
      · rcases Nat.lt_or_eq_of_le hle with hlt | rfl
        · have hle' : i ≤ hist.length := Nat.le_of_lt_succ hlt
          rw [stateAt_cons hle' hbefore]
          exact hsince i hi hle'
        · rw [stateAt_length]
          exact hend
    · refine ⟨hist.length, e, ?_, hbefore ▸ hQ, fun i hi hle => ?_⟩
      · simp [answer]
      · obtain rfl : i = (e :: hist).length := Nat.le_antisymm hle hi
        rw [stateAt_length]
        exact hend

end Runs

namespace Setting

variable {S : Setting V L E I A C R} {σ σ' : Local V L E C R}

/-- The logs of the past stay what they were. -/
lemma Rely.stateAt (h : S.Rely σ σ') (hn : n ≤ σ.hist.length) :
    ReadCommitted.stateAt σ'.hist σ'.db n = ReadCommitted.stateAt σ.hist σ.db n := by
  cases h with
  | commit u r hinv hdb hhist hown hrow hcompat hinv' | refuse u e hinv hdb hinv' =>
    exact stateAt_cons hn hdb

lemma Rely.hist_length (h : S.Rely σ σ') : σ'.hist.length = σ.hist.length + 1 := by
  cases h <;> rfl

end Setting

end ReadCommitted
