import Proxiima.VectorIndex.Sweep

/-!
# The sweep leaves the index and the heads in agreement

What a repair does is said for one key at a time: a suspect is settled, any other key is left alone.
A page settles the keys between the last page's cutoff and its own, so after the last page every key
is settled. Then only debts keep the index from agreeing with the heads that remain, and paying them
makes the two equal.
-/

namespace Proxiima.VectorIndex

open SortedMap

/-! ### Calls in chunks -/

lemma flatten_toChunks_go {α : Type} (n : ℕ) (xs : List α) (acc₁ : Array α)
    (acc₂ : Array (List α)) :
    (List.toChunks.go n xs acc₁ acc₂).flatten = acc₂.toList.flatten ++ (acc₁.toList ++ xs) := by
  induction xs generalizing acc₁ acc₂ with
  | nil => simp [List.toChunks.go]
  | cons x xs ih =>
    unfold List.toChunks.go
    split <;> simp [ih]

lemma flatten_toChunks {α : Type} (n : ℕ) (xs : List α) : (xs.toChunks n).flatten = xs := by
  cases xs with
  | nil => simp [List.toChunks]
  | cons x xs =>
    cases n with
    | zero => simp [List.toChunks]
    | succ n =>
      rw [List.toChunks, flatten_toChunks_go]
      · simp
      · simp

lemma get?_delete (index : SortedMap Key Head) (keys : List Key) (k : Key) :
    (delete index keys).get? k = if k ∈ keys then none else index.get? k := by
  rw [delete, get?_filter]
  by_cases h : k ∈ keys
  · simp [h]
  · cases index.get? k <;> simp [h, Option.filter]

lemma get?_deleteKeys (index : SortedMap Key Head) (keys : List Key) (k : Key) :
    (deleteKeys index keys).get? k = if k ∈ keys then none else index.get? k := by
  have hfold : ∀ (calls : List (List Key)) (index : SortedMap Key Head),
      (calls.foldl delete index).get? k = if k ∈ calls.flatten then none else index.get? k := by
    intro calls
    induction calls with
    | nil => intro index; simp
    | cons keys calls ih =>
      intro index
      rw [List.foldl_cons, ih, get?_delete]
      by_cases h : k ∈ keys <;> simp [h]
  rw [deleteKeys, hfold, flatten_toChunks]

/-- The entry of a key that is moved to an owner, if it is. -/
def moved (move : Bool) (owner : Uuid) (e : Head) : Head :=
  if move then { e with owner := owner } else e

@[simp] lemma moved_false (owner : Uuid) : moved false owner = id := rfl

lemma moved_moved (p q : Bool) (owner : Uuid) :
    moved q owner ∘ moved p owner = moved (p || q) owner := by
  cases p <;> cases q <;> rfl

lemma get?_setOwner (index : SortedMap Key Head) (keys : List Key) (owner : Uuid) (k : Key) :
    (setOwner index keys owner).get? k = (index.get? k).map (moved (k ∈ keys) owner) := by
  rw [setOwner, get?_adjust]
  congr 1
  funext e
  simp [moved]

lemma get?_setOwners (calls : List (List Key)) (index : SortedMap Key Head) (owner : Uuid)
    (k : Key) :
    (calls.foldl (fun index keys => setOwner index keys owner) index).get? k =
      (index.get? k).map (moved (k ∈ calls.flatten) owner) := by
  induction calls generalizing index with
  | nil => simp
  | cons keys calls ih =>
    rw [List.foldl_cons, ih, get?_setOwner, Option.map_map, moved_moved, List.flatten_cons]
    simp only [List.mem_append, Bool.decide_or]

variable {k c : Key} {owner o : Uuid} {moves : Moves} {heads : SortedMap Key Head}
  {s s' : VectorStore} {after : Option Key} {limit : ℕ}

/-- A key that is listed under one owner at most moves to that owner. -/
lemma get?_moveRows {rows : List (Uuid × List Key)} (h : ∀ p ∈ rows, k ∈ p.2 → p.1 = owner)
    (index : SortedMap Key Head) :
    (rows.foldl (fun index p =>
      (p.2.toChunks keysPerCall).foldl (fun index keys => setOwner index keys p.1) index)
        index).get? k = (index.get? k).map (moved (rows.any fun p => k ∈ p.2) owner) := by
  induction rows generalizing index with
  | nil => simp
  | cons p rows ih =>
    have hmoved : moved (k ∈ p.2) p.1 = moved (k ∈ p.2) owner := by
      by_cases hk : k ∈ p.2
      · rw [h p List.mem_cons_self hk]
      · simp [hk]
    rw [List.foldl_cons, ih fun q hq => h q (List.mem_cons_of_mem p hq), get?_setOwners,
      flatten_toChunks, Option.map_map, hmoved, moved_moved, List.any_cons]

/-- The keys that `moves` lists under an owner. -/
def Moves.keys (moves : Moves) (owner : Uuid) : List Key := (moves.get? owner).getD []

lemma mem_keys_push {key : Key} :
    k ∈ (moves.push owner key).keys o ↔ k ∈ moves.keys o ∨ o = owner ∧ k = key := by
  unfold Moves.keys Moves.push
  rw [get?_insert]
  by_cases h : o = owner
  · subst h
    simp
  · simp [h]

lemma keys_empty (o : Uuid) : Moves.keys .empty o = [] := rfl

lemma mem_rows_iff : (∃ p ∈ moves.rows, p.1 = o ∧ k ∈ p.2) ↔ k ∈ moves.keys o := by
  unfold Moves.keys
  constructor
  · rintro ⟨p, hp, rfl, hk⟩
    rw [(get?_eq_some (v := p.2)).2 hp]
    exact hk
  · intro hk
    cases hget : moves.get? o with
    | none => simp [hget] at hk
    | some keys =>
      rw [hget] at hk
      exact ⟨(o, keys), get?_eq_some.1 hget, rfl, hk⟩

lemma get?_moveKeys (h : ∀ o, k ∈ moves.keys o → o = owner) (index : SortedMap Key Head) :
    (moveKeys index moves).get? k = (index.get? k).map (moved (k ∈ moves.keys owner) owner) := by
  have hrows : ∀ p ∈ moves.rows, k ∈ p.2 → p.1 = owner := fun p hp hk =>
    h p.1 (mem_rows_iff.1 ⟨p, hp, rfl, hk⟩)
  have hany : (moves.rows.any fun p => k ∈ p.2) = decide (k ∈ moves.keys owner) := by
    rw [Bool.eq_iff_iff, List.any_eq_true, decide_eq_true_iff, ← mem_rows_iff]
    constructor
    · rintro ⟨p, hp, hk⟩
      exact ⟨p, hp, hrows p hp (by simpa using hk), by simpa using hk⟩
    · rintro ⟨p, hp, -, hk⟩
      exact ⟨p, hp, by simpa using hk⟩
  rw [moveKeys, get?_moveRows hrows, hany]

/-! ### A repair settles its suspects -/

/-- What a store holds for one key. -/
@[ext] structure Held where
  head : Option Head
  entry : Option Head
  debt : Option Debt

def VectorStore.held (s : VectorStore) (k : Key) : Held :=
  ⟨s.heads.get? k, s.index.get? k, s.debt.get? k⟩

/-- A key as the sweep leaves it: an entry without a head is gone, an entry at its head's version
has the head's owner, and a head without an entry at its version is gone and leaves a debt. -/
def Held.settle (x : Held) : Held :=
  match x.entry, x.head with
  | some _, none => { x with entry := none }
  | some entry, some head =>
    if entry.version = head.version then { x with entry := some head }
    else { x with head := none, debt := some ⟨head.owner, .delete⟩ }
  | none, some head => { x with head := none, debt := some ⟨head.owner, .delete⟩ }
  | none, none => x

lemma Held.settle_of_agree {x : Held} (h : x.entry = x.head) : x.settle = x := by
  obtain ⟨head, entry, debt⟩ := x
  obtain rfl : entry = head := h
  cases entry <;> simp [settle]

lemma get?_heads_deleteHeads (s : VectorStore) (p : Key → Head → Bool) (k : Key) :
    (s.deleteHeads p).heads.get? k = (s.heads.get? k).filter fun head => !p k head :=
  get?_filter _ _ _

lemma get?_debt_deleteHeads (s : VectorStore) (p : Key → Head → Bool) (k : Key) :
    (s.deleteHeads p).debt.get? k =
      (((s.heads.get? k).filter (p k)).map fun head => ⟨head.owner, .delete⟩).or
        (s.debt.get? k) := by
  have h := get?_foldl_insert (fun (_ : Key) (head : Head) (_ : Option Debt) =>
    (⟨head.owner, .delete⟩ : Debt)) (s.heads.filter p).nodup_keys s.debt k
  rw [← get?_filter]
  exact h

/-- What one suspect asks for, when no lock is held and its head is what was read. -/
lemma judge_one {q : Suspect} (hread : heads.get? q.1 = q.2.2) (r : Repairs) (k : Key) :
    (k ∈ (judge (fun _ => false) heads r q).stale ↔ k ∈ r.stale ∨ ∃ e, (k, some e, none) = q) ∧
    (∀ o, k ∈ (judge (fun _ => false) heads r q).moves.keys o ↔
      k ∈ r.moves.keys o ∨ ∃ e h, (k, some e, some h) = q ∧ e.version = h.version ∧ h.owner = o) ∧
    (∀ v, (k, v) ∈ (judge (fun _ => false) heads r q).lost ↔
      (k, v) ∈ r.lost ∨ ∃ e h, (k, e, some h) = q ∧ h.version = v ∧
        ∀ e', e = some e' → e'.version ≠ v) := by
  obtain ⟨key, entry, read⟩ := q
  have hkey : heads.get? key = read := hread
  rcases entry with _ | e <;> rcases read with _ | h
  · simp [judge, hkey]
  · simp [judge, hkey, eq_comm]
  · simp [judge, hkey]
  · by_cases hv : e.version = h.version
    · have hj : judge (fun _ => false) heads r (key, some e, some h) =
          { r with moves := r.moves.push h.owner key } := by simp [judge, hkey, hv]
      rw [hj]
      refine ⟨by simp, fun o => ?_, fun v => ⟨.inl, fun hor => hor.resolve_right ?_⟩⟩
      · rw [mem_keys_push]
        refine or_congr_right ⟨fun hk => ⟨e, h, by rw [hk.2], hv, hk.1.symm⟩, ?_⟩
        rintro ⟨e', h', heq, -, ho⟩
        cases heq
        exact ⟨ho.symm, rfl⟩
      · rintro ⟨e', h', heq, hv', hne⟩
        cases heq
        exact hne e rfl (hv.trans hv')
    · have hj : judge (fun _ => false) heads r (key, some e, some h) =
          { r with lost := r.lost ++ [(key, h.version)] } := by simp [judge, hkey, hv]
      rw [hj]
      refine ⟨by simp, fun o => ⟨.inl, fun hor => hor.resolve_right ?_⟩, fun v => ?_⟩
      · rintro ⟨e', h', heq, hv', -⟩
        cases heq
        exact hv hv'
      · rw [List.mem_append, List.mem_singleton]
        refine or_congr_right ⟨fun heq => ?_, ?_⟩
        · cases heq
          refine ⟨some e, h, rfl, rfl, fun e' he' => ?_⟩
          cases he'
          exact hv
        · rintro ⟨e', h', heq, rfl, -⟩
          cases heq
          rfl

/-- What the suspects ask for. -/
lemma judge_foldl {suspects : List Suspect} (hread : ∀ q ∈ suspects, heads.get? q.1 = q.2.2)
    (r : Repairs) (k : Key) :
    (k ∈ (suspects.foldl (judge (fun _ => false) heads) r).stale ↔
      k ∈ r.stale ∨ ∃ e, (k, some e, none) ∈ suspects) ∧
    (∀ o, k ∈ (suspects.foldl (judge (fun _ => false) heads) r).moves.keys o ↔
      k ∈ r.moves.keys o ∨ ∃ e h, (k, some e, some h) ∈ suspects ∧ e.version = h.version ∧
        h.owner = o) ∧
    (∀ v, (k, v) ∈ (suspects.foldl (judge (fun _ => false) heads) r).lost ↔
      (k, v) ∈ r.lost ∨ ∃ e h, (k, e, some h) ∈ suspects ∧ h.version = v ∧
        ∀ e', e = some e' → e'.version ≠ v) := by
  induction suspects generalizing r with
  | nil => simp
  | cons q suspects ih =>
    obtain ⟨h₁, h₂, h₃⟩ := ih (fun q hq => hread q (List.mem_cons_of_mem _ hq))
      (judge (fun _ => false) heads r q)
    obtain ⟨j₁, j₂, j₃⟩ := judge_one (hread q List.mem_cons_self) r k
    rw [List.foldl_cons]
    refine ⟨?_, fun o => ?_, fun v => ?_⟩
    · rw [h₁, j₁, or_assoc]
      simp only [List.mem_cons, exists_or]
    · rw [h₂, j₂, or_assoc]
      simp only [List.mem_cons, or_and_right, exists_or]
    · rw [h₃, j₃, or_assoc]
      simp only [List.mem_cons, or_and_right, exists_or]

/-- A suspect that is repaired under no contention is settled, and a key that is no suspect keeps
what it holds. -/
lemma held_repair (swept : IndexSweep) {suspects : List Suspect}
    (hread : ∀ q ∈ suspects, q.2 = (s.index.get? q.1, s.heads.get? q.1)) (k : Key) :
    (repair (fun _ => false) s swept suspects).1.held k =
      if k ∈ suspects.map Prod.fst then (s.held k).settle else s.held k := by
  obtain ⟨hstale, hmoves, hlost⟩ := judge_foldl (fun q hq => by rw [hread q hq]) ⟨[], .empty, []⟩ k
  have hmem : ∀ x, (k, x) ∈ suspects ↔
      k ∈ suspects.map Prod.fst ∧ x = (s.index.get? k, s.heads.get? k) := by
    refine fun x => ⟨fun h => ⟨List.mem_map.2 ⟨_, h, rfl⟩, hread _ h⟩, fun ⟨h, hx⟩ => ?_⟩
    obtain ⟨q, hq, rfl⟩ := List.mem_map.1 h
    rw [hx, ← hread q hq]
    exact hq
  simp only [hmem, keys_empty, List.not_mem_nil, false_or, Prod.mk.injEq] at hstale hmoves hlost
  unfold repair VectorStore.held
  simp only
  generalize suspects.foldl (judge (fun _ => false) s.heads) ⟨[], .empty, []⟩ = r at *
  simp only [get?_heads_deleteHeads, get?_debt_deleteHeads]
  change Held.mk _ ((moveKeys (deleteKeys s.index r.stale) r.moves).get? k) _ = _
  -- a key that moves is listed under the owner of its head
  have howner : ∀ o, k ∈ r.moves.keys o → o = ((s.heads.get? k).map Head.owner).getD 0 := by
    intro o ho
    obtain ⟨e, h, ⟨-, -, hh⟩, -, rfl⟩ := (hmoves o).1 ho
    rw [← hh]
    rfl
  rw [get?_moveKeys howner, get?_deleteKeys]
  by_cases hk : k ∈ suspects.map Prod.fst
  · rw [if_pos hk]
    simp only [hk, true_and] at hstale hmoves hlost
    cases he : s.index.get? k with
    | none =>
      cases hh : s.heads.get? k with
      | none => simp [Held.settle]
      | some h => simp [Held.settle, hlost, he, hh]
    | some e =>
      cases hh : s.heads.get? k with
      | none => simp [Held.settle, hstale, he, hh]
      | some h =>
        by_cases hv : e.version = h.version
        · simp [Held.settle, hlost, hstale, hmoves, he, hh, hv, moved]
        · simp [Held.settle, hlost, hstale, hmoves, he, hh, hv]
  · rw [if_neg hk]
    simp only [hk, false_and, exists_false, iff_false] at hstale hmoves hlost
    cases hh : s.heads.get? k <;> simp [hstale, hmoves, hlost]

/-- A repair in several transactions does the same. -/
lemma held_repairs {calls : List (List Suspect)} (swept : IndexSweep)
    (hnodup : (calls.flatten.map Prod.fst).Nodup)
    (hread : ∀ q ∈ calls.flatten, q.2 = (s.index.get? q.1, s.heads.get? q.1)) (k : Key) :
    (calls.foldl (fun p suspects => repair (fun _ => false) p.1 p.2 suspects) (s, swept)).1.held k =
      if k ∈ calls.flatten.map Prod.fst then (s.held k).settle else s.held k := by
  induction calls generalizing s swept with
  | nil => simp
  | cons suspects calls ih =>
    rw [List.flatten_cons, List.map_append] at hnodup ⊢
    obtain ⟨-, hrest, hdisj⟩ := List.nodup_append.1 hnodup
    have hfirst := held_repair swept
      (fun q hq => hread q (List.mem_append_left _ hq) : ∀ q ∈ suspects, _)
    -- the later suspects are other keys, so what was read of them still stands
    have hread' : ∀ q ∈ calls.flatten,
        q.2 = ((repair (fun _ => false) s swept suspects).1.index.get? q.1,
          (repair (fun _ => false) s swept suspects).1.heads.get? q.1) := by
      intro q hq
      have hother : q.1 ∉ suspects.map Prod.fst := fun h =>
        hdisj _ h _ (List.mem_map_of_mem hq) rfl
      have hheld := hfirst q.1
      rw [if_neg hother] at hheld
      have hentry : (repair (fun _ => false) s swept suspects).1.index.get? q.1 =
          s.index.get? q.1 := congrArg Held.entry hheld
      have hhead : (repair (fun _ => false) s swept suspects).1.heads.get? q.1 =
          s.heads.get? q.1 := congrArg Held.head hheld
      rw [hentry, hhead]
      exact hread q (List.mem_append_right _ hq)
    rw [List.foldl_cons, ih _ hrest hread', hfirst]
    by_cases h₁ : k ∈ suspects.map Prod.fst
    · have h₂ : k ∉ calls.flatten.map Prod.fst := fun h => hdisj k h₁ k h rfl
      rw [if_neg h₂, if_pos h₁, if_pos (List.mem_append_left _ h₁)]
    · rw [if_neg h₁]
      by_cases h₂ : k ∈ calls.flatten.map Prod.fst
      · rw [if_pos h₂, if_pos (List.mem_append_right _ h₂)]
      · rw [if_neg h₂, if_neg fun h => (List.mem_append.1 h).elim h₁ h₂]

/-! ### A page is settled -/

/-- What the comparison has seen for a key. -/
lemma get?_seen (entries heads : SortedMap Key Head) (k : Key) :
    (heads.rows.foldl
      (fun seen r => seen.insert r.1 (((seen.get? r.1).getD (none, none)).1, some r.2))
      (entries.rows.foldl
        (fun seen r => seen.insert r.1 (some r.2, ((seen.get? r.1).getD (none, none)).2))
        (.empty : SortedMap Key (Option Head × Option Head)))).get? k =
      if entries.get? k = none ∧ heads.get? k = none then none
      else some (entries.get? k, heads.get? k) := by
  have hentries := get?_foldl_insert
    (fun (_ : Key) (e : Head) (held : Option (Option Head × Option Head)) =>
      (some e, (held.getD (none, none)).2)) entries.nodup_keys .empty k
  have hheads := get?_foldl_insert
    (fun (_ : Key) (h : Head) (held : Option (Option Head × Option Head)) =>
      ((held.getD (none, none)).1, some h)) heads.nodup_keys
  rw [hheads, hentries]
  change ((heads.get? k).map _).or (((entries.get? k).map _).or _) = _
  change ((heads.get? k).map fun h => (((((entries.get? k).map _).or _).getD (none, none)).1,
    some h)).or (((entries.get? k).map _).or _) = _
  cases entries.get? k <;> cases heads.get? k <;> rfl

variable {entries : SortedMap Key Head} {rows : List (Key × Debt)}

lemma mem_disagreements {q : Suspect} :
    q ∈ (disagreements entries heads).rows ↔
      q.2 = (entries.get? q.1, heads.get? q.1) ∧ entries.get? q.1 ≠ heads.get? q.1 := by
  obtain ⟨k, held⟩ := q
  rw [← get?_eq_some, disagreements, get?_filter, get?_seen, Option.filter_eq_some_iff]
  constructor
  · rintro ⟨hseen, hne⟩
    split at hseen
    · cases hseen
    · obtain rfl := Option.some.inj hseen
      exact ⟨rfl, by simpa using hne⟩
  · rintro ⟨hheld, hne⟩
    obtain rfl : held = (entries.get? k, heads.get? k) := hheld
    have hsome : ¬ (entries.get? k = none ∧ heads.get? k = none) := fun h =>
      hne (h.1.trans h.2.symm)
    exact ⟨if_neg hsome, by simpa using hne⟩

/-- The keys a page compares: those after the last cutoff and up to its own. -/
def Compared (after last : Option Key) (k : Key) : Prop := After after k ∧ within last k = true

instance (after last : Option Key) (k : Key) : Decidable (Compared after last k) :=
  inferInstanceAs (Decidable (_ ∧ _))

/-- Both pages reach as far as the cutoff. -/
lemma le_lastKey (h : within (cutoff entries heads) k = true) :
    (∀ c ∈ lastKey sweepPage entries, k ≤ c) ∧ ∀ c ∈ lastKey sweepPage heads, k ≤ c := by
  unfold cutoff at h
  cases he : lastKey sweepPage entries with
  | none =>
    cases hh : lastKey sweepPage heads with
    | none => simp
    | some b => simpa [he, hh, within] using h
  | some a =>
    cases hh : lastKey sweepPage heads with
    | none | some => simpa [he, hh, within] using h

lemma get?_window {m : SortedMap Key Head} {last : Option Key}
    (hlast : within last k = true → ∀ c ∈ lastKey sweepPage (m.page after sweepPage), k ≤ c) :
    ((m.page after sweepPage).filter fun key _ => within last key).get? k =
      if Compared after last k then m.get? k else none := by
  rw [get?_filter]
  by_cases h : Compared after last k
  · rw [if_pos h, get?_page h.1 (by decide) (hlast h.2)]
    cases m.get? k <;> simp [Option.filter, h.2]
  · rw [if_neg h, Option.eq_none_iff_forall_ne_some]
    intro v hv
    obtain ⟨hget, hwithin⟩ := Option.filter_eq_some_iff.1 hv
    exact h ⟨(get?_of_get?_page hget).2, by simpa using hwithin⟩

/-- How far the pages after a key reach together. -/
def reached (s : VectorStore) (after : Option Key) : Option Key :=
  cutoff (s.index.page after sweepPage) (s.heads.page after sweepPage)

/-- The suspects of the pages after a key. -/
def suspects (s : VectorStore) (after : Option Key) : List Suspect :=
  (disagreements
    ((s.index.page after sweepPage).filter fun key _ => within (reached s after) key)
    ((s.heads.page after sweepPage).filter fun key _ => within (reached s after) key)).rows

/-- The store after the suspects are repaired. -/
def repaired (s : VectorStore) (swept : IndexSweep) (after : Option Key) :
    VectorStore × IndexSweep :=
  ((suspects s after).toChunks repairsPerTransaction).foldl
    (fun p suspects => repair (fun _ => false) p.1 p.2 suspects) (s, swept)

lemma sweepIndex_succ (fuel : ℕ) (after : Option Key) (s : VectorStore) (swept : IndexSweep) :
    sweepIndex (fun _ => false) (fuel + 1) after s swept =
      match reached s after with
      | some cutoff => sweepIndex (fun _ => false) fuel (some cutoff) (repaired s swept after).1
          (repaired s swept after).2
      | none => some (repaired s swept after) := rfl

/-- **A page settles the keys it compares**, and no other. -/
lemma held_repaired (s : VectorStore) (swept : IndexSweep) (after : Option Key) (k : Key) :
    (repaired s swept after).1.held k =
      if Compared after (reached s after) k then (s.held k).settle else s.held k := by
  have hentry : ∀ k, ((s.index.page after sweepPage).filter fun key _ =>
      within (reached s after) key).get? k =
        if Compared after (reached s after) k then s.index.get? k else none := fun k =>
    get?_window fun h => (le_lastKey h).1
  have hhead : ∀ k, ((s.heads.page after sweepPage).filter fun key _ =>
      within (reached s after) key).get? k =
        if Compared after (reached s after) k then s.heads.get? k else none := fun k =>
    get?_window fun h => (le_lastKey h).2
  have hmem : ∀ q, q ∈ suspects s after ↔ Compared after (reached s after) q.1 ∧
      q.2 = (s.index.get? q.1, s.heads.get? q.1) ∧ s.index.get? q.1 ≠ s.heads.get? q.1 := by
    intro q
    rw [suspects, mem_disagreements, hentry, hhead]
    by_cases h : Compared after (reached s after) q.1
    · simp [h]
    · simp [h]
  have hread : ∀ q ∈ ((suspects s after).toChunks repairsPerTransaction).flatten,
      q.2 = (s.index.get? q.1, s.heads.get? q.1) := by
    intro q hq
    rw [flatten_toChunks] at hq
    exact ((hmem q).1 hq).2.1
  have hnodup :
    (((suspects s after).toChunks repairsPerTransaction).flatten.map Prod.fst).Nodup := by
    rw [flatten_toChunks]
    exact nodup_keys _
  rw [repaired, held_repairs swept hnodup hread, flatten_toChunks]
  by_cases hc : Compared after (reached s after) k
  · rw [if_pos hc]
    by_cases hagree : s.index.get? k = s.heads.get? k
    · -- no suspect, but there is nothing to settle
      rw [Held.settle_of_agree (x := s.held k) hagree, ite_self]
    · refine if_pos (List.mem_map.2 ⟨(k, s.index.get? k, s.heads.get? k), ?_, rfl⟩)
      exact (hmem _).2 ⟨hc, rfl, hagree⟩
  · rw [if_neg hc, if_neg]
    rintro hk
    obtain ⟨q, hq, rfl⟩ := List.mem_map.1 hk
    exact hc ((hmem q).1 hq).1

/-! ### The sweep settles every key -/

/-- A store on its way from `s₀`: the keys up to the last cutoff are settled. -/
def Swept (s₀ : VectorStore) (after : Option Key) (s : VectorStore) : Prop :=
  ∀ k, s.held k = if After after k then s₀.held k else (s₀.held k).settle

/-- The rows that the pages have not reached. -/
def unread (s₀ : VectorStore) (after : Option Key) : ℕ :=
  (s₀.heads.rows.countP fun r => After after r.1) + s₀.index.rows.countP fun r => After after r.1

/-- The cutoff is a key of one of the pages. -/
lemma reached_mem (h : reached s after = some c) :
    After after c ∧ ((∃ v, s.heads.get? c = some v) ∨ ∃ v, s.index.get? c = some v) := by
  have hpage : ∀ {m : SortedMap Key Head}, lastKey sweepPage (m.page after sweepPage) = some c →
      After after c ∧ ∃ v, m.get? c = some v := by
    intro m hlast
    obtain ⟨v, hv⟩ := get?_of_lastKey hlast
    obtain ⟨hget, hafter⟩ := get?_of_get?_page hv
    exact ⟨hafter, v, hget⟩
  unfold reached cutoff at h
  split at h
  · rename_i a b ha hb
    rcases min_choice a b with hmin | hmin
    · rw [hmin] at h
      obtain ⟨hafter, hv⟩ := hpage (ha.trans h)
      exact ⟨hafter, .inr hv⟩
    · rw [hmin] at h
      obtain ⟨hafter, hv⟩ := hpage (hb.trans h)
      exact ⟨hafter, .inl hv⟩
  · rename_i a ha _
    obtain ⟨hafter, hv⟩ := hpage (ha.trans h)
    exact ⟨hafter, .inr hv⟩
  · obtain ⟨hafter, hv⟩ := hpage h
    exact ⟨hafter, .inl hv⟩

lemma countP_after_le (hc : After after c) (rows : List (Key × Head)) :
    (rows.countP fun r => After (some c) r.1) ≤ rows.countP fun r => After after r.1 :=
  List.countP_mono_left fun r _ hr => by
    simpa using hc.trans (by simpa using hr)

lemma countP_after_lt (hc : After after c) {rows : List (Key × Head)} {v : Head}
    (hv : (c, v) ∈ rows) :
    (rows.countP fun r => After (some c) r.1) < rows.countP fun r => After after r.1 := by
  obtain ⟨rows₁, rows₂, rfl⟩ := List.append_of_mem hv
  have hself : ¬ After (some c) c := fun h => lt_irrefl c (h c rfl)
  have h₁ := countP_after_le hc rows₁
  have h₂ := countP_after_le hc rows₂
  simp only [List.countP_append, List.countP_cons, hself, hc, decide_true, decide_false, if_true,
    Bool.false_eq_true, if_false]
  omega

lemma unread_lt {s₀ : VectorStore} (hs : Swept s₀ after s) (h : reached s after = some c) :
    unread s₀ (some c) < unread s₀ after := by
  obtain ⟨hc, hmem⟩ := reached_mem h
  have hheld := hs c
  rw [if_pos hc] at hheld
  have hhead : s.heads.get? c = s₀.heads.get? c := congrArg Held.head hheld
  have hentry : s.index.get? c = s₀.index.get? c := congrArg Held.entry hheld
  unfold unread
  rcases hmem with ⟨v, hv⟩ | ⟨v, hv⟩
  · rw [hhead] at hv
    exact Nat.add_lt_add_of_lt_of_le (countP_after_lt hc (get?_eq_some.1 hv)) (countP_after_le hc _)
  · rw [hentry] at hv
    exact Nat.add_lt_add_of_le_of_lt (countP_after_le hc _) (countP_after_lt hc (get?_eq_some.1 hv))

/-- **The sweep ends, with every key settled.** -/
lemma sweepIndex_settles {s₀ : VectorStore} (hs : Swept s₀ after s) {fuel : ℕ}
    (hfuel : unread s₀ after < fuel) (swept : IndexSweep) :
    ∃ s' swept', sweepIndex (fun _ => false) fuel after s swept = some (s', swept') ∧
      ∀ k, s'.held k = (s₀.held k).settle := by
  induction fuel generalizing s after swept with
  | zero => exact absurd hfuel (Nat.not_lt_zero _)
  | succ fuel ih =>
    rw [sweepIndex_succ]
    cases hreached : reached s after with
    | none =>
      refine ⟨(repaired s swept after).1, (repaired s swept after).2, rfl, fun k => ?_⟩
      rw [held_repaired, hs k, hreached]
      by_cases hafter : After after k
      · rw [if_pos ⟨hafter, rfl⟩, if_pos hafter]
      · rw [if_neg fun h : Compared after none k => hafter h.1, if_neg hafter]
    | some c =>
      have hc := (reached_mem hreached).1
      refine ih (fun k => ?_)
        (Nat.lt_of_lt_of_le (unread_lt hs hreached) (Nat.le_of_lt_succ hfuel)) _
      rw [held_repaired, hs k, hreached]
      by_cases hbeyond : After (some c) k
      · -- beyond the cutoff nothing is compared
        have hnot : ¬ Compared after (some c) k := fun h =>
          absurd (hbeyond c rfl) (not_lt_of_ge (by simpa [within] using h.2))
        rw [if_neg hnot, if_pos (hc.trans hbeyond), if_pos hbeyond]
      · have hle : within (some c) k = true := by
          simpa [within, After] using hbeyond
        rw [if_neg hbeyond]
        by_cases hafter : After after k
        · rw [if_pos ⟨hafter, hle⟩, if_pos hafter]
        · rw [if_neg fun h : Compared after (some c) k => hafter h.1, if_neg hafter]

/-! ### Paying the debt -/

lemma mem_keys_pushes :
    k ∈ (rows.foldl (fun moves r => Moves.push moves r.2.owner r.1) moves).keys o ↔
      k ∈ moves.keys o ∨ ∃ r ∈ rows, o = r.2.owner ∧ k = r.1 := by
  induction rows generalizing moves with
  | nil => simp
  | cons r rows ih =>
    rw [List.foldl_cons, ih, mem_keys_push, or_assoc]
    simp only [List.mem_cons, exists_eq_or_imp]

/-- What the index holds for a key after a debt of it is paid. -/
def Debt.pay (d : Debt) (entry : Option Head) : Option Head :=
  match d.op with
  | .delete => none
  | .owner => entry.map fun e => { e with owner := d.owner }

/-- Each row is its key's own, so any order pays the same. -/
lemma get?_apply {d : Option Debt} (hd : ∀ x, (k, x) ∈ rows ↔ d = some x)
    (index : SortedMap Key Head) :
    (apply index rows).get? k =
      (d.map fun d => d.pay (index.get? k)).getD (index.get? k) := by
  have hdelete : k ∈ (rows.filter fun r => r.2.op = .delete).map Prod.fst ↔
      ∃ x, d = some x ∧ x.op = .delete := by
    simp only [← hd, List.mem_map, List.mem_filter, decide_eq_true_eq]
    constructor
    · rintro ⟨⟨k', x⟩, ⟨hmem, hop⟩, rfl⟩
      exact ⟨x, hmem, hop⟩
    · rintro ⟨x, hmem, hop⟩
      exact ⟨(k, x), ⟨hmem, hop⟩, rfl⟩
  have hmove : ∀ o, k ∈ ((rows.filter fun r => r.2.op = .owner).foldl
      (fun moves r => Moves.push moves r.2.owner r.1) .empty).keys o ↔
        ∃ x, d = some x ∧ x.op = .owner ∧ x.owner = o := by
    intro o
    rw [mem_keys_pushes, keys_empty]
    simp only [← hd, List.mem_filter, decide_eq_true_eq, List.not_mem_nil, false_or]
    constructor
    · rintro ⟨⟨k', x⟩, ⟨hmem, hop⟩, rfl, rfl⟩
      exact ⟨x, hmem, hop, rfl⟩
    · rintro ⟨x, hmem, hop, rfl⟩
      exact ⟨(k, x), ⟨hmem, hop⟩, rfl, rfl⟩
  have howner : ∀ o, k ∈ ((rows.filter fun r => r.2.op = .owner).foldl
      (fun moves r => Moves.push moves r.2.owner r.1) .empty).keys o →
        o = (d.map Debt.owner).getD 0 := by
    intro o ho
    obtain ⟨x, rfl, -, rfl⟩ := (hmove o).1 ho
    rfl
  rw [apply, get?_moveKeys howner, get?_deleteKeys]
  simp only [hdelete, hmove]
  cases d with
  | none => simp
  | some d => cases hop : d.op <;> cases index.get? k <;> simp [hop, Debt.pay, moved]

/-- What a debt says of the heads: the head that is deleted is gone, the one that moved has its
owner. -/
def Debt.Owed (d : Debt) (head : Option Head) : Prop :=
  match d.op with
  | .delete => head = none
  | .owner => ∃ v, head = some ⟨d.owner, v⟩

/-- Every debt is of its key's newest change. -/
def VectorStore.Owed (s : VectorStore) : Prop :=
  ∀ k d, s.debt.get? k = some d → d.Owed (s.heads.get? k)

/-- The changes of heads: they are deleted, moved, written anew; and debt is paid. -/
inductive Change : VectorStore → VectorStore → Prop where
  | deleteHeads (s : VectorStore) (p : Key → Head → Bool) : Change s (s.deleteHeads p)
  | moveHead (s : VectorStore) (key : Key) (owner : Uuid) : Change s (s.moveHead key owner)
  | insertEmbeddingHead (s : VectorStore) (key : Key) (owner : Uuid) :
      Change s (s.insertEmbeddingHead key owner)
  | drainDebt (s : VectorStore) (rows : List (Key × Debt)) : Change s (s.drainDebt rows)

/-- Whatever changes the heads keeps the debt to the newest change of each key. -/
lemma Change.owed (h : Change s s') (hs : s.Owed) : s'.Owed := by
  intro k d hd
  cases h with
  | deleteHeads p =>
    rw [get?_debt_deleteHeads] at hd
    rw [get?_heads_deleteHeads]
    cases hh : s.heads.get? k with
    | none =>
      rw [hh] at hd
      have := hs k d hd
      rw [hh] at this
      exact this
    | some h =>
      by_cases hp : p k h
      · have hd' : some (⟨h.owner, .delete⟩ : Debt) = some d := by simpa [hh, hp] using hd
        obtain rfl := Option.some.inj hd'
        simp [Debt.Owed, hp]
      · have hd' : s.debt.get? k = some d := by simpa [hh, hp] using hd
        have := hs k d hd'
        rw [hh] at this
        rw [show (some h).filter (fun head => !p k head) = some h by simp [Option.filter, hp]]
        exact this
  | moveHead key owner =>
    unfold VectorStore.moveHead at hd ⊢
    cases hh : s.heads.get? key with
    | none =>
      rw [hh] at hd
      exact hs k d hd
    | some h =>
      rw [hh] at hd
      simp only at hd ⊢
      rw [get?_insert]
      by_cases hk : k = key
      · subst hk
        rw [if_pos rfl]
        by_cases ho : h.owner = owner
        · rw [if_pos ho] at hd
          subst ho
          exact hh ▸ hs k d hd
        · rw [if_neg ho, get?_insert, if_pos rfl] at hd
          obtain rfl := Option.some.inj hd
          exact ⟨h.version, rfl⟩
      · rw [if_neg hk]
        by_cases ho : h.owner = owner
        · rw [if_pos ho] at hd
          exact hs k d hd
        · rw [if_neg ho, get?_insert, if_neg hk] at hd
          exact hs k d hd
  | insertEmbeddingHead key owner =>
    have hd' : (s.debt.get? k).filter (fun _ => decide (k ≠ key)) = some d :=
      (get?_filter _ _ k).symm.trans hd
    obtain ⟨hd', hk⟩ := Option.filter_eq_some_iff.1 hd'
    change d.Owed ((s.heads.insert key _).get? k)
    rw [get?_insert, if_neg (by simpa using hk)]
    exact hs k d hd'
  | drainDebt rows =>
    exact hs k d (Option.filter_eq_some_iff.1 ((get?_filter _ _ k).symm.trans hd)).1

/-- Where the index and a head disagree, the index is still owed a delete. -/
structure VectorStore.Settled (s : VectorStore) : Prop where
  owed : s.Owed
  agree : ∀ k, s.index.get? k = s.heads.get? k ∨ ∃ d, s.debt.get? k = some d ∧ d.op = .delete

/-- Up to `limit` rows of debt are paid, whichever they are. -/
def Drain (limit : ℕ) (s s' : VectorStore) : Prop :=
  ∃ rows : List (Key × Debt), rows.Nodup ∧ rows ⊆ s.debt.rows ∧
    rows.length = min limit s.debt.rows.length ∧ s' = s.drainDebt rows

lemma settled_of_settle (howed : s.Owed) (h : ∀ k, s'.held k = (s.held k).settle) : s'.Settled := by
  have hcase : ∀ k, (∀ d, s'.debt.get? k = some d → d.Owed (s'.heads.get? k)) ∧
      (s'.index.get? k = s'.heads.get? k ∨ ∃ d, s'.debt.get? k = some d ∧ d.op = .delete) := by
    intro k
    have hk := h k
    have ho := howed k
    have hhead : s'.heads.get? k = (s.held k).settle.head := congrArg Held.head hk
    have hentry : s'.index.get? k = (s.held k).settle.entry := congrArg Held.entry hk
    have hdebt : s'.debt.get? k = (s.held k).settle.debt := congrArg Held.debt hk
    rw [hhead, hentry, hdebt]
    unfold Held.settle VectorStore.held
    cases he : s.index.get? k with
    | none =>
      cases hh : s.heads.get? k with
      | none =>
        rw [hh] at ho
        exact ⟨ho, .inl rfl⟩
      | some head => exact ⟨fun d hd => by cases hd; rfl, .inr ⟨_, rfl, rfl⟩⟩
    | some entry =>
      cases hh : s.heads.get? k with
      | none =>
        rw [hh] at ho
        exact ⟨ho, .inl rfl⟩
      | some head =>
        by_cases hv : entry.version = head.version
        · rw [hh] at ho
          simp only [if_pos hv]
          exact ⟨ho, .inl trivial⟩
        · simp only [if_neg hv]
          exact ⟨fun d hd => by cases hd; rfl, .inr ⟨_, rfl, rfl⟩⟩
  exact ⟨fun k => (hcase k).1, fun k => (hcase k).2⟩

lemma Drain.keeps (hs : s.Settled) (h : Drain limit s s') : s'.Settled ∧ s'.heads = s.heads := by
  obtain ⟨rows, -, hsub, -, rfl⟩ := h
  refine ⟨⟨(Change.drainDebt s rows).owed hs.owed, fun k => ?_⟩, rfl⟩
  · -- the debt of the key that is paid, if any
    have hpaid : ∀ x, (k, x) ∈ rows ↔
        (s.debt.get? k).filter (fun x => (k, x) ∈ rows) = some x := by
      intro x
      rw [Option.filter_eq_some_iff, get?_eq_some]
      exact ⟨fun hx => ⟨hsub hx, by simpa using hx⟩, fun hx => by simpa using hx.2⟩
    have hindex : (s.drainDebt rows).index.get? k = _ := get?_apply hpaid s.index
    have hdebt : (s.drainDebt rows).debt.get? k = _ := get?_filter _ _ k
    rw [hindex, hdebt]
    change _ = s.heads.get? k ∨ _
    cases hd : s.debt.get? k with
    | none =>
      rcases hs.agree k with hagree | ⟨d, hd', -⟩
      · exact .inl hagree
      · exact absurd (hd.symm.trans hd') (by simp)
    | some d =>
      have howed := hs.owed k d hd
      by_cases hmem : (k, d) ∈ rows
      · refine .inl ?_
        simp only [Option.filter, hmem, decide_true, if_true, Option.map_some, Option.getD_some]
        unfold Debt.Owed at howed
        unfold Debt.pay
        cases hop : d.op with
        | delete =>
          simp only [hop] at howed
          exact howed.symm
        | owner =>
          simp only [hop] at howed
          obtain ⟨v, hv⟩ := howed
          rcases hs.agree k with hagree | ⟨d', hd', hop'⟩
          · rw [hagree, hv]
            rfl
          · obtain rfl := Option.mem_unique hd hd'
            exact absurd (hop.symm.trans hop') (by decide)
      · simp only [Option.filter, hmem, decide_false]
        rcases hs.agree k with hagree | ⟨d', hd', hop'⟩
        · exact .inl hagree
        · obtain rfl := Option.mem_unique hd hd'
          exact .inr ⟨d, rfl, hop'⟩

lemma VectorStore.Settled.index_eq (hs : s.Settled) (hdebt : s.debt = .empty) :
    s.index = s.heads := by
  refine ext_get? fun k => (hs.agree k).resolve_right ?_
  rintro ⟨d, hd, -⟩
  rw [hdebt] at hd
  cases hd

/-- An entry that agrees with its head is never owed a delete. -/
lemma VectorStore.Settled.index_of_head (hs : s.Settled) {h : Head} (hh : s.heads.get? k = some h) :
    s.index.get? k = some h := by
  rcases hs.agree k with hagree | ⟨d, hd, hop⟩
  · rw [hagree, hh]
  · have := hs.owed k d hd
    simp only [Debt.Owed, hop, hh, reduceCtorEq] at this

/-- The rows of debt run out. -/
lemma exists_drained (hlimit : 0 < limit) (s : VectorStore) :
    ∃ s', Relation.ReflTransGen (Drain limit) s s' ∧ s'.debt = .empty := by
  induction hn : s.debt.rows.length using Nat.strong_induction_on generalizing s with
  | _ n ih =>
    subst hn
    by_cases hempty : s.debt.rows = []
    · exact ⟨s, .refl, SortedMap.ext hempty⟩
    have hstep : Drain limit s (s.drainDebt (s.debt.rows.take limit)) :=
      ⟨_, (s.debt.nodup_keys.of_map).sublist (List.take_sublist _ _), List.take_subset _ _,
        List.length_take, rfl⟩
    have hless : (s.drainDebt (s.debt.rows.take limit)).debt.rows.length < s.debt.rows.length := by
      obtain ⟨r, rest, hrows⟩ := List.exists_cons_of_ne_nil hempty
      refine List.length_filter_lt_length_iff_exists.2 ⟨r, by simp [hrows], ?_⟩
      obtain ⟨n, rfl⟩ := Nat.exists_eq_succ_of_ne_zero hlimit.ne'
      simp [hrows]
    obtain ⟨s', hrun, hs'⟩ := ih _ hless _ rfl
    exact ⟨s', .head hstep hrun, hs'⟩

lemma Drain.keeps_run (hs : s.Settled) (h : Relation.ReflTransGen (Drain limit) s s') :
    s'.Settled ∧ s'.heads = s.heads := by
  induction h with
  | refl => exact ⟨hs, rfl⟩
  | tail _ hstep ih =>
    obtain ⟨hs', hheads⟩ := hstep.keeps ih.1
    exact ⟨hs', hheads.trans ih.2⟩

/-- The heads that remain are those whose version the index held. -/
lemma head_settle_iff {x : Held} {h : Head} :
    x.settle.head = some h ↔
      x.head = some h ∧ ∃ e, x.entry = some e ∧ e.version = h.version := by
  obtain ⟨head, entry, debt⟩ := x
  cases entry with
  | none => cases head <;> simp [Held.settle]
  | some e =>
    cases head with
    | none => simp [Held.settle]
    | some h₀ =>
      by_cases hv : e.version = h₀.version
      · simp only [Held.settle, hv, if_true, Option.some.injEq, exists_eq_left']
        exact ⟨fun heq => ⟨heq, by rw [heq]⟩, fun heq => heq.1⟩
      · simp only [Held.settle, hv, if_false, reduceCtorEq, Option.some.injEq, exists_eq_left',
          false_iff, not_and]
        rintro rfl
        exact hv

/-- What a sweep leaves of a store: the heads whose version the index held, with their entries,
and once the debt is drained, in whatever portions, an index of these heads and nothing else. -/
structure Agrees (s s' : VectorStore) : Prop where
  heads : ∀ k h, s'.heads.get? k = some h ↔ s.heads.get? k = some h ∧
    ∃ e, s.index.get? k = some e ∧ e.version = h.version
  drained : ∀ limit, 0 < limit →
    (∃ s'', Relation.ReflTransGen (Drain limit) s' s'' ∧ s''.debt = .empty) ∧
    ∀ s'', Relation.ReflTransGen (Drain limit) s' s'' → s''.heads = s'.heads ∧
      (∀ k h, s'.heads.get? k = some h → s''.index.get? k = some h) ∧
      (s''.debt = .empty → s''.index = s'.heads)

/-- **The sweep makes the index agree with the heads.** With no concurrent change it ends, and
the index agrees. -/
theorem sweepIndex_agrees {s : VectorStore} (howed : s.Owed) {fuel : ℕ}
    (hfuel : s.heads.rows.length + s.index.rows.length < fuel) :
    ∃ s' swept, sweepIndex (fun _ => false) fuel none s {} = some (s', swept) ∧ Agrees s s' := by
  have hafter : ∀ k : Key, After none k := fun k a ha => by cases ha
  have hstart : Swept s none s := fun k => by rw [if_pos (hafter k)]
  have hunread : unread s none < fuel := by
    refine Nat.lt_of_le_of_lt (Nat.add_le_add ?_ ?_) hfuel <;> exact List.countP_le_length
  obtain ⟨s', swept, hrun, hsettled⟩ := sweepIndex_settles hstart hunread {}
  have hs' := settled_of_settle howed hsettled
  refine ⟨s', swept, hrun, fun k h => ?_, fun limit hlimit => ⟨exists_drained hlimit s', ?_⟩⟩
  · rw [show s'.heads.get? k = (s.held k).settle.head from congrArg Held.head (hsettled k),
      head_settle_iff]
    rfl
  · intro s'' hdrain
    obtain ⟨hs'', hheads⟩ := Drain.keeps_run hs' hdrain
    refine ⟨hheads, fun k h hh => hs''.index_of_head (by rw [hheads, hh]), fun hdebt => ?_⟩
    rw [hs''.index_eq hdebt, hheads]

/-- The entity 1 in one space. -/
def oneKey (entity : Uuid) : Key := toLex (entity, toLex ([], .d384))

/-- Two heads; the index holds the first under another owner, lost the second, and kept an entry
of a third that has no head. -/
def driftedStore : VectorStore where
  heads := (SortedMap.empty.insert (oneKey 1) ⟨7, 1⟩).insert (oneKey 2) ⟨7, 3⟩
  index := (SortedMap.empty.insert (oneKey 1) ⟨8, 1⟩).insert (oneKey 3) ⟨7, 1⟩
  debt := .empty

theorem sweepIndex_agrees_drifted :
    ∃ s' swept, sweepIndex (fun _ => false) 5 none driftedStore {} = some (s', swept) ∧
      Agrees driftedStore s' :=
  sweepIndex_agrees (fun k d hd => absurd hd (by simp [driftedStore])) (by decide +kernel)

example : (sweepIndex (fun _ => false) 5 none driftedStore {}).map (fun p =>
    (p.1.heads.get? (oneKey 1), p.1.heads.get? (oneKey 2), p.1.index.get? (oneKey 1), p.2)) =
      some (some ⟨7, 1⟩, none, some ⟨7, 1⟩, ⟨1, 1⟩) := by decide +kernel

end Proxiima.VectorIndex
