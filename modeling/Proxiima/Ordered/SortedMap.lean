import Mathlib.Data.List.Sort

/-!
# Maps in key order

A finite map is the list of its rows, in strictly increasing order of their keys. It is read by key
and by page: a page holds the first rows after a key. What a page leaves out lies beyond its last
row, and a page that is not full leaves nothing out.
-/

/-- A finite map as its rows in key order. -/
@[ext] structure SortedMap (K V : Type) [LinearOrder K] where
  rows : List (K × V)
  sorted : rows.Pairwise fun a b => a.1 < b.1
  deriving DecidableEq

namespace SortedMap

variable {K V : Type} [LinearOrder K] {m m' : SortedMap K V} {k k' : K} {v v' : V}

def empty : SortedMap K V := ⟨[], .nil⟩

def get? (m : SortedMap K V) (k : K) : Option V := m.rows.lookup k

lemma nodup_keys (m : SortedMap K V) : (m.rows.map Prod.fst).Nodup :=
  List.pairwise_map.2 (m.sorted.imp ne_of_lt)

variable {rows : List (K × V)}

lemma lookup_eq_some (hnodup : (rows.map Prod.fst).Nodup) :
    rows.lookup k = some v ↔ (k, v) ∈ rows := by
  induction rows with
  | nil => simp
  | cons r rows ih =>
    obtain ⟨k₁, v₁⟩ := r
    obtain ⟨hfresh, hrest⟩ := List.nodup_cons.1 hnodup
    rw [List.lookup_cons, List.mem_cons, Prod.mk.injEq, ← ih hrest]
    by_cases h : k = k₁
    · subst h
      have hnone : ¬ rows.lookup k = some v := fun hv =>
        hfresh (List.mem_map.2 ⟨(k, v), (ih hrest).1 hv, rfl⟩)
      simp [hnone, eq_comm]
    · simp [h, beq_false_of_ne h]

lemma get?_eq_some : m.get? k = some v ↔ (k, v) ∈ m.rows := lookup_eq_some m.nodup_keys

lemma get?_eq_none : m.get? k = none ↔ ∀ v, (k, v) ∉ m.rows := by
  rw [Option.eq_none_iff_forall_ne_some]
  exact forall_congr' fun v => not_congr get?_eq_some

@[simp] lemma get?_empty (k : K) : (empty : SortedMap K V).get? k = none := rfl

/-- A map is what it holds at each key. -/
lemma ext_get? (h : ∀ k, m.get? k = m'.get? k) : m = m' := by
  have hmem : ∀ r, r ∈ m.rows ↔ r ∈ m'.rows := fun r => by
    rw [← get?_eq_some (k := r.1), h, get?_eq_some]
  have hperm : m.rows.Perm m'.rows :=
    (List.perm_ext_iff_of_nodup m.nodup_keys.of_map m'.nodup_keys.of_map).2 hmem
  refine SortedMap.ext (hperm.eq_of_pairwise (fun a b _ _ hab hba => ?_) m.sorted m'.sorted)
  exact absurd (lt_trans hab hba) (lt_irrefl _)

lemma ext_mem (h : ∀ r, r ∈ m.rows ↔ r ∈ m'.rows) : m = m' :=
  ext_get? fun k => Option.ext fun v => by rw [get?_eq_some, get?_eq_some, h]

/-! ### Changes -/

def insert (m : SortedMap K V) (k : K) (v : V) : SortedMap K V where
  rows := (m.rows.filter fun r => r.1 < k) ++ (k, v) :: m.rows.filter fun r => k < r.1
  sorted := by
    refine List.pairwise_append.2 ⟨m.sorted.filter _, List.pairwise_cons.2 ⟨?_, m.sorted.filter _⟩,
      ?_⟩
    · intro r hr
      simpa using (List.mem_filter.1 hr).2
    · intro a ha b hb
      have hak : a.1 < k := by simpa using (List.mem_filter.1 ha).2
      rcases List.mem_cons.1 hb with rfl | hb
      · exact hak
      · exact hak.trans (by simpa using (List.mem_filter.1 hb).2)

def filter (m : SortedMap K V) (p : K → V → Bool) : SortedMap K V :=
  ⟨m.rows.filter fun r => p r.1 r.2, m.sorted.filter _⟩

def adjust (m : SortedMap K V) (f : K → V → V) : SortedMap K V :=
  ⟨m.rows.map fun r => (r.1, f r.1 r.2), List.pairwise_map.2 m.sorted⟩

lemma get?_insert (m : SortedMap K V) (k k' : K) (v : V) :
    (m.insert k v).get? k' = if k' = k then some v else m.get? k' := by
  refine Option.ext fun x => ?_
  split
  · rename_i h
    subst h
    rw [get?_eq_some]
    simp [insert, eq_comm]
  · rename_i h
    rw [get?_eq_some, get?_eq_some]
    rcases lt_or_gt_of_ne h with hlt | hgt
    · simp [insert, h, hlt, hlt.not_gt]
    · simp [insert, h, hgt, hgt.not_gt]

variable {r : K × V} {after : Option K} {limit : ℕ}

lemma mem_insert : r ∈ (m.insert k v).rows ↔ r = (k, v) ∨ r ∈ m.rows ∧ r.1 ≠ k := by
  simp only [insert, List.mem_append, List.mem_cons, List.mem_filter, decide_eq_true_eq,
    ne_iff_lt_or_gt]
  tauto

lemma mem_insert_of_none (h : m.get? k = none) :
    r ∈ (m.insert k v).rows ↔ r = (k, v) ∨ r ∈ m.rows := by
  rw [mem_insert, and_iff_left_of_imp]
  rintro hr rfl
  exact get?_eq_none.1 h r.2 hr

lemma length_insert (h : m.get? k = none) : (m.insert k v).rows.length = m.rows.length + 1 := by
  have hne : ∀ r ∈ m.rows, r.1 ≠ k := fun r hr heq => get?_eq_none.1 h r.2 (heq ▸ hr)
  have hsplit := List.length_eq_length_filter_add (l := m.rows) fun r => r.1 < k
  have hrest : (m.rows.filter fun r => !decide (r.1 < k)) = m.rows.filter fun r => k < r.1 :=
    List.filter_congr fun r hr => by
      rcases lt_or_gt_of_ne (hne r hr) with hlt | hgt
      · simp [hlt, hlt.not_gt]
      · simp [hgt, hgt.not_gt]
  rw [hrest] at hsplit
  simp only [insert, List.length_append, List.length_cons]
  omega

@[simp] lemma get?_filter (m : SortedMap K V) (p : K → V → Bool) (k : K) :
    (m.filter p).get? k = (m.get? k).filter (p k) := by
  refine Option.ext fun x => ?_
  rw [get?_eq_some, Option.filter_eq_some_iff, get?_eq_some]
  simp [filter]

@[simp] lemma get?_adjust (m : SortedMap K V) (f : K → V → V) (k : K) :
    (m.adjust f).get? k = (m.get? k).map (f k) := by
  refine Option.ext fun x => ?_
  rw [get?_eq_some, Option.map_eq_some_iff]
  simp only [adjust, List.mem_map, Prod.mk.injEq, get?_eq_some]
  constructor
  · rintro ⟨⟨k', v⟩, hmem, rfl, rfl⟩
    exact ⟨v, hmem, rfl⟩
  · rintro ⟨v, hmem, rfl⟩
    exact ⟨(k, v), hmem, rfl, rfl⟩

/-- One row after another is put into a map. -/
lemma get?_foldl_insert {W : Type} (f : K → W → Option V → V) {rows : List (K × W)}
    (hnodup : (rows.map Prod.fst).Nodup) (m : SortedMap K V) (k : K) :
    (rows.foldl (fun m r => m.insert r.1 (f r.1 r.2 (m.get? r.1))) m).get? k =
      ((rows.lookup k).map fun w => f k w (m.get? k)).or (m.get? k) := by
  induction rows generalizing m with
  | nil => rfl
  | cons r rows ih =>
    obtain ⟨k₁, w⟩ := r
    obtain ⟨hfresh, hrest⟩ := List.nodup_cons.1 hnodup
    rw [List.foldl_cons, ih hrest, List.lookup_cons, get?_insert]
    by_cases h : k = k₁
    · subst h
      have hnone : rows.lookup k = none := by
        refine Option.eq_none_iff_forall_ne_some.2 fun x hx => hfresh ?_
        exact List.mem_map.2 ⟨(k, x), (lookup_eq_some hrest).1 hx, rfl⟩
      simp [hnone]
    · simp [h, beq_false_of_ne h]

/-! ### Pages -/

/-- `k` comes after the key a page starts from, if there is one. -/
def After (after : Option K) (k : K) : Prop := ∀ a ∈ after, a < k

instance (after : Option K) (k : K) : Decidable (After after k) :=
  inferInstanceAs (Decidable (∀ a ∈ after, a < k))

lemma After.trans {c : K} (hc : After after c) (hk : After (some c) k) :
    After after k := fun a ha => (hc a ha).trans (hk c rfl)

/-- Up to `limit` rows after a key, in key order. -/
def page (m : SortedMap K V) (after : Option K) (limit : ℕ) : SortedMap K V :=
  ⟨(m.rows.filter fun r => After after r.1).take limit, (m.sorted.filter _).take⟩

/-- The last key of a page, if the page is full. -/
def lastKey (limit : ℕ) (page : SortedMap K V) : Option K :=
  if limit ≤ page.rows.length then page.rows.getLast?.map Prod.fst else none

lemma get?_of_get?_page (h : (m.page after limit).get? k = some v) :
    m.get? k = some v ∧ After after k := by
  have hmem := List.mem_filter.1 (List.mem_of_mem_take (get?_eq_some.1 h))
  exact ⟨get?_eq_some.2 hmem.1, by simpa using hmem.2⟩

/-- In a sorted list, what is not above the last of the first rows is among them. -/
lemma mem_take (hsorted : rows.Pairwise fun a b => a.1 < b.1) (hlimit : 0 < limit) (hr : r ∈ rows)
    (hlast : limit ≤ (rows.take limit).length → ∀ last ∈ (rows.take limit).getLast?, r.1 ≤ last.1) :
    r ∈ rows.take limit := by
  rw [← List.take_append_drop limit rows] at hr hsorted
  rcases List.mem_append.1 hr with htake | hdrop
  · exact htake
  exfalso
  have hlen : limit ≤ (rows.take limit).length := by
    have := List.length_pos_of_mem hdrop
    rw [List.length_drop] at this
    rw [List.length_take]
    omega
  have hne : rows.take limit ≠ [] := List.ne_nil_of_length_pos (by omega)
  have hle := hlast hlen _ (List.getLast?_eq_some_getLast hne)
  have hlt := (List.pairwise_append.1 hsorted).2.2 _ (List.getLast_mem hne) r hdrop
  exact absurd hle (not_le_of_gt hlt)

/-- Nothing is left out up to the last key of a full page, and nothing at all by one that is not. -/
lemma get?_page (hafter : After after k) (hlimit : 0 < limit)
    (hlast : ∀ c ∈ lastKey limit (m.page after limit), k ≤ c) :
    (m.page after limit).get? k = m.get? k := by
  refine Option.ext fun v => ⟨fun h => (get?_of_get?_page h).1, fun h => get?_eq_some.2 ?_⟩
  refine mem_take (m.sorted.filter _) hlimit
    (List.mem_filter.2 ⟨get?_eq_some.1 h, by simpa using hafter⟩) fun hfull last hlast' => ?_
  have hfull' : limit ≤ (m.page after limit).rows.length := hfull
  refine hlast last.1 ?_
  rw [lastKey, if_pos hfull']
  exact Option.mem_map_of_mem _ hlast'

lemma get?_of_lastKey (h : lastKey limit m = some k) : ∃ v, m.get? k = some v := by
  unfold lastKey at h
  split at h
  · obtain ⟨r, hr, rfl⟩ := Option.map_eq_some_iff.1 h
    exact ⟨r.2, get?_eq_some.2 (List.mem_of_getLast? hr)⟩
  · cases h

end SortedMap
