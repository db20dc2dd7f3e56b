import Proxiima.Graphs.Components

/-!
# Tarjan's search for strongly connected components

The search numbers the nodes as it enters them and keeps those whose component is still open on a
stack. A node whose low link is its own number closes a component: what lies above it on the stack.
The recursion is bounded by fuel, and as much fuel as there are nodes is enough.
-/

namespace Graphs

open Relation

variable {α : Type}

/-! ### The search -/

/-- `stack` has its top first; a node without an index is not entered yet. -/
structure Tarjan (α : Type) where
  index : ℕ
  stack : List α
  onStack : α → Bool
  indices : α → Option ℕ
  low : α → ℕ
  components : List (List α)

namespace Tarjan

def empty : Tarjan α := ⟨0, [], fun _ => false, fun _ => none, fun _ => 0, []⟩

variable [DecidableEq α]

def enter (s : Tarjan α) (v : α) : Tarjan α where
  index := s.index + 1
  stack := v :: s.stack
  onStack := Function.update s.onStack v true
  indices := Function.update s.indices v (some s.index)
  low := Function.update s.low v s.index
  components := s.components

/-- Lower the low link of a node. -/
def relax (s : Tarjan α) (v : α) (n : ℕ) : Tarjan α :=
  { s with low := Function.update s.low v (min (s.low v) n) }

/-- The stack down to a node, and what is below it. -/
def popUntil (v : α) : List α → List α × List α
  | [] => ([], [])
  | m :: st => if m = v then ([m], st) else (m :: (popUntil v st).1, (popUntil v st).2)

/-- Close the component of a node whose low link is its own index. -/
def close (s : Tarjan α) (v : α) : Tarjan α :=
  if s.low v = (s.indices v).getD (s.low v) then
    { s with
      stack := (popUntil v s.stack).2
      onStack := fun m => s.onStack m && m ∉ (popUntil v s.stack).1
      components := s.components ++ [(popUntil v s.stack).1] }
  else s

/-- The successors of `v`, one by one. -/
def scan (visit : α → Tarjan α → Option (Tarjan α)) (v : α) :
    List α → Tarjan α → Option (Tarjan α)
  | [], s => some s
  | w :: ws, s =>
    match s.indices w with
    | none => (visit w s).bind fun s' => scan visit v ws (s'.relax v (s'.low w))
    | some i => if s.onStack w then scan visit v ws (s.relax v i) else scan visit v ws s

variable (next : α → List α) (nodes : List α)

/-- Nothing when the fuel runs out. -/
def strong : ℕ → α → Tarjan α → Option (Tarjan α)
  | 0, _, _ => none
  | fuel + 1, v, s => (scan (strong fuel) v (next v) (s.enter v)).map fun s' => s'.close v

def search (fuel : ℕ) : List α → Tarjan α → Option (Tarjan α)
  | [], s => some s
  | v :: vs, s =>
    if s.indices v = none then (strong next fuel v s).bind (search fuel vs) else search fuel vs s

/-! ### What holds throughout -/

/-- The index of a node that has been entered. -/
def rank (s : Tarjan α) (v : α) : ℕ := (s.indices v).getD 0

omit [DecidableEq α] in
lemma rank_eq {s : Tarjan α} {v : α} {i : ℕ} (h : s.indices v = some i) : s.rank v = i := by
  simp [rank, h]

/-- The nodes in `gray` are being searched. Each node on the stack reaches those above it, and a
gray node at or below it. -/
structure Inv (gray : List α) (s : Tarjan α) : Prop where
  inside : ∀ v i, s.indices v = some i → v ∈ nodes
  index_lt : ∀ v i, s.indices v = some i → i < s.index
  onStack_iff : ∀ v, s.onStack v = true ↔ v ∈ s.stack
  entered : ∀ v ∈ s.stack, ∃ i, s.indices v = some i
  sorted : s.stack.Pairwise fun a b => s.rank b < s.rank a
  grays : ∀ g ∈ gray, g ∈ s.stack
  forward : ∀ x ∈ s.stack, ∀ y ∈ s.stack, s.rank x ≤ s.rank y → Reach next x y
  back : ∀ x ∈ s.stack, ∃ g ∈ gray, s.rank g ≤ s.rank x ∧ Reach next x g
  black : ∀ v i, s.indices v = some i → v ∉ gray → ∀ w ∈ next v, ∃ j, s.indices w = some j
  closed : ∀ c ∈ s.components, ∀ v ∈ c, ∀ w ∈ next v, ∃ c' ∈ s.components, w ∈ c'
  done : ∀ v, (∃ c ∈ s.components, v ∈ c) ↔ (∃ i, s.indices v = some i) ∧ v ∉ s.stack
  component : ∀ c ∈ s.components, IsComponent next c
  nodup : s.components.flatten.Nodup

/-- What the visit of `v` makes of the state. The nodes it leaves on the stack have no edge to
older ones that its low link does not know. -/
structure Visited (gray : List α) (s : Tarjan α) (v : α) (s' : Tarjan α) : Prop where
  inv : Inv next nodes gray s'
  kept : ∀ u i, s.indices u = some i → s'.indices u = some i
  low_kept : ∀ u i, s.indices u = some i → s'.low u = s.low u
  index : ∃ i, s'.indices v = some i ∧ s.index ≤ i
  low : s'.low v = s'.rank v ∨ ∃ y ∈ s'.stack, s'.low v = s'.rank y ∧ Reach next v y
  stack : ∃ new, s'.stack = new ++ s.stack ∧
    ∀ x ∈ new, s.indices x = none ∧ ∀ y ∈ next x, y ∈ s.stack → s'.low v ≤ s.rank y

/-- The state while the successors of `v` are scanned, of which those in `seen` are dealt with. -/
structure Scanning (gray : List α) (s₀ : Tarjan α) (v : α) (seen : List α) (s : Tarjan α) :
    Prop where
  inv : Inv next nodes (v :: gray) s
  kept : ∀ u i, s₀.indices u = some i → s.indices u = some i
  low_kept : ∀ u i, s₀.indices u = some i → s.low u = s₀.low u
  own : s.indices v = some s₀.index
  low_le : s.low v ≤ s₀.index
  low : ∃ y ∈ s.stack, s.low v = s.rank y ∧ Reach next v y
  stack : ∃ new, s.stack = new ++ v :: s₀.stack ∧
    ∀ x ∈ new, s₀.indices x = none ∧ ∀ y ∈ next x, y ∈ s₀.stack → s.low v ≤ s₀.rank y
  seen : ∀ w ∈ seen, (∃ i, s.indices w = some i) ∧ (w ∈ s₀.stack → s.low v ≤ s₀.rank w)

variable {next nodes} {gray : List α} {s s₀ s' : Tarjan α} {v w : α}

omit [DecidableEq α] in
lemma inv_empty : Inv next nodes [] (empty : Tarjan α) where
  inside _ _ h := nomatch h
  index_lt _ _ h := nomatch h
  onStack_iff v := by simp [empty]
  entered _ h := nomatch h
  sorted := .nil
  grays _ h := nomatch h
  forward _ h := nomatch h
  back _ h := nomatch h
  black _ _ h := nomatch h
  closed _ h := nomatch h
  done v := by simp [empty]
  component _ h := nomatch h
  nodup := List.nodup_nil

omit [DecidableEq α] in
/-- What is done leads only to what is done. -/
lemma Inv.reach_done (h : Inv next nodes gray s) (hv : ∃ c ∈ s.components, v ∈ c)
    (hr : Reach next v w) : ∃ c ∈ s.components, w ∈ c := by
  induction hr with
  | refl => exact hv
  | tail _ hw ih =>
    obtain ⟨c, hc, hmem⟩ := ih
    exact h.closed c hc _ hmem _ hw

omit [DecidableEq α] in
lemma Inv.stack_nodup (h : Inv next nodes gray s) : s.stack.Nodup :=
  h.sorted.imp fun hlt heq => absurd hlt (by rw [heq]; exact Nat.lt_irrefl _)

/-! ### Entering a node -/

omit [DecidableEq α] in
lemma Inv.notMem_stack (h : Inv next nodes gray s) (hv : s.indices v = none) : v ∉ s.stack := by
  intro hmem
  obtain ⟨i, hi⟩ := h.entered v hmem
  cases hv.symm.trans hi

variable {x u : α}

lemma rank_enter_of_mem (h : Inv next nodes gray s) (hv : s.indices v = none) (hx : x ∈ s.stack) :
    (s.enter v).rank x = s.rank x := by
  have hne : x ≠ v := fun heq => h.notMem_stack hv (heq ▸ hx)
  simp [rank, enter, Function.update_of_ne hne]

lemma rank_enter_self : (s.enter v).rank v = s.index := by simp [rank, enter]

omit [DecidableEq α] in
lemma Inv.rank_lt (h : Inv next nodes gray s) (hx : x ∈ s.stack) : s.rank x < s.index := by
  obtain ⟨i, hi⟩ := h.entered x hx
  rw [rank_eq hi]
  exact h.index_lt x i hi

lemma indices_enter {i : ℕ} (hv : s.indices v = none) (hu : s.indices u = some i) :
    (s.enter v).indices u = some i := by
  have hne : u ≠ v := by
    rintro rfl
    cases hv.symm.trans hu
  simp only [enter, Function.update_of_ne hne, hu]

lemma indices_enter_iff (hv : s.indices v = none) :
    (∃ i, (s.enter v).indices u = some i) ↔ u = v ∨ ∃ i, s.indices u = some i := by
  by_cases hu : u = v
  · subst hu
    simp [enter]
  · simp [enter, hu]

lemma inv_enter (h : Inv next nodes gray s) (hmem : v ∈ nodes) (hv : s.indices v = none)
    (hreach : ∀ g ∈ gray, Reach next g v) : Inv next nodes (v :: gray) (s.enter v) where
  inside u i hu := by
    by_cases huv : u = v
    · exact huv ▸ hmem
    · simp only [enter, Function.update_of_ne huv] at hu
      exact h.inside u i hu
  index_lt u i hu := by
    by_cases huv : u = v
    · subst huv
      obtain rfl : s.index = i := by simpa [enter] using hu
      exact Nat.lt_succ_self _
    · simp only [enter, Function.update_of_ne huv] at hu
      exact Nat.lt_succ_of_lt (h.index_lt u i hu)
  onStack_iff u := by
    by_cases huv : u = v
    · subst huv
      simp [enter]
    · simp [enter, huv, h.onStack_iff u]
  entered u hu := by
    rw [indices_enter_iff hv]
    exact (List.mem_cons.1 hu).imp id (h.entered u)
  sorted := by
    refine List.pairwise_cons.2 ⟨fun x hx => ?_, h.sorted.imp_of_mem fun ha hb hlt => ?_⟩
    · rw [rank_enter_of_mem h hv hx, rank_enter_self]
      exact h.rank_lt hx
    · rwa [rank_enter_of_mem h hv ha, rank_enter_of_mem h hv hb]
  grays g hg := by
    rcases List.mem_cons.1 hg with rfl | hg
    · exact List.mem_cons_self
    · exact List.mem_cons_of_mem _ (h.grays g hg)
  forward x hx y hy hle := by
    rcases List.mem_cons.1 hx with rfl | hx'
    · rcases List.mem_cons.1 hy with rfl | hy'
      · exact .refl
      · rw [rank_enter_self, rank_enter_of_mem h hv hy'] at hle
        exact absurd (h.rank_lt hy') (Nat.not_lt.2 hle)
    · rcases List.mem_cons.1 hy with rfl | hy'
      · -- an older node reaches a gray one, and the gray ones reach the new one
        obtain ⟨g, hg, -, hxg⟩ := h.back x hx'
        exact hxg.trans (hreach g hg)
      · rw [rank_enter_of_mem h hv hx', rank_enter_of_mem h hv hy'] at hle
        exact h.forward x hx' y hy' hle
  back x hx := by
    rcases List.mem_cons.1 hx with rfl | hx
    · exact ⟨x, List.mem_cons_self, Nat.le_refl _, .refl⟩
    · obtain ⟨g, hg, hle, hxg⟩ := h.back x hx
      refine ⟨g, List.mem_cons_of_mem _ hg, ?_, hxg⟩
      rwa [rank_enter_of_mem h hv hx, rank_enter_of_mem h hv (h.grays g hg)]
  black u i hu hgray w hw := by
    obtain ⟨huv, hgray⟩ := not_or.1 (mt List.mem_cons.2 hgray)
    simp only [enter, Function.update_of_ne huv] at hu
    rw [indices_enter_iff hv]
    exact .inr (h.black u i hu hgray w hw)
  closed := h.closed
  done u := by
    rw [indices_enter_iff hv]
    change (∃ c ∈ s.components, u ∈ c) ↔ _ ∧ u ∉ v :: s.stack
    rw [h.done u, List.mem_cons, not_or]
    refine ⟨fun ⟨hu, hstack⟩ => ⟨.inr hu, ?_, hstack⟩, fun ⟨hu, hne, hstack⟩ =>
      ⟨hu.resolve_left hne, hstack⟩⟩
    rintro rfl
    obtain ⟨i, hi⟩ := hu
    cases hv.symm.trans hi
  component := h.component
  nodup := h.nodup

lemma scanning_enter (h : Inv next nodes gray s) (hmem : v ∈ nodes) (hv : s.indices v = none)
    (hreach : ∀ g ∈ gray, Reach next g v) : Scanning next nodes gray s v [] (s.enter v) where
  inv := inv_enter h hmem hv hreach
  kept u i hu := indices_enter hv hu
  low_kept u i hu := by
    have hne : u ≠ v := by
      rintro rfl
      cases hv.symm.trans hu
    simp [enter, Function.update_of_ne hne]
  own := by simp [enter]
  low_le := by simp [enter]
  low := ⟨v, List.mem_cons_self, by simp [enter, rank], .refl⟩
  stack := ⟨[], rfl, fun _ hx => (List.not_mem_nil hx).elim⟩
  seen _ hw := (List.not_mem_nil hw).elim

/-! ### One successor -/

lemma Inv.relax (h : Inv next nodes gray s) (v : α) (n : ℕ) : Inv next nodes gray (s.relax v n) :=
  ⟨h.inside, h.index_lt, h.onStack_iff, h.entered, h.sorted, h.grays, h.forward, h.back, h.black,
    h.closed, h.done, h.component, h.nodup⟩

lemma low_relax_self (s : Tarjan α) (v : α) (n : ℕ) : (s.relax v n).low v = min (s.low v) n := by
  simp [Tarjan.relax]

lemma low_relax_ne (s : Tarjan α) (n : ℕ) (h : u ≠ v) : (s.relax v n).low u = s.low u := by
  simp [Tarjan.relax, Function.update_of_ne h]

variable {seen : List α}

/-- Relax by what a node on the stack that `v` reaches allows. -/
lemma Scanning.relax (h : Scanning next nodes gray s₀ v seen s) (hv : s₀.indices v = none) {n : ℕ}
    (hn : s.low v ≤ n ∨ ∃ y ∈ s.stack, n = s.rank y ∧ Reach next v y) :
    Scanning next nodes gray s₀ v seen (s.relax v n) where
  inv := h.inv.relax v n
  kept := h.kept
  low_kept u i hu := by
    have hne : u ≠ v := by
      rintro rfl
      cases hv.symm.trans hu
    rw [low_relax_ne s n hne]
    exact h.low_kept u i hu
  own := h.own
  low_le := by
    rw [low_relax_self]
    exact Nat.le_trans (Nat.min_le_left _ _) h.low_le
  low := by
    rw [low_relax_self]
    rcases Nat.le_total (s.low v) n with hle | hle
    · rw [Nat.min_eq_left hle]
      exact h.low
    · rw [Nat.min_eq_right hle]
      rcases hn with hge | hy
      · rw [Nat.le_antisymm hle hge]
        exact h.low
      · exact hy
  stack := by
    obtain ⟨new, hstack, hnew⟩ := h.stack
    refine ⟨new, hstack, fun x hx => ⟨(hnew x hx).1, fun y hy hmem => ?_⟩⟩
    rw [low_relax_self]
    exact Nat.le_trans (Nat.min_le_left _ _) ((hnew x hx).2 y hy hmem)
  seen w hw := by
    refine ⟨(h.seen w hw).1, fun hmem => ?_⟩
    rw [low_relax_self]
    exact Nat.le_trans (Nat.min_le_left _ _) ((h.seen w hw).2 hmem)

omit [DecidableEq α] in
/-- One more successor is dealt with. -/
lemma Scanning.see (h : Scanning next nodes gray s₀ v seen s) (hw : ∃ i, s.indices w = some i)
    (hlow : w ∈ s₀.stack → s.low v ≤ s₀.rank w) : Scanning next nodes gray s₀ v (w :: seen) s :=
  { h with
    seen := fun u hu => by
      rcases List.mem_cons.1 hu with rfl | hu
      · exact ⟨hw, hlow⟩
      · exact h.seen u hu }

omit [DecidableEq α] in
lemma rank_kept (hkept : ∀ u i, s.indices u = some i → s'.indices u = some i)
    (hx : ∃ i, s.indices x = some i) : s'.rank x = s.rank x := by
  obtain ⟨i, hi⟩ := hx
  rw [rank_eq hi, rank_eq (hkept x i hi)]

/-- A successor has been visited. -/
lemma Scanning.visit (h₀ : Inv next nodes gray s₀) (hv : s₀.indices v = none)
    (h : Scanning next nodes gray s₀ v seen s) (hw : w ∈ next v) (hnew : s.indices w = none)
    (hvisit : Visited next nodes (v :: gray) s w s') :
    Scanning next nodes gray s₀ v (w :: seen) (s'.relax v (s'.low w)) := by
  have hlow : s'.low v = s.low v := hvisit.low_kept v _ h.own
  have hkept : ∀ u i, s₀.indices u = some i → s'.indices u = some i := fun u i hu =>
    hvisit.kept u i (h.kept u i hu)
  have hself : s₀.index < s.index := h.inv.index_lt v _ h.own
  obtain ⟨i, hi, hle⟩ := hvisit.index
  have hmin : (s'.relax v (s'.low w)).low v = min (s.low v) (s'.low w) := by
    rw [low_relax_self, hlow]
  refine
    { inv := hvisit.inv.relax v _
      kept := hkept
      low_kept := fun u j hu => ?_
      own := hvisit.kept v _ h.own
      low_le := hmin ▸ Nat.le_trans (Nat.min_le_left _ _) h.low_le
      low := ?_
      stack := ?_
      seen := fun u hu => ?_ }
  · have hne : u ≠ v := by
      rintro rfl
      cases hv.symm.trans hu
    rw [low_relax_ne s' _ hne, hvisit.low_kept u j (h.kept u j hu), h.low_kept u j hu]
  · rw [hmin]
    rcases Nat.lt_or_ge (s'.low w) (s.low v) with hlt | hge
    · rw [Nat.min_eq_right (Nat.le_of_lt hlt)]
      rcases hvisit.low with hown | ⟨y, hy, heq, hreach⟩
      · -- the link of a closed component is too high
        rw [rank_eq hi] at hown
        have := h.low_le
        omega
      · exact ⟨y, hy, heq, .head hw hreach⟩
    · rw [Nat.min_eq_left hge]
      obtain ⟨y, hy, heq, hreach⟩ := h.low
      obtain ⟨new', hstack', -⟩ := hvisit.stack
      refine ⟨y, ?_, ?_, hreach⟩
      · change y ∈ s'.stack
        rw [hstack']
        exact List.mem_append_right _ hy
      · exact heq.trans (rank_kept hvisit.kept (h.inv.entered y hy)).symm
  · obtain ⟨new', hstack', hcross'⟩ := hvisit.stack
    obtain ⟨new, hstack, hcross⟩ := h.stack
    refine ⟨new' ++ new, ?_, fun x hx => ?_⟩
    · change s'.stack = _
      rw [hstack', hstack, List.append_assoc]
    rw [hmin]
    rcases List.mem_append.1 hx with hx | hx
    · obtain ⟨hnone, hx'⟩ := hcross' x hx
      refine ⟨?_, fun y hy hmem => Nat.le_trans (Nat.min_le_right _ _) ?_⟩
      · by_contra hsome
        obtain ⟨j, hj⟩ := Option.ne_none_iff_exists'.1 hsome
        cases hnone.symm.trans (h.kept x j hj)
      · have hmem' : y ∈ s.stack := by
          rw [hstack]
          exact List.mem_append_right _ (List.mem_cons_of_mem _ hmem)
        rw [← rank_kept h.kept (h₀.entered y hmem)]
        exact hx' y hy hmem'
    · obtain ⟨hnone, hx'⟩ := hcross x hx
      exact ⟨hnone, fun y hy hmem => Nat.le_trans (Nat.min_le_left _ _) (hx' y hy hmem)⟩
  · rw [hmin]
    rcases List.mem_cons.1 hu with rfl | hu
    · refine ⟨⟨i, hi⟩, fun hmem => ?_⟩
      obtain ⟨j, hj⟩ := h₀.entered u hmem
      cases hnew.symm.trans (h.kept u j hj)
    · obtain ⟨⟨j, hj⟩, hlow'⟩ := h.seen u hu
      exact ⟨⟨j, hvisit.kept u j hj⟩, fun hmem => Nat.le_trans (Nat.min_le_left _ _) (hlow' hmem)⟩

/-- What a visit is to do, when there is fuel for the nodes left. -/
def Visits (next : α → List α) (nodes : List α) (visit : α → Tarjan α → Option (Tarjan α))
    (fuel : ℕ) : Prop :=
  ∀ gray s v, Inv next nodes gray s → v ∈ nodes → s.indices v = none →
    (∀ g ∈ gray, Reach next g v) → (nodes.filter fun u => s.indices u = none).length ≤ fuel →
    ∃ s', visit v s = some s' ∧ Visited next nodes gray s v s'

omit [DecidableEq α] in
/-- The more is entered, the less is left. -/
lemma left_le (nodes : List α) (hkept : ∀ u i, s.indices u = some i → s'.indices u = some i) :
    (nodes.filter fun u => s'.indices u = none).length ≤
      (nodes.filter fun u => s.indices u = none).length := by
  refine (List.monotone_filter_right nodes fun u hu => ?_).length_le
  by_contra hsome
  obtain ⟨i, hi⟩ := Option.ne_none_iff_exists'.1 (by simpa using hsome)
  simp [hkept u i hi] at hu

lemma scan_spec {visit : α → Tarjan α → Option (Tarjan α)} {fuel : ℕ}
    (hvisits : Visits next nodes visit fuel) (hclosed : ∀ u ∈ nodes, next u ⊆ nodes)
    (h₀ : Inv next nodes gray s₀) (hv : s₀.indices v = none) (hmem : v ∈ nodes)
    (hreach : ∀ g ∈ gray, Reach next g v) (ws : List α) (hws : ws ⊆ next v)
    (h : Scanning next nodes gray s₀ v seen s)
    (hfuel : (nodes.filter fun u => s.indices u = none).length ≤ fuel) :
    ∃ s', scan visit v ws s = some s' ∧ Scanning next nodes gray s₀ v (ws.reverse ++ seen) s' := by
  induction ws generalizing s seen with
  | nil => exact ⟨s, rfl, h⟩
  | cons w ws ih =>
    obtain ⟨hw, hws⟩ := List.cons_subset.1 hws
    rw [List.reverse_cons, List.append_assoc, List.singleton_append]
    unfold scan
    cases hidx : s.indices w with
    | none =>
      have hreach' : ∀ g ∈ v :: gray, Reach next g w := by
        intro g hg
        rcases List.mem_cons.1 hg with rfl | hg
        · exact .single hw
        · exact (hreach g hg).tail hw
      obtain ⟨s', hs', hvisit⟩ := hvisits _ s w h.inv (hclosed v hmem hw) hidx hreach' hfuel
      simp only [hs', Option.bind_some]
      refine ih hws (h.visit h₀ hv hw hidx hvisit) ?_
      exact Nat.le_trans (left_le nodes hvisit.kept) hfuel
    | some i =>
      have hrank : s.rank w = i := rank_eq hidx
      by_cases hon : s.onStack w = true
      · simp only [hon, if_true]
        have hstack := (h.inv.onStack_iff w).1 hon
        refine ih hws
          (Scanning.see (h.relax hv (.inr ⟨w, hstack, hrank.symm, .single hw⟩)) ⟨i, hidx⟩ ?_)
          hfuel
        intro hold
        rw [low_relax_self, ← rank_kept h.kept (h₀.entered w hold), hrank]
        exact Nat.min_le_right _ _
      · simp only [Bool.not_eq_true] at hon
        simp only [hon, Bool.false_eq_true, if_false]
        refine ih hws (h.see ⟨i, hidx⟩ fun hold => ?_) hfuel
        -- an old node of the stack is still there
        obtain ⟨new, hstack, -⟩ := h.stack
        have : w ∈ s.stack := by
          rw [hstack]
          exact List.mem_append_right _ (List.mem_cons_of_mem _ hold)
        rw [(h.inv.onStack_iff w).2 this] at hon
        cases hon

/-! ### Closing a component -/

lemma popUntil_append {new : List α} (older : List α) (hv : v ∉ new) :
    popUntil v (new ++ v :: older) = (new ++ [v], older) := by
  induction new with
  | nil => simp [popUntil]
  | cons m new ih =>
    obtain ⟨hne, hnot⟩ := not_or.1 (mt List.mem_cons.2 hv)
    simp [popUntil, Ne.symm hne, ih hnot]

section Closing

variable (h₀ : Inv next nodes gray s₀) (hv : s₀.indices v = none)
  (h : Scanning next nodes gray s₀ v (next v).reverse s)
include h₀ hv h

omit [DecidableEq α] h₀ hv in
/-- The successors of `v` that are on the old stack have been seen. -/
lemma Scanning.successor (hw : w ∈ next v) :
    (∃ i, s.indices w = some i) ∧ (w ∈ s₀.stack → s.low v ≤ s₀.rank w) :=
  h.seen w (List.mem_reverse.2 hw)

section Popped

variable {new : List α} (hstack : s.stack = new ++ v :: s₀.stack)
  (hcross : ∀ x ∈ new, ∀ y ∈ next x, y ∈ s₀.stack → s.low v ≤ s₀.rank y) (hlow : s.low v = s₀.index)
include hstack hcross hlow

/-- Where the low link is high, what is above the old stack leads nowhere below. -/
lemma Scanning.reach_above {y : α} (hx : x ∈ new ++ [v]) (hreach : Reach next x y) :
    y ∈ new ++ [v] ∨ ∃ c ∈ s.components, y ∈ c := by
  have hnodup : (new ++ v :: s₀.stack).Nodup := hstack ▸ h.inv.stack_nodup
  induction hreach with
  | refl => exact .inl hx
  | @tail y z _ hz ih =>
    rcases ih with hy | ⟨c, hc, hy⟩
    · -- the successor has been entered, and is not on the old stack
      have hz' : (∃ i, s.indices z = some i) ∧ (z ∈ s₀.stack → s.low v ≤ s₀.rank z) := by
        rcases List.mem_append.1 hy with hy | hy
        · refine ⟨?_, hcross y hy z hz⟩
          have hstack' : y ∈ s.stack := hstack ▸ List.mem_append_left _ hy
          obtain ⟨i, hi⟩ := h.inv.entered y hstack'
          refine h.inv.black y i hi (fun hgray => ?_) z hz
          have hold : y ∈ v :: s₀.stack := by
            rcases List.mem_cons.1 hgray with rfl | hgray
            · exact List.mem_cons_self
            · exact List.mem_cons_of_mem _ (h₀.grays y hgray)
          exact List.disjoint_of_nodup_append hnodup hy hold
        · obtain rfl := List.mem_singleton.1 hy
          exact h.successor hz
      have hold : z ∉ s₀.stack := fun hmem => by
        have := hz'.2 hmem
        have := h₀.rank_lt hmem
        omega
      by_cases hmem : z ∈ s.stack
      · refine .inl ?_
        rw [hstack] at hmem
        rcases List.mem_append.1 hmem with hmem | hmem
        · exact List.mem_append_left _ hmem
        · rcases List.mem_cons.1 hmem with rfl | hmem
          · simp
          · exact absurd hmem hold
      · exact .inr ((h.inv.done z).2 ⟨hz'.1, hmem⟩)
    · exact .inr (h.inv.closed c hc y hy z hz)

lemma Scanning.component : IsComponent next (new ++ [v]) := by
  have hnodup : (new ++ v :: s₀.stack).Nodup := hstack ▸ h.inv.stack_nodup
  have hvs : v ∈ s.stack := by simp [hstack]
  refine ⟨v, by simp, fun w => ⟨fun hw => ?_, fun ⟨hvw, hwv⟩ => ?_⟩⟩
  · have hws : w ∈ s.stack := by
      rw [hstack]
      rcases List.mem_append.1 hw with hw | hw
      · exact List.mem_append_left _ hw
      · simp [List.mem_singleton.1 hw]
    have hrank : s.rank v ≤ s.rank w := by
      rcases List.mem_append.1 hw with hw | hw
      · have hsorted := h.inv.sorted
        rw [hstack, List.pairwise_append] at hsorted
        exact Nat.le_of_lt (hsorted.2.2 w hw v List.mem_cons_self)
      · exact Nat.le_of_eq (by rw [List.mem_singleton.1 hw])
    refine ⟨h.inv.forward v hvs w hws hrank, ?_⟩
    obtain ⟨g, hg, -, hwg⟩ := h.inv.back w hws
    rcases List.mem_cons.1 hg with rfl | hg
    · exact hwg
    · -- the other gray nodes are on the old stack, which is out of reach
      have hgs := h₀.grays g hg
      rcases h.reach_above h₀ hv hstack hcross hlow hw hwg with hmem | hdone
      · rcases List.mem_append.1 hmem with hmem | hmem
        · exact (List.disjoint_of_nodup_append hnodup hmem (List.mem_cons_of_mem _ hgs)).elim
        · obtain rfl := List.mem_singleton.1 hmem
          exact absurd hgs (h₀.notMem_stack hv)
      · refine absurd ?_ ((h.inv.done g).1 hdone).2
        rw [hstack]
        exact List.mem_append_right _ (List.mem_cons_of_mem _ hgs)
  · rcases h.reach_above h₀ hv hstack hcross hlow (by simp) hvw with hmem | hdone
    · exact hmem
    · exact absurd hvs ((h.inv.done v).1 (h.inv.reach_done hdone hwv)).2

lemma Scanning.inv_pop :
    Inv next nodes gray { s with
      stack := s₀.stack
      onStack := fun m => s.onStack m && m ∉ new ++ [v]
      components := s.components ++ [new ++ [v]] } := by
  have hnodup : (new ++ v :: s₀.stack).Nodup := hstack ▸ h.inv.stack_nodup
  have hrank : ∀ x ∈ s₀.stack, s.rank x = s₀.rank x := fun x hx =>
    rank_kept h.kept (h₀.entered x hx)
  have hold : ∀ x ∈ s₀.stack, x ∉ new ++ [v] := by
    intro x hx hmem
    rcases List.mem_append.1 hmem with hmem | hmem
    · exact List.disjoint_of_nodup_append hnodup hmem (List.mem_cons_of_mem _ hx)
    · obtain rfl := List.mem_singleton.1 hmem
      exact h₀.notMem_stack hv hx
  have hmem : ∀ x, x ∈ s.stack ↔ x ∈ new ++ [v] ∨ x ∈ s₀.stack := fun x => by
    simp [hstack, or_assoc]
  refine
    { inside := h.inv.inside
      index_lt := h.inv.index_lt
      onStack_iff := fun u => ?_
      entered := fun u hu => (h₀.entered u hu).imp fun i hi => h.kept u i hi
      sorted := h₀.sorted.imp_of_mem fun ha hb hlt => ?_
      grays := h₀.grays
      forward := fun x hx y hy hle => h₀.forward x hx y hy ?_
      back := fun x hx => ?_
      black := fun u i hu hgray w hw => ?_
      closed := fun c hc u hu w hw => ?_
      done := fun u => ?_
      component := fun c hc => ?_
      nodup := ?_ }
  · simp only [Bool.and_eq_true, decide_eq_true_eq, h.inv.onStack_iff, hmem]
    exact ⟨fun ⟨hor, hnot⟩ => hor.resolve_left hnot, fun hu => ⟨.inr hu, hold u hu⟩⟩
  · change s.rank _ < s.rank _
    rwa [hrank _ ha, hrank _ hb]
  · change s.rank x ≤ s.rank y at hle
    rwa [hrank x hx, hrank y hy] at hle
  · obtain ⟨g, hg, hle, hreach⟩ := h₀.back x hx
    refine ⟨g, hg, ?_, hreach⟩
    change s.rank g ≤ s.rank x
    rwa [hrank x hx, hrank g (h₀.grays g hg)]
  · by_cases huv : u = v
    · subst huv
      exact (h.successor hw).1
    · exact h.inv.black u i hu (fun hmem' => (List.mem_cons.1 hmem').elim huv hgray) w hw
  · rcases List.mem_append.1 hc with hc | hc
    · obtain ⟨c', hc', hw'⟩ := h.inv.closed c hc u hu w hw
      exact ⟨c', List.mem_append_left _ hc', hw'⟩
    · obtain rfl := List.mem_singleton.1 hc
      rcases h.reach_above h₀ hv hstack hcross hlow hu (.single hw) with hw' | ⟨c', hc', hw'⟩
      · exact ⟨_, List.mem_append_right _ List.mem_cons_self, hw'⟩
      · exact ⟨c', List.mem_append_left _ hc', hw'⟩
  · constructor
    · rintro ⟨c, hc, hu⟩
      rcases List.mem_append.1 hc with hc | hc
      · obtain ⟨hentered, hnot⟩ := (h.inv.done u).1 ⟨c, hc, hu⟩
        exact ⟨hentered, fun hu' => hnot ((hmem u).2 (.inr hu'))⟩
      · obtain rfl := List.mem_singleton.1 hc
        exact ⟨h.inv.entered u ((hmem u).2 (.inl hu)), fun hu' => hold u hu' hu⟩
    · rintro ⟨hentered, hnot⟩
      by_cases hu : u ∈ new ++ [v]
      · exact ⟨_, List.mem_append_right _ List.mem_cons_self, hu⟩
      · obtain ⟨c, hc, huc⟩ := (h.inv.done u).2 ⟨hentered, fun hu' => ((hmem u).1 hu').elim hu hnot⟩
        exact ⟨c, List.mem_append_left _ hc, huc⟩
  · rcases List.mem_append.1 hc with hc | hc
    · exact h.inv.component c hc
    · obtain rfl := List.mem_singleton.1 hc
      exact h.component h₀ hv hstack hcross hlow
  · have hc : (new ++ [v]).Nodup := by
      have : new ++ v :: s₀.stack = (new ++ [v]) ++ s₀.stack := by simp
      rw [this] at hnodup
      exact hnodup.of_append_left
    rw [List.flatten_append, List.nodup_append]
    refine ⟨h.inv.nodup, by simpa using hc, fun x hx y hy heq => ?_⟩
    subst heq
    obtain ⟨c, hc', hxc⟩ := List.mem_flatten.1 hx
    refine ((h.inv.done x).1 ⟨c, hc', hxc⟩).2 ((hmem x).2 (.inl ?_))
    simpa using hy

end Popped

/-- With a high low link, the component is closed. -/
lemma Scanning.close_high (hlow : s.low v = s₀.index) :
    Visited next nodes gray s₀ v (s.close v) := by
  obtain ⟨new, hstack, hcross⟩ := h.stack
  have hnew : v ∉ new := fun hmem =>
    List.disjoint_of_nodup_append (hstack ▸ h.inv.stack_nodup) hmem List.mem_cons_self
  have hclose : s.close v = { s with
      stack := s₀.stack
      onStack := fun m => s.onStack m && m ∉ new ++ [v]
      components := s.components ++ [new ++ [v]] } := by
    unfold Tarjan.close
    rw [if_pos (by rw [h.own, hlow]; rfl), hstack, popUntil_append _ hnew]
  rw [hclose]
  exact
    { inv := h.inv_pop h₀ hv hstack (fun x hx => (hcross x hx).2) hlow
      kept := h.kept
      low_kept := h.low_kept
      index := ⟨s₀.index, h.own, Nat.le_refl _⟩
      low := .inl (hlow.trans (rank_eq h.own).symm)
      stack := ⟨[], rfl, fun _ hx => (List.not_mem_nil hx).elim⟩ }

/-- With a low link below its own index, the node stays on the stack. -/
lemma Scanning.close_low (hlow : s.low v ≠ s₀.index) :
    Visited next nodes gray s₀ v (s.close v) := by
  have hclose : s.close v = s := by
    unfold Tarjan.close
    rw [if_neg (by rw [h.own]; exact hlow)]
  have hlt : s.low v < s₀.index := Nat.lt_of_le_of_ne h.low_le hlow
  obtain ⟨y, hy, hyrank, hvy⟩ := h.low
  obtain ⟨new, hstack, hcross⟩ := h.stack
  have hsorted := h.inv.sorted
  rw [hstack, List.pairwise_append] at hsorted
  -- the node that the link is from is on the old stack
  have hyold : y ∈ s₀.stack := by
    rw [hstack] at hy
    have hv' : s.rank v = s₀.index := rank_eq h.own
    rcases List.mem_append.1 hy with hmem | hmem
    · have := hsorted.2.2 y hmem v List.mem_cons_self
      omega
    · rcases List.mem_cons.1 hmem with rfl | hmem
      · omega
      · exact hmem
  rw [hclose]
  refine
    { inv := { h.inv with
        grays := fun g hg => h.inv.grays g (List.mem_cons_of_mem _ hg)
        back := fun x hx => ?_
        black := fun u i hu hgray w hw => ?_ }
      kept := h.kept
      low_kept := h.low_kept
      index := ⟨s₀.index, h.own, Nat.le_refl _⟩
      low := .inr ⟨y, hy, hyrank, hvy⟩
      stack := ⟨new ++ [v], by simp [hstack], fun x hx => ?_⟩ }
  · obtain ⟨g, hg, hle, hxg⟩ := h.inv.back x hx
    rcases List.mem_cons.1 hg with rfl | hg
    · obtain ⟨g', hg', hle', hyg⟩ := h₀.back y hyold
      refine ⟨g', hg', ?_, hxg.trans (hvy.trans hyg)⟩
      have h₁ := rank_kept h.kept (h₀.entered y hyold)
      have h₂ := rank_kept h.kept (h₀.entered g' (h₀.grays g' hg'))
      have h₃ : s.rank g = s₀.index := rank_eq h.own
      omega
    · exact ⟨g, hg, hle, hxg⟩
  · by_cases huv : u = v
    · subst huv
      exact (h.successor hw).1
    · exact h.inv.black u i hu (fun hmem' => (List.mem_cons.1 hmem').elim huv hgray) w hw
  · rcases List.mem_append.1 hx with hx | hx
    · exact hcross x hx
    · obtain rfl := List.mem_singleton.1 hx
      exact ⟨hv, fun y hy => (h.successor hy).2⟩

end Closing

/-! ### The whole search -/

section Search

variable (hclosed : ∀ u ∈ nodes, next u ⊆ nodes)
include hclosed

lemma strong_spec (fuel : ℕ) : Visits next nodes (strong next fuel) fuel := by
  induction fuel with
  | zero =>
    -- a node that is left needs fuel
    intro gray s v _ hmem hv _ hfuel
    have hnil := List.eq_nil_of_length_eq_zero (Nat.le_zero.1 hfuel)
    have : v ∈ nodes.filter fun u => s.indices u = none := by simp [hmem, hv]
    rw [hnil] at this
    exact (List.not_mem_nil this).elim
  | succ fuel ih =>
    intro gray s v h hmem hv hreach hfuel
    have hless : (nodes.filter fun u => (s.enter v).indices u = none).length ≤ fuel := by
      refine Nat.le_of_lt_succ (Nat.lt_of_lt_of_le ?_ hfuel)
      have hsub : List.Sublist (nodes.filter fun u => (s.enter v).indices u = none)
          (nodes.filter fun u => s.indices u = none) :=
        List.monotone_filter_right nodes fun u hu => by
          by_contra hsome
          obtain ⟨i, hi⟩ := Option.ne_none_iff_exists'.1 (by simpa using hsome)
          simp [indices_enter hv hi] at hu
      refine Nat.lt_of_le_of_ne hsub.length_le fun hlen => ?_
      have hv' : v ∈ nodes.filter fun u => s.indices u = none := by simp [hmem, hv]
      rw [← hsub.eq_of_length hlen] at hv'
      simp [enter] at hv'
    obtain ⟨s', hs', hscan⟩ := scan_spec ih hclosed h hv hmem hreach (next v) (List.Subset.refl _)
      (scanning_enter h hmem hv hreach) hless
    rw [List.append_nil] at hscan
    refine ⟨s'.close v, by simp [strong, hs'], ?_⟩
    by_cases hlow : s'.low v = s.index
    · exact hscan.close_high h hv hlow
    · exact hscan.close_low h hv hlow

lemma search_spec (vs : List α) (hvs : vs ⊆ nodes) (h : Inv next nodes [] s) :
    ∃ s', search next nodes.length vs s = some s' ∧ Inv next nodes [] s' ∧
      (∀ u i, s.indices u = some i → s'.indices u = some i) ∧
      ∀ v ∈ vs, ∃ i, s'.indices v = some i := by
  induction vs generalizing s with
  | nil => exact ⟨s, rfl, h, fun _ _ hu => hu, fun _ hv => (List.not_mem_nil hv).elim⟩
  | cons v vs ih =>
    obtain ⟨hv, hvs⟩ := List.cons_subset.1 hvs
    unfold search
    by_cases hnew : s.indices v = none
    · obtain ⟨s₁, hs₁, hvisit⟩ := strong_spec hclosed nodes.length [] s v h hv hnew
        (fun _ hg => (List.not_mem_nil hg).elim) (List.length_filter_le _ _)
      obtain ⟨s', hs', hinv, hkept, hall⟩ := ih hvs hvisit.inv
      refine ⟨s', by simp [hnew, hs₁, hs'], hinv, fun u i hu => hkept u i (hvisit.kept u i hu), ?_⟩
      obtain ⟨i, hi, -⟩ := hvisit.index
      exact List.forall_mem_cons.2 ⟨⟨i, hkept v i hi⟩, hall⟩
    · obtain ⟨s', hs', hinv, hkept, hall⟩ := ih hvs h
      obtain ⟨i, hi⟩ := Option.ne_none_iff_exists'.1 hnew
      exact ⟨s', by simp [hnew, hs'], hinv, hkept, List.forall_mem_cons.2 ⟨⟨i, hkept v i hi⟩, hall⟩⟩

omit [DecidableEq α] hclosed in
lemma Inv.stack_nil (h : Inv next nodes [] s) : s.stack = [] := by
  refine List.eq_nil_iff_forall_not_mem.2 fun x hx => ?_
  obtain ⟨g, hg, -⟩ := h.back x hx
  exact List.not_mem_nil hg

/-- **The search finds the components**: it ends, and each node lies in exactly one list, that of
all the nodes it is connected with both ways. -/
theorem search_components : ∃ s', search next nodes.length nodes empty = some s' ∧
    (∀ c ∈ s'.components, IsComponent next c) ∧ s'.components.flatten.Nodup ∧
    ∀ v, (∃ c ∈ s'.components, v ∈ c) ↔ v ∈ nodes := by
  obtain ⟨s', hs', hinv, -, hall⟩ := search_spec hclosed nodes (List.Subset.refl _) inv_empty
  refine ⟨s', hs', hinv.component, hinv.nodup, fun v => ?_⟩
  rw [hinv.done v, hinv.stack_nil]
  refine ⟨fun ⟨⟨i, hi⟩, _⟩ => hinv.inside v i hi, fun hv => ⟨hall v hv, List.not_mem_nil⟩⟩

end Search

end Tarjan

end Graphs
