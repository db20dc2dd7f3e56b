import Proxiima.SeriesErase.EraseOrder

/-!
# Units are components, referrers first

Placed series are referenced by placed series only, and each count is that of the pending
referrers. So a series that is ready, and a ring that no other pending series references, are
components of the whole graph, and no count underflows.
-/

namespace Proxiima.SeriesErase

open Graphs

variable {refs : References} {pending : Pending} {order units : List (List Uuid)}
  {handles : List Uuid}

/-! ### Counts -/

lemma decrement_eq {target : Uuid} {p : Pending} (hnodup : (p.map Prod.fst).Nodup)
    (hpos : ∀ n, (target, n) ∈ p → 0 < n) : decrement target p =
      some (p.map fun q => (q.1, q.2 - if q.1 = target then 1 else 0)) := by
  induction p with
  | nil => rfl
  | cons q rest ih =>
    obtain ⟨h, n⟩ := q
    obtain ⟨hnot, hnodup⟩ := List.nodup_cons.1 hnodup
    unfold decrement
    by_cases heq : h = target
    · subst heq
      have hn : n ≠ 0 := Nat.pos_iff_ne_zero.1 (hpos n List.mem_cons_self)
      have hrest : rest.map (fun q => (q.1, q.2 - if q.1 = h then 1 else 0)) = rest := by
        refine (List.map_congr_left fun q hq => ?_).trans (List.map_id rest)
        have hne : q.1 ≠ h := fun heq => hnot (List.mem_map.2 ⟨q, hq, heq⟩)
        simp [hne]
      simp [hn, hrest]
    · rw [if_neg heq, ih hnodup fun m hm => hpos m (List.mem_cons_of_mem _ hm)]
      simp [heq]

lemma decrement_all {targets : List Uuid} {p : Pending} (hnodup : (p.map Prod.fst).Nodup)
    (hle : ∀ q ∈ p, targets.count q.1 ≤ q.2) :
    targets.foldlM (fun p target => decrement target p) p =
      some (p.map fun q => (q.1, q.2 - targets.count q.1)) := by
  induction targets generalizing p with
  | nil => simp
  | cons t targets ih =>
    have hpos : ∀ n, (t, n) ∈ p → 0 < n := fun n hn => by
      have := hle _ hn
      rw [List.count_cons_self] at this
      omega
    rw [List.foldlM_cons, decrement_eq hnodup hpos]
    refine (ih (by simpa [Function.comp_def] using hnodup) fun q hq => ?_).trans ?_
    · obtain ⟨q', hq', rfl⟩ := List.mem_map.1 hq
      have hcount := hle q' hq'
      rw [List.count_cons] at hcount
      by_cases heq : t = q'.1
      · simp only [heq, beq_self_eq_true, if_true] at hcount ⊢
        omega
      · simp only [beq_iff_eq, heq, if_false, Ne.symm heq] at hcount ⊢
        omega
    · simp only [List.map_map, Option.some.injEq]
      refine List.map_congr_left fun q _ => ?_
      simp only [Function.comp_apply, List.count_cons, beq_iff_eq, Prod.mk.injEq, true_and]
      rw [Nat.sub_sub, Nat.add_comm]
      simp only [eq_comm]

/-- How often the placed series reference a series. -/
lemma count_references (placed : List Uuid) (h : Uuid) :
    (placed.flatMap (referencesOf refs)).count h =
      (placed.filter fun a => (a, h) ∈ refs).length := by
  induction placed with
  | nil => rfl
  | cons a placed ih =>
    rw [List.flatMap_cons, List.count_append, ih, List.filter_cons]
    have hnodup : (referencesOf refs a).Nodup := nodup_btreeSet _
    by_cases hmem : (a, h) ∈ refs
    · rw [List.count_eq_one_of_mem hnodup (mem_referencesOf.2 hmem)]
      simp [hmem, Nat.add_comm]
    · rw [List.count_eq_zero_of_not_mem fun hin => hmem (mem_referencesOf.1 hin)]
      simp [hmem]

/-! ### Rings -/

variable {ring set : List Uuid} {h : Uuid} {components : List (List Uuid)}

lemma mem_below : h ∈ below refs ring ↔ h ∈ ring ∧ ∀ x ∈ ring, (h, x) ∉ refs := by
  simp only [below, List.mem_filter, List.all_eq_true, mem_referencesOf, decide_eq_true_eq]
  exact and_congr_right fun _ => ⟨fun hall x hx href => hall x href hx,
    fun hall x href hx => hall x hx href⟩

lemma mem_without {gone : List Uuid} : h ∈ without ring gone ↔ h ∈ ring ∧ h ∉ gone := by
  simp [without]

/-- Where each series has a referrer, what is left after peeling is not empty and nothing peeled
references it. -/
lemma peel_spec (hne : ring ≠ []) (hreferrer : ∀ h ∈ ring, ∃ a ∈ ring, (a, h) ∈ refs) :
    peel refs ring ≠ [] ∧ peel refs ring ⊆ ring ∧
      ∀ a ∈ ring, ∀ b ∈ peel refs ring, (a, b) ∈ refs → a ∈ peel refs ring := by
  fun_induction peel refs ring with
  | case1 ring h => exact ⟨hne, List.Subset.refl _, fun a ha _ _ _ => ha⟩
  | case2 ring h hlen ih =>
    -- a referrer of what is left is left too
    have hleft : ∀ x ∈ ring, ∃ a ∈ without ring (below refs ring), (a, x) ∈ refs := by
      intro x hx
      obtain ⟨a, ha, hax⟩ := hreferrer x hx
      exact ⟨a, mem_without.2 ⟨ha, fun hbelow => (mem_below.1 hbelow).2 x hx hax⟩, hax⟩
    have hne' : without ring (below refs ring) ≠ [] := by
      obtain ⟨x, hx⟩ := List.exists_mem_of_ne_nil _ hne
      obtain ⟨a, ha, -⟩ := hleft x hx
      exact List.ne_nil_of_mem ha
    obtain ⟨hnonempty, hsub, hinto⟩ := ih hne' fun x hx => hleft x (mem_without.1 hx).1
    refine ⟨hnonempty, fun x hx => (mem_without.1 (hsub hx)).1, fun a ha b hb hab => ?_⟩
    refine hinto a (mem_without.2 ⟨ha, fun hbelow => ?_⟩) b hb hab
    exact (mem_below.1 hbelow).2 b (mem_without.1 (hsub hb)).1 hab

lemma mem_within {a b : Uuid} : b ∈ within refs set a ↔ (a, b) ∈ refs ∧ b ∈ set := by
  simp [within]

lemma componentOf_lt (hmem : ∃ c ∈ components, h ∈ c) :
    ∃ c, components[componentOf components h]? = some c ∧ h ∈ c := by
  obtain ⟨c, hc, hh⟩ := hmem
  have hlt : componentOf components h < components.length :=
    List.findIdx_lt_length_of_exists ⟨c, hc, by simpa using hh⟩
  refine ⟨_, List.getElem?_eq_getElem hlt, ?_⟩
  exact of_decide_eq_true (List.findIdx_getElem (w := hlt))

lemma componentOf_eq (hnodup : components.flatten.Nodup) {c : ℕ} {members : List Uuid}
    (hc : components[c]? = some members) (hh : h ∈ members) : componentOf components h = c := by
  obtain ⟨members', hc', hh'⟩ := componentOf_lt ⟨members, List.mem_of_getElem? hc, hh⟩
  by_contra hne
  have hdisj := (List.nodup_flatten.1 hnodup).2
  rw [List.pairwise_iff_getElem] at hdisj
  obtain ⟨hlt, rfl⟩ := List.getElem?_eq_some_iff.1 hc
  obtain ⟨hlt', rfl⟩ := List.getElem?_eq_some_iff.1 hc'
  rcases Nat.lt_or_gt_of_ne hne with hlt'' | hlt''
  · exact hdisj _ _ hlt' hlt hlt'' hh' hh
  · exact hdisj _ _ hlt hlt' hlt'' hh hh'

lemma incoming_iff {c : ℕ} :
    incoming refs set components c = true ↔ ∃ a ∈ set, ∃ b ∈ within refs set a,
      componentOf components a ≠ c ∧ componentOf components b = c := by
  simp only [incoming, List.any_eq_true, Bool.and_eq_true, decide_eq_true_eq]
  refine exists_congr fun a => and_congr_right fun _ => exists_congr fun b => and_congr_right
    fun _ =>
    and_congr_left fun heq => ?_
  rw [heq]

/-- The component that is found is connected, and no other series of the set references it. -/
lemma sourceComponent_spec (refs : References) (hne : set ≠ []) :
    ∃ c, sourceComponent set refs = some c ∧ c ⊆ set ∧ c.Nodup ∧
      (∃ v ∈ c, ∀ w ∈ c, Reach (referencesOf refs) v w ∧ Reach (referencesOf refs) w v) ∧
      ∀ a ∈ set, ∀ b ∈ c, (a, b) ∈ refs → a ∈ c := by
  have hclosed : ∀ u ∈ set, ∀ x ∈ within refs set u, x ∈ set := fun u _ x hx => (mem_within.1 hx).2
  obtain ⟨s, hs, hcomp, hnodup, hcover⟩ := Tarjan.search_components hclosed
  have hfull : ∀ v w, Reach (within refs set) v w → Reach (referencesOf refs) v w := fun v w =>
    Reach.mono fun v x hx => mem_referencesOf.2 (mem_within.1 hx).1
  -- some component has no incoming reference
  have hsource : (List.range s.components.length).filter
      (fun c => !incoming refs set s.components c) ≠ [] := by
    obtain ⟨v, hv, hmin⟩ := exists_source (within refs set) hne
    obtain ⟨members, hc, hvc⟩ := componentOf_lt ((hcover v).2 hv)
    refine List.ne_nil_of_mem (a := componentOf s.components v) (List.mem_filter.2 ⟨?_, ?_⟩)
    · exact List.mem_range.2 (List.getElem?_eq_some_iff.1 hc).1
    · rw [Bool.not_eq_true', Bool.eq_false_iff]
      intro hin
      obtain ⟨a, ha, b, hb, hab, heq⟩ := incoming_iff.1 hin
      obtain ⟨members', hc', hbc⟩ := componentOf_lt ((hcover b).2 (mem_within.1 hb).2)
      rw [heq] at hc'
      obtain rfl := Option.mem_unique hc hc'
      have hmc := hcomp members (List.mem_of_getElem? hc)
      have hav : Reach (within refs set) a v := .head hb (hmc.reach hbc hvc)
      exact hab (componentOf_eq hnodup hc (hmc.mem hvc (hmin a ha hav) hav))
  obtain ⟨c, hc⟩ := Option.isSome_iff_exists.1
    (List.isSome_minOn?_iff (f := oldest s.components) |>.2 hsource)
  obtain ⟨hrange, hsrc⟩ := List.mem_filter.1 (List.minOn?_mem hc)
  have hlt := List.mem_range.1 hrange
  have hget : s.components[c]? = some s.components[c] := List.getElem?_eq_getElem hlt
  have hmc := hcomp _ (List.getElem_mem hlt)
  refine ⟨s.components[c].insertionSort (· ≤ ·), ?_, fun x hx => ?_, ?_, ?_,
    fun a ha b hb hab => ?_⟩
  · simp only [sourceComponent, hne, if_false, hs, Option.bind_eq_bind, Option.bind_some, hc,
      Option.getD_some, hget]
  · exact (hcover x).1 ⟨_, List.getElem_mem hlt, (List.mem_insertionSort _).1 hx⟩
  · exact (List.perm_insertionSort _ _).nodup_iff.2
      ((List.nodup_flatten.1 hnodup).1 _ (List.getElem_mem hlt))
  · obtain ⟨v, hv, -⟩ := id hmc
    refine ⟨v, (List.mem_insertionSort _).2 hv, fun w hw => ?_⟩
    have hw' := (List.mem_insertionSort _).1 hw
    exact ⟨hfull _ _ (hmc.reach hv hw'), hfull _ _ (hmc.reach hw' hv)⟩
  · rw [List.mem_insertionSort] at hb ⊢
    have hbset : b ∈ set := (hcover b).1 ⟨_, List.getElem_mem hlt, hb⟩
    have hb' := componentOf_eq hnodup hget hb
    by_contra hnot
    rw [Bool.not_eq_true', Bool.eq_false_iff] at hsrc
    refine hsrc (incoming_iff.2 ⟨a, ha, b, mem_within.2 ⟨hab, hbset⟩, fun heq => ?_, hb'⟩)
    obtain ⟨members, hm, ham⟩ := componentOf_lt ((hcover a).2 ha)
    rw [heq, hget] at hm
    exact hnot (Option.some.inj hm ▸ ham)

/-! ### One step -/

/-- What holds while series are placed. -/
structure Placing (refs : References) (handles : List Uuid) (pending : Pending)
    (order : List (List Uuid)) : Prop where
  nodup : (order.flatten ++ pending.map Prod.fst).Nodup
  mem : ∀ h, h ∈ order.flatten ++ pending.map Prod.fst ↔ h ∈ handles
  counts : ∀ p ∈ pending, p.2 = ((pending.map Prod.fst).filter fun a => (a, p.1) ∈ refs).length
  closed : ∀ a b, (a, b) ∈ refs → b ∈ order.flatten → a ∈ order.flatten
  units : ∀ u ∈ order, IsComponent (referencesOf refs) u
  ordered : order.Pairwise fun u u' => ∀ a ∈ u', ∀ b ∈ u, (a, b) ∉ refs

/-- Units of connected pending series that no other pending series references. -/
structure Sources (refs : References) (pending : Pending) (units : List (List Uuid)) : Prop where
  nonempty : units ≠ []
  sub : units.flatten ⊆ pending.map Prod.fst
  nodup : units.flatten.Nodup
  connected : ∀ u ∈ units, ∃ v ∈ u, ∀ w ∈ u,
    Reach (referencesOf refs) v w ∧ Reach (referencesOf refs) w v
  into : ∀ u ∈ units, ∀ a ∈ pending.map Prod.fst, ∀ b ∈ u, (a, b) ∈ refs → a ∈ u

lemma nextUnits_spec (h : Placing refs handles pending order) (hne : pending ≠ []) :
    ∃ units, nextUnits refs pending = some units ∧ Sources refs pending units := by
  unfold nextUnits
  by_cases hready : (pending.filter fun p => p.2 = 0).map Prod.fst = []
  · -- each pending series has a pending referrer
    have hreferrer : ∀ x ∈ pending.map Prod.fst, ∃ a ∈ pending.map Prod.fst, (a, x) ∈ refs := by
      intro x hx
      obtain ⟨p, hp, rfl⟩ := List.mem_map.1 hx
      have hpos : p.2 ≠ 0 := by
        intro hzero
        have : p ∈ pending.filter fun p => p.2 = 0 := by simp [hp, hzero]
        rw [List.map_eq_nil_iff.1 hready] at this
        exact List.not_mem_nil this
      rw [h.counts p hp] at hpos
      obtain ⟨a, ha⟩ := List.exists_mem_of_length_pos (Nat.pos_iff_ne_zero.2 hpos)
      obtain ⟨hmem, href⟩ := List.mem_filter.1 ha
      exact ⟨a, hmem, by simpa using href⟩
    obtain ⟨hnonempty, hsub, hpeeled⟩ := peel_spec (by simpa using hne) hreferrer
    obtain ⟨c, hc, hcsub, hcnodup, hconn, hinto⟩ := sourceComponent_spec refs hnonempty
    refine ⟨[c], by simp [hready, ring, hc], by simp, ?_, by simpa using hcnodup, ?_, ?_⟩
    · rw [List.flatten_singleton]
      exact fun x hx => hsub (hcsub hx)
    · simpa using hconn
    · intro u hu a ha b hb hab
      obtain rfl := List.mem_singleton.1 hu
      exact hinto a (hpeeled a ha b (hcsub hb) hab) b hb hab
  · have hflat : ((((pending.filter fun p => p.2 = 0).map Prod.fst).map fun h => [h]).flatten) =
        (pending.filter fun p => p.2 = 0).map Prod.fst := by
      rw [← List.flatMap_def, List.flatMap_singleton']
    have hsublist : ((pending.filter fun p => p.2 = 0).map Prod.fst).Sublist
        (pending.map Prod.fst) := List.filter_sublist.map _
    refine ⟨_, if_neg hready, by simpa using hready, ?_, ?_, fun u hu => ?_,
      fun u hu a ha b hb hab => ?_⟩
    · rw [hflat]
      exact hsublist.subset
    · rw [hflat]
      exact h.nodup.of_append_right.sublist hsublist
    · obtain ⟨x, -, rfl⟩ := List.mem_map.1 hu
      refine ⟨x, List.mem_cons_self, fun w hw => ?_⟩
      obtain rfl := List.mem_singleton.1 hw
      exact ⟨.refl, .refl⟩
    · obtain ⟨x, hx, rfl⟩ := List.mem_map.1 hu
      obtain rfl := List.mem_singleton.1 hb
      obtain ⟨p, hp, rfl⟩ := List.mem_map.1 hx
      obtain ⟨hp, hzero⟩ := List.mem_filter.1 hp
      -- a count of zero leaves no pending referrer
      have hcount := h.counts p hp
      rw [of_decide_eq_true hzero, eq_comm, List.length_eq_zero_iff,
        List.filter_eq_nil_iff] at hcount
      exact absurd (decide_eq_true hab) (hcount a ha)

lemma Placing.notMem_order (h : Placing refs handles pending order) {x : Uuid}
    (hx : x ∈ pending.map Prod.fst) : x ∉ order.flatten := fun hmem =>
  List.disjoint_of_nodup_append h.nodup hmem hx

/-- The pending series that are not placed now. -/
lemma keys_filter (placed : List Uuid) :
    (pending.filter fun p => p.1 ∉ placed).map Prod.fst =
      (pending.map Prod.fst).filter fun x => x ∉ placed := by
  rw [List.filter_map]
  rfl

/-- The counts go down by the referrers that are placed. -/
lemma release_spec (h : Placing refs handles pending order) (hs : Sources refs pending units) :
    ∃ pending', release refs units.flatten (pending.filter fun p => p.1 ∉ units.flatten) =
        some pending' ∧
      pending'.map Prod.fst = (pending.map Prod.fst).filter (fun x => x ∉ units.flatten) ∧
      ∀ p ∈ pending', p.2 = ((pending'.map Prod.fst).filter fun a => (a, p.1) ∈ refs).length := by
  have hnodup : (pending.map Prod.fst).Nodup := h.nodup.of_append_right
  -- the pending series are those placed now and the others
  have hperm : (units.flatten ++ (pending.map Prod.fst).filter fun x => x ∉ units.flatten).Perm
      (pending.map Prod.fst) := by
    rw [List.perm_ext_iff_of_nodup ?_ hnodup]
    · intro x
      simp only [List.mem_append, List.mem_filter, decide_eq_true_eq]
      refine ⟨fun hx => hx.elim (hs.sub ·) (·.1), fun hx => ?_⟩
      by_cases hmem : x ∈ units.flatten
      · exact .inl hmem
      · exact .inr ⟨hx, hmem⟩
    · rw [List.nodup_append]
      refine ⟨hs.nodup, hnodup.filter _, fun a ha b hb heq => ?_⟩
      exact of_decide_eq_true (List.mem_filter.1 hb).2 (heq ▸ ha)
  have hsplit : ∀ x, ((pending.map Prod.fst).filter fun a => (a, x) ∈ refs).length =
      (units.flatten.filter fun a => (a, x) ∈ refs).length +
        (((pending.map Prod.fst).filter fun x => x ∉ units.flatten).filter fun a =>
          (a, x) ∈ refs).length := by
    intro x
    rw [← (hperm.filter _).length_eq, List.filter_append, List.length_append]
  have hcount : ∀ q ∈ pending.filter fun p => p.1 ∉ units.flatten,
      (units.flatten.flatMap (referencesOf refs)).count q.1 ≤ q.2 := by
    intro q hq
    rw [count_references, h.counts q (List.mem_of_mem_filter hq), hsplit]
    exact Nat.le_add_right _ _
  refine ⟨_, decrement_all ?_ hcount, ?_, fun p hp => ?_⟩
  · rw [keys_filter]
    exact hnodup.filter _
  · rw [List.map_map, ← keys_filter]
    rfl
  · obtain ⟨q, hq, rfl⟩ := List.mem_map.1 hp
    rw [List.map_map]
    change q.2 - _ = (((pending.filter fun p => p.1 ∉ units.flatten).map Prod.fst).filter _).length
    rw [count_references, h.counts q (List.mem_of_mem_filter hq), hsplit, keys_filter,
      Nat.add_sub_cancel_left]

/-- Sources among what is pending are components. -/
lemma Placing.component (h : Placing refs handles pending order)
    (hrefs : ∀ a b, (a, b) ∈ refs → a ∈ handles) (hs : Sources refs pending units) {u : List Uuid}
    (hu : u ∈ units) : IsComponent (referencesOf refs) u := by
  obtain ⟨v, hv, hconn⟩ := hs.connected u hu
  have hpending : v ∈ pending.map Prod.fst := hs.sub (List.mem_flatten.2 ⟨u, hu, hv⟩)
  refine isComponent_of_source (· ∈ order.flatten) hv hconn (h.notMem_order hpending)
    (fun a b hab => h.closed a b (mem_referencesOf.1 hab)) fun a b hab hb => ?_
  have href := mem_referencesOf.1 hab
  rcases List.mem_append.1 ((h.mem a).2 (hrefs a b href)) with ha | ha
  · exact .inr ha
  · exact .inl (hs.into u hu a ha b hb href)

lemma Placing.step (h : Placing refs handles pending order)
    (hrefs : ∀ a b, (a, b) ∈ refs → a ∈ handles) (hs : Sources refs pending units)
    {pending' : Pending}
    (hkeys : pending'.map Prod.fst = (pending.map Prod.fst).filter fun x => x ∉ units.flatten)
    (hcounts : ∀ p ∈ pending',
      p.2 = ((pending'.map Prod.fst).filter fun a => (a, p.1) ∈ refs).length) :
    Placing refs handles pending' (order ++ units) where
  nodup := by
    obtain ⟨horder, hpending, hdisj⟩ := List.nodup_append.1 h.nodup
    rw [hkeys, List.flatten_append, List.append_assoc, List.nodup_append]
    refine ⟨horder, ?_, fun a ha b hb heq => ?_⟩
    · rw [List.nodup_append]
      refine ⟨hs.nodup, hpending.filter _, fun a ha b hb heq => ?_⟩
      exact of_decide_eq_true (List.mem_filter.1 hb).2 (heq ▸ ha)
    · subst heq
      refine h.notMem_order ?_ ha
      exact (List.mem_append.1 hb).elim (hs.sub ·) List.mem_of_mem_filter
  mem x := by
    rw [← h.mem x, hkeys, List.flatten_append]
    simp only [List.mem_append, List.mem_filter, decide_eq_true_eq]
    constructor
    · rintro ((hx | hx) | ⟨hx, -⟩)
      · exact .inl hx
      · exact .inr (hs.sub hx)
      · exact .inr hx
    · rintro (hx | hx)
      · exact .inl (.inl hx)
      · by_cases hmem : x ∈ units.flatten
        · exact .inl (.inr hmem)
        · exact .inr ⟨hx, hmem⟩
  counts := hcounts
  closed a b hab hb := by
    rw [List.flatten_append] at hb ⊢
    rcases List.mem_append.1 hb with hb | hb
    · exact List.mem_append_left _ (h.closed a b hab hb)
    · obtain ⟨u, hu, hbu⟩ := List.mem_flatten.1 hb
      rcases List.mem_append.1 ((h.mem a).2 (hrefs a b hab)) with ha | ha
      · exact List.mem_append_left _ ha
      · exact List.mem_append_right _ (List.mem_flatten.2 ⟨u, hu, hs.into u hu a ha b hbu hab⟩)
  units u hu := by
    rcases List.mem_append.1 hu with hu | hu
    · exact h.units u hu
    · exact h.component hrefs hs hu
  ordered := by
    rw [List.pairwise_append]
    refine ⟨h.ordered, ?_, fun u hu u' hu' a ha b hb hab => ?_⟩
    · -- the units do not meet, and none references another
      refine (List.nodup_flatten.1 hs.nodup).2.imp_of_mem fun hu hu' hdisj a ha b hb hab => ?_
      have ha' := hs.sub (List.mem_flatten.2 ⟨_, hu', ha⟩)
      exact hdisj (hs.into _ hu a ha' b hb hab) ha
    · have ha' := hs.sub (List.mem_flatten.2 ⟨u', hu', ha⟩)
      exact h.notMem_order ha' (h.closed a b hab (List.mem_flatten.2 ⟨u, hu, hb⟩))

/-! ### The loop -/

lemma orderLoop_spec (hrefs : ∀ a b, (a, b) ∈ refs → a ∈ handles) {fuel : ℕ}
    (h : Placing refs handles pending order) (hfuel : pending.length ≤ fuel) :
    ∃ order', orderLoop refs fuel pending order = some order' ∧ Placing refs handles [] order' := by
  induction fuel generalizing pending order with
  | zero =>
    obtain rfl := List.eq_nil_of_length_eq_zero (Nat.le_zero.1 hfuel)
    exact ⟨order, by simp [orderLoop], h⟩
  | succ fuel ih =>
    by_cases hne : pending = []
    · subst hne
      exact ⟨order, by simp [orderLoop], h⟩
    obtain ⟨units, hunits, hs⟩ := nextUnits_spec h hne
    obtain ⟨pending', hrelease, hkeys, hcounts⟩ := release_spec h hs
    -- a series is placed, so fewer are pending
    have hless : pending'.length ≤ fuel := by
      obtain ⟨u, hu⟩ := List.exists_mem_of_ne_nil _ hs.nonempty
      obtain ⟨v, hv, -⟩ := hs.connected u hu
      have hv' : v ∈ units.flatten := List.mem_flatten.2 ⟨u, hu, hv⟩
      have hlen : pending'.length ≤ pending.length := by
        have := congrArg List.length hkeys
        rw [List.length_map] at this
        rw [this, ← List.length_map Prod.fst]
        exact List.length_filter_le _ _
      refine Nat.le_of_lt_succ (Nat.lt_of_lt_of_le (Nat.lt_of_le_of_ne hlen fun heq => ?_) hfuel)
      have heq' : (pending'.map Prod.fst).length = (pending.map Prod.fst).length := by
        rw [List.length_map, List.length_map, heq]
      rw [hkeys] at heq'
      exact of_decide_eq_true (List.length_filter_eq_length_iff.1 heq' v (hs.sub hv')) hv'
    obtain ⟨order', hloop, hfinal⟩ := ih (h.step hrefs hs hkeys hcounts) hless
    refine ⟨order', ?_, hfinal⟩
    unfold orderLoop
    simp only [hne, if_false, hunits, hrelease, hloop, Option.bind_eq_bind, Option.bind_some]

/-! ### Where the loop begins -/

lemma handles_sorted (closure : Footprint) : closure.handles.Pairwise (· < ·) := by
  have hsorted : closure.handles.Pairwise (· ≤ ·) := List.pairwise_insertionSort _ _
  have hnodup : closure.handles.Nodup := nodup_btreeSet _
  exact hsorted.imp₂ (fun _ _ hle hne => Nat.lt_of_le_of_ne hle hne) hnodup

lemma bump_map {target : Uuid} {f : Uuid → ℕ} (hsorted : handles.Pairwise (· < ·))
    (hmem : target ∈ handles) : bump target (handles.map fun h => (h, f h)) =
      handles.map fun h => (h, f h + if h = target then 1 else 0) := by
  induction handles with
  | nil => cases hmem
  | cons x rest ih =>
    obtain ⟨hlt, hsorted⟩ := List.pairwise_cons.1 hsorted
    simp only [List.map_cons, bump]
    by_cases heq : x = target
    · subst heq
      have hrest : rest.map (fun h => (h, f h + if h = x then 1 else 0)) =
          rest.map fun h => (h, f h) := by
        refine List.map_congr_left fun h hh => ?_
        simp [(hlt h hh).ne']
      simp [hrest]
    · have hmem' : target ∈ rest := (List.mem_cons.1 hmem).resolve_left (Ne.symm heq)
      rw [if_neg heq, if_neg (Nat.not_lt.2 (hlt target hmem').le), ih hsorted hmem']
      simp [heq]

lemma countReferences_spec (hsorted : handles.Pairwise (· < ·)) (edges : List (Uuid × Uuid))
    (hedges : ∀ e ∈ edges, e.2 ∈ handles) (hnodup : refs.Nodup) :
    ∃ refs', edges.foldl addReference
        (refs, handles.map fun h => (h, (refs.filter fun r => r.2 = h).length)) =
        (refs', handles.map fun h => (h, (refs'.filter fun r => r.2 = h).length)) ∧
      refs'.Nodup ∧ ∀ e, e ∈ refs' ↔ e ∈ refs ∨ e ∈ edges := by
  induction edges generalizing refs with
  | nil => exact ⟨refs, rfl, hnodup, by simp⟩
  | cons e edges ih =>
    have hedges' : ∀ e ∈ edges, e.2 ∈ handles :=
      fun e' he' => hedges e' (List.mem_cons_of_mem _ he')
    rw [List.foldl_cons, addReference]
    by_cases hmem : e ∈ refs
    · rw [if_pos hmem]
      obtain ⟨refs', hfold, hnodup', hiff⟩ := ih hedges' hnodup
      refine ⟨refs', hfold, hnodup', fun x => (hiff x).trans ?_⟩
      rw [List.mem_cons]
      exact ⟨fun h => h.imp id .inr, fun h => h.elim .inl
        fun h => h.elim (fun h => .inl (h ▸ hmem)) .inr⟩
    · rw [if_neg hmem]
      have hnodup' : (refs ++ [e]).Nodup := by
        rw [List.nodup_append]
        exact ⟨hnodup, by simp, fun a ha b hb heq => hmem (List.mem_singleton.1 hb ▸ heq ▸ ha)⟩
      have hbump : bump e.2 (handles.map fun h => (h, (refs.filter fun r => r.2 = h).length)) =
          handles.map fun h => (h, ((refs ++ [e]).filter fun r => r.2 = h).length) := by
        rw [bump_map hsorted (hedges e List.mem_cons_self)]
        refine List.map_congr_left fun h _ => ?_
        rw [List.filter_append, List.length_append]
        by_cases heq : e.2 = h
        · simp [heq]
        · simp [heq, Ne.symm heq]
      rw [hbump]
      obtain ⟨refs', hfold, hnodup'', hiff⟩ := ih hedges' hnodup'
      refine ⟨refs', hfold, hnodup'', fun x => (hiff x).trans ?_⟩
      simp [or_assoc]

namespace Footprint

/-- One series references another. -/
def Refers (closure : Footprint) (a b : Uuid) : Prop :=
  a ≠ b ∧ ∃ r ∈ closure.references, closure.seriesOf r.1 = some a ∧ closure.seriesOf r.2 = some b

variable {closure : Footprint}

lemma edge_eq_some {r : Uuid × Uuid} {a b : Uuid} :
    closure.edge r = some (a, b) ↔
      a ≠ b ∧ closure.seriesOf r.1 = some a ∧ closure.seriesOf r.2 = some b := by
  unfold edge
  cases h₁ : closure.seriesOf r.1 <;> cases h₂ : closure.seriesOf r.2
  all_goals simp only [reduceCtorEq, false_and, and_false, Option.some.injEq]
  constructor
  · intro h
    obtain ⟨hne, heq⟩ := Option.ite_none_right_eq_some.1 h
    obtain ⟨rfl, rfl⟩ := Prod.mk.inj (Option.some.inj heq)
    exact ⟨hne, rfl, rfl⟩
  · rintro ⟨hne, rfl, rfl⟩
    exact if_pos hne

lemma seriesOf_mem {t : Uuid} (ht : closure.seriesOf t = some h) : h ∈ closure.handles := by
  obtain ⟨v, hv, rfl⟩ := Option.map_eq_some_iff.1 ht
  obtain ⟨l₁, l₂, hversions, -⟩ := List.lookup_eq_some_iff.1 hv
  exact mem_btreeSet.2 (List.mem_map.2 ⟨(t, v), by simp [hversions], rfl⟩)

end Footprint

lemma placing_start (closure : Footprint) : ∃ refs pending,
    countReferences closure = (refs, pending) ∧ Placing refs closure.handles pending [] ∧
      ∀ a b, (a, b) ∈ refs ↔ closure.Refers a b := by
  have hsorted := handles_sorted closure
  have hedges : ∀ e ∈ closure.references.filterMap closure.edge, e.2 ∈ closure.handles := by
    rintro ⟨a, b⟩ he
    obtain ⟨r, -, hr⟩ := List.mem_filterMap.1 he
    exact Footprint.seriesOf_mem (Footprint.edge_eq_some.1 hr).2.2
  obtain ⟨refs, hfold, hnodup, hiff⟩ := countReferences_spec hsorted _ hedges List.nodup_nil
  have hrefs : ∀ a b, (a, b) ∈ refs ↔ closure.Refers a b := by
    intro a b
    rw [hiff]
    simp only [List.not_mem_nil, false_or, List.mem_filterMap, Footprint.edge_eq_some,
      Footprint.Refers]
    constructor
    · rintro ⟨r, hr, hne, h⟩
      exact ⟨hne, r, hr, h⟩
    · rintro ⟨hne, r, hr, h⟩
      exact ⟨r, hr, hne, h⟩
  have hhandles : closure.handles.Nodup := nodup_btreeSet _
  refine ⟨refs, _, hfold, ⟨?_, ?_, ?_, ?_, ?_, .nil⟩, hrefs⟩
  · simpa [Function.comp_def] using hhandles
  · simp [Function.comp_def]
  · intro p hp
    obtain ⟨h, -, rfl⟩ := List.mem_map.1 hp
    -- the referrers, once as pairs and once among the series
    have hperm : ((refs.filter fun r => r.2 = h).map Prod.fst).Perm
        (closure.handles.filter fun a => (a, h) ∈ refs) := by
      rw [List.perm_ext_iff_of_nodup _ (hhandles.filter _)]
      · intro a
        simp only [List.mem_map, List.mem_filter, decide_eq_true_eq]
        constructor
        · rintro ⟨⟨a, b⟩, ⟨hmem, rfl⟩, rfl⟩
          obtain ⟨-, r, -, ha, -⟩ := (hrefs a b).1 hmem
          exact ⟨Footprint.seriesOf_mem ha, hmem⟩
        · exact fun hmem => ⟨(a, h), ⟨hmem.2, rfl⟩, rfl⟩
      · refine (hnodup.filter _).map_on fun r hr r' hr' heq => Prod.ext heq ?_
        exact (of_decide_eq_true (List.mem_filter.1 hr).2).trans
          (of_decide_eq_true (List.mem_filter.1 hr').2).symm
    simpa [Function.comp_def] using hperm.length_eq
  · exact fun a b _ hb => (List.not_mem_nil hb).elim
  · exact fun u hu => (List.not_mem_nil hu).elim

/-- **The order of an erase**: the loop ends and no count underflows. The units hold each series
once, each is a component of the references between series, and a unit that references another
comes before it. -/
theorem eraseOrder_units (closure : Footprint) : ∃ order, eraseOrder closure = some order ∧
    order.flatten.Nodup ∧ (∀ h, h ∈ order.flatten ↔ h ∈ closure.handles) ∧ (∀ u ∈ order, u ≠ []) ∧
    (∀ u ∈ order, ∀ a ∈ u, ∀ b, b ∈ u ↔
      Relation.ReflTransGen closure.Refers a b ∧ Relation.ReflTransGen closure.Refers b a) ∧
    ∀ (i j : ℕ) u u' a b, order[i]? = some u → order[j]? = some u' → i ≠ j → a ∈ u → b ∈ u' →
      closure.Refers a b → i < j := by
  obtain ⟨refs, pending, hcount, hplacing, hrefs⟩ := placing_start closure
  have hends : ∀ a b, (a, b) ∈ refs → a ∈ closure.handles := by
    intro a b hab
    obtain ⟨-, r, -, ha, -⟩ := (hrefs a b).1 hab
    exact Footprint.seriesOf_mem ha
  obtain ⟨order, hloop, hfinal⟩ := orderLoop_spec hends hplacing (Nat.le_refl _)
  have hgraph : (fun v w => w ∈ referencesOf refs v) = closure.Refers := by
    funext v w
    exact propext (mem_referencesOf.trans (hrefs v w))
  refine ⟨order, ?_, by simpa using hfinal.nodup, by simpa using hfinal.mem, fun u hu => ?_,
    fun u hu a ha b => ?_, fun i j u u' a b hi hj hne ha hb hab => ?_⟩
  · simp only [eraseOrder, hcount, hloop]
  · obtain ⟨v, hv, -⟩ := hfinal.units u hu
    exact List.ne_nil_of_mem hv
  · have hunit := hfinal.units u hu
    rw [← hgraph]
    exact ⟨fun hb => ⟨hunit.reach ha hb, hunit.reach hb ha⟩, fun ⟨hab, hba⟩ => hunit.mem ha hab hba⟩
  · by_contra hle
    have hlt : j < i := by omega
    obtain ⟨hi', rfl⟩ := List.getElem?_eq_some_iff.1 hi
    obtain ⟨hj', rfl⟩ := List.getElem?_eq_some_iff.1 hj
    exact List.pairwise_iff_getElem.1 hfinal.ordered j i hj' hi' hlt a ha b hb ((hrefs a b).2 hab)

end Proxiima.SeriesErase
