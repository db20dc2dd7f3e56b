import Proxiima.Edges.PinRead

/-!
# The listing behind the pages

The edges a caller may list under a filter, in the order of their keys, are served page by page
without loss or repeat exactly when no row pins one of them twice: the key of an edge is its place
in the order, and a cursor cannot stop between two edges with the same one.
-/

namespace Proxiima.Edges

open Paging

variable {R : Reader} {f : EdgeFilter} {hop z : PinHop} {cursor : Option EdgeReadCursor} {limit : ℕ}

/-! ### Order -/

/-- The first is listed before the second. -/
def Newer (a b : PinHop) : Prop := hopKey b < hopKey a

instance : DecidableRel Newer := fun a b => inferInstanceAs (Decidable (hopKey b < hopKey a))
instance : Std.Irrefl Newer := ⟨fun _ => lt_irrefl _⟩
instance : Std.Antisymm Newer := ⟨fun _ _ h h' => absurd h' (lt_asymm h)⟩
instance : Std.Total fun a b : PinHop => hopKey b ≤ hopKey a := ⟨fun _ _ => le_total _ _⟩
instance : IsTrans PinHop fun a b => hopKey b ≤ hopKey a := ⟨fun _ _ _ h h' => le_trans h' h⟩

variable {a b : PinHop} {hops : List PinHop} {rows : List PinNodeRow} {row : PinNodeRow}
  {kind : Option EdgeKind} {target : EntityRef} {id : Uuid}

lemma newer_of_source_lt (h : b.sourceId < a.sourceId) : Newer a b := by
  have hle : pinCreatedAt b.sourceId ≤ pinCreatedAt a.sourceId := Nat.div_le_div_right (le_of_lt h)
  refine Prod.Lex.toLex_lt_toLex.2 ?_
  rcases hle.lt_or_eq with hlt | heq
  · exact .inl hlt
  · exact .inr ⟨heq, Prod.Lex.toLex_lt_toLex.2 (.inl h)⟩

lemma source_eq_of_hopKey_eq (h : hopKey a = hopKey b) : a.sourceId = b.sourceId :=
  congrArg (fun k : HopKey => (ofLex (ofLex k).2).1) h

@[simp] lemma mem_sortHops : hop ∈ sortHops hops ↔ hop ∈ hops :=
  List.mem_insertionSort _

lemma perm_sortHops (hops : List PinHop) : (sortHops hops).Perm hops := List.perm_insertionSort _ _

lemma sorted_sortHops (h : (hops.map hopKey).Nodup) : (sortHops hops).Pairwise Newer := by
  have hnodup : ((sortHops hops).map hopKey).Nodup := ((perm_sortHops hops).map _).nodup_iff.2 h
  refine (List.pairwise_insertionSort _ hops).imp₂ ?_ (List.pairwise_map.1 hnodup)
  exact fun a b hle hne => lt_of_le_of_ne hle (Ne.symm hne)

/-! ### The rows and edges of a filter -/

lemma mem_expandHops :
    hop ∈ expandHops (rows.map R.node) ↔ ∃ row ∈ rows, hop ∈ expandHops [R.node row] := by
  simp [expandHops]

lemma source_of_mem_expandHops (h : hop ∈ expandHops [R.node row]) : hop.sourceId = row.t := by
  simp only [expandHops, List.flatMap_cons, List.flatMap_nil, List.append_nil, List.mem_append,
    List.mem_map] at h
  rcases h with ⟨pin, -, rfl⟩ | ⟨pin, -, rfl⟩ <;> rfl

/-- The readable rows a listing goes through: the source, or else what pins the target. -/
def Reader.listedRows (R : Reader) (f : EdgeFilter) : List PinNodeRow :=
  match f.source, f.target with
  | some (.memory source), _ => R.loadPinNodes [source]
  | none, some target => R.inbound f.kind target none
  | _, _ => []

/-- The edges of these rows that have the target and the kind of the filter. -/
def Reader.hopsOf (R : Reader) (f : EdgeFilter) (rows : List PinNodeRow) : List PinHop :=
  matchingHops (rows.map R.node) none f.target f.kind

/-- No row pins two edges of the filter under one key. -/
def Reader.PinsOnce (R : Reader) (f : EdgeFilter) : Prop :=
  ∀ row ∈ R.listedRows f, ((R.hopsOf f [row]).map hopKey).Nodup

lemma hopsOf_append (rows rows' : List PinNodeRow) :
    R.hopsOf f (rows ++ rows') = R.hopsOf f rows ++ R.hopsOf f rows' := by
  simp [Reader.hopsOf, matchingHops, expandHops]

lemma mem_hopsOf : hop ∈ R.hopsOf f rows ↔
    ∃ row ∈ rows, hop ∈ R.hopsOf f [row] := by
  simp only [Reader.hopsOf, matchingHops, List.mem_filter, mem_expandHops, List.map_cons,
    List.map_nil]
  constructor
  · rintro ⟨⟨row, hrow, hhop⟩, hadmits⟩
    exact ⟨row, hrow, hhop, hadmits⟩
  · rintro ⟨row, hrow, hhop, hadmits⟩
    exact ⟨⟨row, hrow, hhop⟩, hadmits⟩

lemma source_of_mem_hopsOf (h : hop ∈ R.hopsOf f [row]) : hop.sourceId = row.t :=
  source_of_mem_expandHops (List.mem_of_mem_filter h)

/-- Rows with distinct ids share no key. -/
lemma nodup_hopsOf_iff (hrows : rows.Pairwise fun a b => b.t < a.t) :
    ((R.hopsOf f rows).map hopKey).Nodup ↔ ∀ row ∈ rows, ((R.hopsOf f [row]).map hopKey).Nodup := by
  have hflat : R.hopsOf f rows = rows.flatMap fun row => R.hopsOf f [row] := by
    simp [Reader.hopsOf, matchingHops, expandHops, List.flatMap_map, List.filter_flatMap]
  rw [hflat, List.map_flatMap, List.nodup_flatMap, and_iff_left]
  refine hrows.imp fun {a b} hab k hka hkb => ?_
  obtain ⟨x, hx, rfl⟩ := List.mem_map.1 hka
  obtain ⟨y, hy, heq⟩ := List.mem_map.1 hkb
  have hsource := source_eq_of_hopKey_eq heq
  rw [source_of_mem_hopsOf hx, source_of_mem_hopsOf hy] at hsource
  exact absurd hsource (ne_of_lt hab)

lemma sorted_listedRows (R : Reader) (f : EdgeFilter) :
    (R.listedRows f).Pairwise fun a b => b.t < a.t := by
  refine R.newestFirst.sublist ?_
  unfold Reader.listedRows
  split
  · exact List.filter_sublist
  · exact List.filter_sublist.trans List.filter_sublist
  · exact List.nil_sublist _

lemma Reader.row_eq {row' : PinNodeRow} (h : row ∈ R.rows) (h' : row' ∈ R.rows)
    (ht : row.t = row'.t) : row = row' := by
  have hnodup : (R.rows.map (·.t)).Nodup :=
    List.pairwise_map.2 (R.newestFirst.imp fun hlt => Ne.symm (ne_of_lt hlt))
  exact List.inj_on_of_nodup_map hnodup h h' ht

/-! ### Cursors -/

@[simp] lemma afterCursor_none (hops : List PinHop) : afterCursor none hops = hops := by
  simp [afterCursor, cursorKey]

variable {front rest : List PinHop}

/-- In a listing in order, a cursor leaves what follows its edge. -/
lemma afterCursor_append (h : (front ++ rest).Pairwise Newer) :
    afterCursor (front.getLast?.map cursorOf) (front ++ rest) = rest := by
  rcases hlast : front.getLast? with - | z
  · rw [Option.map_none, afterCursor_none, List.getLast?_eq_none_iff.1 hlast, List.nil_append]
  · exact filter_of_append (fun _ _ h h' => lt_asymm h h') h hlast

/-! ### Sources in pages -/

lemma inbound_below {after : Option Uuid} {last : PinNodeRow} {n : ℕ}
    (hlast : ((R.inbound kind target after).take n).getLast? = some last) :
    R.inbound kind target (some last.t) = (R.inbound kind target after).drop n := by
  have hsorted : (R.inbound kind target after).Pairwise fun a b => b.t < a.t :=
    R.newestFirst.sublist (List.filter_sublist.trans List.filter_sublist)
  have hdrop := filter_of_append (r := fun a b : PinNodeRow => b.t < a.t)
    (fun _ _ h h' => lt_asymm h h')
    ((List.take_append_drop n (R.inbound kind target after)).symm ▸ hsorted) hlast
  rw [List.take_append_drop] at hdrop
  rw [← hdrop]
  have hmem := List.mem_of_mem_take (List.mem_of_getLast? hlast)
  unfold Reader.inbound at hmem ⊢
  rw [List.filter_filter (p := fun row : PinNodeRow => row.t < last.t)]
  refine List.filter_congr fun row _ => ?_
  cases after with
  | none => simp
  | some t =>
    have hlt : last.t < t := of_decide_eq_true (List.mem_filter.1 hmem).2
    by_cases h : row.t < last.t
    · simp [h, lt_trans h hlt]
    · simp [h]

/-- The source pages end with enough edges, or with all sources. -/
lemma incomingPages_eq {fuel : ℕ} {sources : List PinNode} {after : Option Uuid}
    (hfuel : (R.inbound kind target after).length < fuel) :
    ∃ k, R.incomingPages kind target cursor limit fuel sources after =
        sources ++ ((R.inbound kind target after).take k).map R.node ∧
      ((R.inbound kind target after).length ≤ k ∨ limit < (afterCursor cursor (matchingHops
        (sources ++ ((R.inbound kind target after).take k).map R.node) none (some target)
          kind)).length) := by
  induction fuel generalizing sources after with
  | zero => omega
  | succ fuel ih =>
    have hpos : 1 ≤ inboundSourcePageLimit cursor limit := by
      unfold inboundSourcePageLimit
      split <;> omega
    rw [Reader.incomingPages]
    generalize inboundSourcePageLimit cursor limit = n at hpos ⊢
    split
    · rename_i hstop
      refine ⟨n, rfl, ?_⟩
      rcases hstop with hmany | hshort
      · exact .inr hmany
      · rw [List.length_take] at hshort
        exact .inl (by omega)
    · rename_i hgo
      rw [not_or, List.length_take] at hgo
      have hle : n ≤ (R.inbound kind target after).length := by omega
      obtain ⟨last, hlast⟩ : ∃ last, ((R.inbound kind target after).take n).getLast? =
        some last := by
        refine Option.ne_none_iff_exists'.1 fun hnone => ?_
        have := congrArg List.length (List.getLast?_eq_none_iff.1 hnone)
        rw [List.length_take, List.length_nil] at this
        omega
      have hbelow := inbound_below hlast
      obtain ⟨k, hpages, hend⟩ := @ih (sources ++
        ((R.inbound kind target after).take n).map R.node) (some last.t)
        (by rw [hbelow, List.length_drop]; omega)
      have htake : (sources ++ ((R.inbound kind target after).take n).map R.node) ++
          (((R.inbound kind target after).drop n).take k).map R.node =
            sources ++ ((R.inbound kind target after).take (n + k)).map R.node := by
        rw [List.append_assoc, ← List.map_append, ← List.take_add]
      rw [hbelow, htake] at hpages hend
      refine ⟨n + k, ?_, ?_⟩
      · rw [hlast, Option.map_some, Option.some_or]
        exact hpages
      · rw [List.length_drop] at hend
        exact hend.imp (by omega) id

/-! ### Every page -/

/-- The cursor has been passed. -/
def Passed (cursor : Option EdgeReadCursor) (hop : PinHop) : Prop :=
  (cursorKey cursor).all (hopKey hop < ·) = true

lemma mem_afterCursor : hop ∈ afterCursor cursor hops ↔ hop ∈ hops ∧ Passed cursor hop :=
  List.mem_filter

section Incoming

variable {kind : Option EdgeKind} {target : EntityRef}

/-- The filter that names only a target. -/
abbrev onto (kind : Option EdgeKind) (target : EntityRef) : EdgeFilter := ⟨kind, none, some target⟩

/-- Where the rows from the cursor on are cut, so is what the cursor leaves. -/
lemma afterCursor_cut (honce : R.PinsOnce (onto kind target)) {base later : List PinNodeRow}
    (hsorted : (base ++ later).Pairwise fun a b => b.t < a.t)
    (hsub : ∀ row ∈ base ++ later, row ∈ R.inbound kind target none)
    (hfrom : ∀ row ∈ R.inbound kind target none, ∀ hop ∈ R.hopsOf (onto kind target) [row],
      Passed cursor hop → row ∈ base ++ later)
    (hlater : ∀ row ∈ later, ∀ hop ∈ R.hopsOf (onto kind target) [row], Passed cursor hop) (k : ℕ) :
    afterCursor cursor (sortHops (R.hopsOf (onto kind target) (R.inbound kind target none))) =
      afterCursor cursor (sortHops (R.hopsOf (onto kind target) (base ++ later.take k))) ++
      sortHops (R.hopsOf (onto kind target) (later.drop k)) := by
  have hsplit : (base ++ later.take k) ++ later.drop k = base ++ later := by
    rw [List.append_assoc, List.take_append_drop]
  have hkeys : ∀ {rows : List PinNodeRow}, rows.Sublist (base ++ later) →
      (sortHops (R.hopsOf (onto kind target) rows)).Pairwise Newer := fun hrows =>
    sorted_sortHops ((nodup_hopsOf_iff (hsorted.sublist hrows)).2 fun row hrow =>
      honce row (hsub row (hrows.subset hrow)))
  have hfront : (base ++ later.take k).Sublist (base ++ later) :=
    (List.Sublist.refl _).append (List.take_sublist ..)
  have hback : (later.drop k).Sublist (base ++ later) :=
    (List.drop_sublist ..).trans (List.sublist_append_right ..)
  refine List.Pairwise.eq_of_mem_iff (r := Newer) ?_ ?_ fun hop => ?_
  · refine (sorted_sortHops ((nodup_hopsOf_iff ?_).2 honce)).sublist List.filter_sublist
    exact sorted_listedRows R (onto kind target)
  · refine List.pairwise_append.2 ⟨(hkeys hfront).sublist List.filter_sublist, hkeys hback, ?_⟩
    intro x hx y hy
    obtain ⟨row, hrow, hx⟩ := mem_hopsOf.1 (mem_sortHops.1 (List.mem_of_mem_filter hx))
    obtain ⟨row', hrow', hy⟩ := mem_hopsOf.1 (mem_sortHops.1 hy)
    refine newer_of_source_lt ?_
    rw [source_of_mem_hopsOf hx, source_of_mem_hopsOf hy]
    rw [← hsplit, List.pairwise_append] at hsorted
    exact hsorted.2.2 row hrow row' hrow'
  · rw [List.mem_append, mem_afterCursor, mem_afterCursor, mem_sortHops, mem_sortHops, mem_sortHops]
    constructor
    · rintro ⟨hhop, hpassed⟩
      obtain ⟨row, hrow, hhop⟩ := mem_hopsOf.1 hhop
      have hmem := hfrom row hrow hop hhop hpassed
      rw [← hsplit] at hmem
      rcases List.mem_append.1 hmem with hmem | hmem
      · exact .inl ⟨mem_hopsOf.2 ⟨row, hmem, hhop⟩, hpassed⟩
      · exact .inr (mem_hopsOf.2 ⟨row, hmem, hhop⟩)
    · rintro (⟨hhop, hpassed⟩ | hhop)
      · obtain ⟨row, hrow, hhop⟩ := mem_hopsOf.1 hhop
        exact ⟨mem_hopsOf.2 ⟨row, hsub row (hfront.subset hrow), hhop⟩, hpassed⟩
      · obtain ⟨row, hrow, hhop⟩ := mem_hopsOf.1 hhop
        exact ⟨mem_hopsOf.2 ⟨row, hsub row (hback.subset hrow), hhop⟩,
          hlater row (List.mem_of_mem_drop hrow) hop hhop⟩

/-- The sources of a page by target are a cut of the rows from its cursor on. -/
lemma loadIncomingSources_cut {fuel : ℕ} (honce : R.PinsOnce (onto kind target))
    (hcursor : ∀ c ∈ cursor, ∃ z ∈ R.hopsOf (onto kind target) (R.inbound kind target none),
      c = cursorOf z) :
    ∃ (base : List PinNodeRow) (after : Option Uuid),
      R.loadIncomingSources kind target cursor limit fuel =
        R.incomingPages kind target cursor limit fuel (base.map R.node) after ∧
      ∀ k, afterCursor cursor
        (sortHops (R.hopsOf (onto kind target) (R.inbound kind target none))) =
        afterCursor cursor (sortHops (R.hopsOf (onto kind target)
            (base ++ (R.inbound kind target after).take k))) ++
          sortHops (R.hopsOf (onto kind target) ((R.inbound kind target after).drop k)) := by
  have hinbound : ∀ after, (R.inbound kind target after).Pairwise fun a b => b.t < a.t := fun _ =>
    R.newestFirst.sublist (List.filter_sublist.trans List.filter_sublist)
  cases cursor with
  | none =>
    exact ⟨[], none, rfl, afterCursor_cut honce (hinbound none) (fun _ h => h)
      (fun _ h _ _ _ => h) fun _ _ _ _ => rfl⟩
  | some c =>
    obtain ⟨z, hz, rfl⟩ := hcursor c rfl
    obtain ⟨row, hrow, hz⟩ := mem_hopsOf.1 hz
    have hsource := source_of_mem_hopsOf hz
    have hrows : ∀ r ∈ R.inbound kind target none, r ∈ R.rows := fun r hr =>
      List.mem_of_mem_filter (List.mem_of_mem_filter hr)
    have hload : ∀ r, r ∈ R.loadPinNodes [z.sourceId] ↔ r = row := by
      intro r
      simp only [Reader.loadPinNodes, List.mem_filter, List.mem_singleton, decide_eq_true_eq]
      refine ⟨fun h => R.row_eq h.1 (hrows row hrow) (h.2.trans hsource), ?_⟩
      rintro rfl
      exact ⟨hrows r hrow, hsource.symm⟩
    have hlater : ∀ r, r ∈ R.inbound kind target (some z.sourceId) ↔
        r ∈ R.inbound kind target none ∧ r.t < z.sourceId := by
      intro r
      simp only [Reader.inbound, Option.all_some, Option.all_none, List.mem_filter,
        decide_eq_true_eq]
      tauto
    refine ⟨R.loadPinNodes [z.sourceId], some z.sourceId, rfl,
      afterCursor_cut honce ?_ ?_ ?_ fun r hr hop hhop => ?_⟩
    · refine List.pairwise_append.2 ⟨R.newestFirst.sublist List.filter_sublist, hinbound _, ?_⟩
      intro a ha b hb
      obtain rfl := (hload a).1 ha
      exact hsource ▸ ((hlater b).1 hb).2
    · intro r hr
      rcases List.mem_append.1 hr with hr | hr
      · exact (hload r).1 hr ▸ hrow
      · exact ((hlater r).1 hr).1
    · intro r hr hop hhop hpassed
      refine List.mem_append.2 ?_
      rcases lt_trichotomy r.t z.sourceId with hlt | heq | hgt
      · exact .inr ((hlater r).2 ⟨hr, hlt⟩)
      · exact .inl ((hload r).2 (R.row_eq (hrows r hr) (hrows row hrow) (heq.trans hsource)))
      · have hnewer : Newer hop z := newer_of_source_lt (source_of_mem_hopsOf hhop ▸ hgt)
        exact absurd (of_decide_eq_true hpassed) (lt_asymm hnewer)
    · refine decide_eq_true (newer_of_source_lt ?_ : Newer z hop)
      exact source_of_mem_hopsOf hhop ▸ ((hlater r).1 hr).2

end Incoming

/-- The source a filter names is the source of every edge of its row. -/
lemma matchingHops_source (kind : Option EdgeKind) (source : Uuid) (target : Option EntityRef) :
    matchingHops ((R.loadPinNodes [source]).map R.node) (some source) target kind =
      R.hopsOf ⟨kind, some (.memory source), target⟩ (R.loadPinNodes [source]) := by
  refine List.filter_congr fun hop hhop => ?_
  obtain ⟨row, hrow, hhop⟩ := mem_expandHops.1 hhop
  have hsource : hop.sourceId = source := by
    rw [source_of_mem_expandHops hhop]
    simpa using (List.mem_filter.1 hrow).2
  simp [hsource]

lemma readEdges_onto {fuel : ℕ} (h : 1 ≤ limit) :
    R.readEdges fuel (onto kind target) cursor limit = R.pageHops (matchingHops
      (R.loadIncomingSources kind target cursor limit fuel) none (some target) kind) cursor limit :=
  if_neg (by omega)

lemma readEdges_from {source : Uuid} {target : Option EntityRef} {fuel : ℕ} (h : 1 ≤ limit) :
    R.readEdges fuel ⟨kind, some (.memory source), target⟩ cursor limit =
      R.pageHops (R.hopsOf ⟨kind, some (.memory source), target⟩ (R.loadPinNodes [source])) cursor
        limit := by
  rw [← matchingHops_source]
  exact if_neg (by omega)

/-- A page is the front of what its cursor leaves. -/
lemma readEdges_eq {fuel : ℕ} (honce : R.PinsOnce f)
    (hL : sortHops (R.hopsOf f (R.listedRows f)) = front ++ rest) (hlimit : 1 ≤ limit)
    (hfuel : R.rows.length < fuel) :
    R.readEdges fuel f (front.getLast?.map cursorOf) limit =
      pageOf R.projectHopEdge cursorOf rest limit := by
  have hsorted := sorted_sortHops ((nodup_hopsOf_iff (sorted_listedRows R f)).2 honce)
  have hnil : sortHops (R.hopsOf f []) = [] := rfl
  have hrest := afterCursor_append (hL ▸ hsorted)
  rw [← hL] at hrest
  obtain ⟨kind, - | source | goal, target⟩ := f
  · cases target with
    | none =>
      obtain ⟨rfl, rfl⟩ := List.append_eq_nil_iff.1 (hL.symm.trans hnil)
      exact pageOf_nil.symm
    | some target =>
      have hcursor : ∀ c ∈ front.getLast?.map cursorOf,
          ∃ z ∈ R.hopsOf (onto kind target) (R.inbound kind target none), c = cursorOf z := by
        intro c hc
        obtain ⟨z, hz, rfl⟩ := Option.map_eq_some_iff.1 hc
        refine ⟨z, mem_sortHops.1 ?_, rfl⟩
        exact hL ▸ List.mem_append_left _ (List.mem_of_getLast? hz)
      obtain ⟨base, after, hload, hcut⟩ :=
        @loadIncomingSources_cut R _ limit kind target fuel honce hcursor
      obtain ⟨k, hpages, hend⟩ :=
        @incomingPages_eq R (front.getLast?.map cursorOf) limit kind target
        fuel (base.map R.node) after (lt_of_le_of_lt ((List.length_filter_le ..).trans
          (List.length_filter_le ..)) hfuel)
      rw [readEdges_onto hlimit, hload, hpages, ← List.map_append, ← hrest]
      refine ((congrArg (pageOf R.projectHopEdge cursorOf · limit) (hcut k)).trans
        (pageOf_append (hend.imp (fun hle => ?_) fun hlt => ?_))).symm
      · rw [List.drop_eq_nil_of_le hle]
        rfl
      · rw [← List.map_append] at hlt
        exact lt_of_lt_of_eq hlt ((perm_sortHops _).filter _).length_eq.symm
  · rw [readEdges_from hlimit, ← hrest]
    rfl
  · obtain ⟨rfl, rfl⟩ := List.append_eq_nil_iff.1 (hL.symm.trans hnil)
    exact pageOf_nil.symm

/-! ### What may be listed -/

/-- A readable row pins this edge and the filter admits it; a filter that names neither end is
refused rather than answered with the graph. -/
structure Reader.MayList (R : Reader) (f : EdgeFilter) (hop : PinHop) : Prop where
  pinned : ∃ row ∈ R.rows, hop ∈ expandHops [R.node row]
  named : f.source ≠ none ∨ f.target ≠ none
  source : ∀ source ∈ f.source, source = .memory hop.sourceId
  target : ∀ target ∈ f.target, target = hop.target
  kind : ∀ kind ∈ f.kind, kind = hop.kind

/-- The row pins the id as a Goal that the caller does not see, so that it reads as a Memory. -/
def Reader.PinsUnseen (R : Reader) (id : Uuid) (row : PinNodeRow) : Prop :=
  (id ∈ row.goalRefs ∨ id ∈ row.guidedBy) ∧ id ∉ R.goals

/-- What pins an unseen Goal as if it were the Memory asked for is found by its columns. -/
def Reader.FindsUnseen (R : Reader) (f : EdgeFilter) : Prop :=
  f.source = none → f.kind ≠ some .origin → ∀ id, f.target = some (.memory id) →
    ∀ row ∈ R.rows, R.PinsUnseen id row → pinsTarget f.kind (.memory id) row

lemma mem_hopsOf_singleton : hop ∈ R.hopsOf f [row] ↔
    hop ∈ expandHops [R.node row] ∧ (∀ target ∈ f.target, target = hop.target) ∧
      ∀ kind ∈ f.kind, kind = hop.kind := by
  obtain ⟨kind, source, target⟩ := f
  cases kind <;> cases target <;>
    simp [Reader.hopsOf, matchingHops, @eq_comm _ _ hop.target, @eq_comm _ _ hop.kind]

lemma pinsTarget_memory (hkind : kind ≠ some .origin) (h : id ∈ row.refs ∨ row.forkedFrom = some id)
    : pinsTarget kind (.memory id) row = true := by
  rcases kind with - | - | -
  · exact decide_eq_true (.inr h)
  · exact absurd rfl hkind
  · exact decide_eq_true h

lemma pinsTarget_goal (hkind : kind ≠ some .origin) (h : id ∈ row.goalRefs ∨ id ∈ row.guidedBy) :
    pinsTarget kind (.goal id) row = true := by
  rcases kind with - | - | -
  · exact decide_eq_true (.inr h)
  · exact absurd rfl hkind
  · exact decide_eq_true h

/-- The columns scanned for a target hold every pin of it, an unseen Goal read as a Memory apart. -/
lemma pinsTarget_of_mem (h : hop ∈ expandHops [R.node row]) (hkind : ∀ k ∈ kind, k = hop.kind) :
    pinsTarget kind hop.target row = true ∨
      ∃ id, hop.target = .memory id ∧ kind ≠ some .origin ∧ R.PinsUnseen id row := by
  simp only [expandHops, List.flatMap_cons, List.flatMap_nil, List.append_nil, List.mem_append,
    List.mem_map, PinNode.pins, PinNode.goalPins] at h
  rcases h with ⟨pin, ⟨id, hid, rfl⟩ | ⟨id, hid, rfl⟩, rfl⟩ |
    ⟨pin, ⟨id, hid, rfl⟩ | ⟨id, hid, rfl⟩, rfl⟩
  · left
    rcases kind with - | - | -
    · exact decide_eq_true (.inl hid)
    · exact decide_eq_true hid
    · cases hkind _ rfl
  all_goals have horigin : kind ≠ some .origin := fun h => by cases hkind _ h
  · simp only [Reader.node, PinNode.resolveVisibleGoalRefs, PinNodeRow.intoPinNode, List.mem_append,
      List.mem_filter, Option.mem_toList, decide_eq_true_eq] at hid
    rcases hid with ((hid | ⟨hid, -⟩) | ⟨hid, hunseen⟩) | ⟨hid, hunseen⟩
    · exact .inl (pinsTarget_memory horigin (.inl hid))
    · exact .inl (pinsTarget_memory horigin (.inr hid))
    · exact .inr ⟨id, rfl, horigin, .inl hid, hunseen⟩
    · exact .inr ⟨id, rfl, horigin, .inr hid, hunseen⟩
  · exact .inl (pinsTarget_goal horigin (.inl (List.mem_of_mem_filter hid)))
  · exact .inl (pinsTarget_goal horigin (.inr (List.mem_of_mem_filter hid)))

lemma mem_expandHops_of_unseen (h : R.PinsUnseen id row) :
    ⟨row.t, row.kind, .memory id, .reference⟩ ∈ expandHops [R.node row] := by
  obtain ⟨hpins, hunseen⟩ := h
  simp [expandHops, PinNode.pins, PinNode.goalPins, Reader.node, PinNode.resolveVisibleGoalRefs,
    PinNodeRow.intoPinNode, hunseen]
  tauto

lemma mem_rows_of_listed (h : row ∈ R.listedRows f) : row ∈ R.rows := by
  unfold Reader.listedRows at h
  split at h
  · exact List.mem_of_mem_filter h
  · exact List.mem_of_mem_filter (List.mem_of_mem_filter h)
  · exact absurd h List.not_mem_nil

lemma mayList_of_listed (hrow : row ∈ R.listedRows f) (h : hop ∈ R.hopsOf f [row]) :
    R.MayList f hop := by
  obtain ⟨hhop, htarget, hkind⟩ := mem_hopsOf_singleton.1 h
  refine ⟨⟨row, mem_rows_of_listed hrow, hhop⟩, ?_, ?_, htarget, hkind⟩
  · obtain ⟨kind, - | source, - | target⟩ := f <;> simp_all [Reader.listedRows]
  · obtain ⟨kind, - | source | goal, target⟩ := f
    · simp
    · have ht : row.t = source := by simpa using (List.mem_filter.1 hrow).2
      simp [source_of_mem_hopsOf h, ht]
    · exact absurd hrow List.not_mem_nil

lemma listed_of_mayList (hfinds : R.FindsUnseen f) (h : R.MayList f hop) :
    ∃ row ∈ R.listedRows f, hop ∈ R.hopsOf f [row] := by
  obtain ⟨row, hrow, hhop⟩ := h.pinned
  refine ⟨row, ?_, mem_hopsOf_singleton.2 ⟨hhop, h.target, h.kind⟩⟩
  obtain ⟨kind, - | source | goal, target⟩ := f
  · obtain ⟨target, rfl⟩ : ∃ t, target = some t :=
      Option.ne_none_iff_exists'.1 (by simpa using h.named)
    obtain rfl : target = hop.target := h.target _ rfl
    refine List.mem_filter.2 ⟨List.mem_filter.2 ⟨hrow, ?_⟩, rfl⟩
    rcases pinsTarget_of_mem hhop h.kind with hpins | ⟨id, hid, hkind, hunseen⟩
    · exact hpins
    · rw [hid]
      exact hfinds rfl hkind id (congrArg some hid) row hrow hunseen
  · have hsource : EntityRef.memory source = .memory hop.sourceId := h.source _ rfl
    obtain rfl := EntityRef.memory.inj hsource
    exact List.mem_filter.2 ⟨hrow, by simp [source_of_mem_expandHops hhop]⟩
  · exact absurd (h.source _ rfl) (by simp)

/-! ### Following the cursors -/

/-- A page long enough for everything holds everything the read goes through. -/
lemma readEdges_all {fuel : ℕ} (hlimit : 1 ≤ limit)
    (hall : (R.hopsOf f (R.listedRows f)).length ≤ limit) (hfuel : R.rows.length < fuel) :
    R.readEdges fuel f none limit =
      ⟨(sortHops (R.hopsOf f (R.listedRows f))).map R.projectHopEdge, none⟩ := by
  have hpage : ∀ hops : List PinHop, hops.length ≤ limit →
      R.pageHops hops none limit = ⟨(sortHops hops).map R.projectHopEdge, none⟩ := by
    intro hops hle
    have hlength := (perm_sortHops hops).length_eq
    rw [Reader.pageHops, afterCursor_none, pageOf, List.take_of_length_le (by omega),
      if_neg (by omega)]
  obtain ⟨kind, - | source | goal, target⟩ := f
  · cases target with
    | none => rfl
    | some target =>
      obtain ⟨k, hpages, hend⟩ := @incomingPages_eq R none limit kind target fuel [] none
        (lt_of_le_of_lt ((List.length_filter_le ..).trans (List.length_filter_le ..)) hfuel)
      have hsplit :=
        hopsOf_append (R := R) (f := onto kind target) ((R.inbound kind target none).take k)
        ((R.inbound kind target none).drop k)
      rw [List.take_append_drop] at hsplit
      have hle : (R.inbound kind target none).length ≤ k := by
        refine hend.resolve_right fun hlt => ?_
        rw [afterCursor_none, List.nil_append] at hlt
        have hlt : limit < (R.hopsOf (onto kind target)
          ((R.inbound kind target none).take k)).length := hlt
        have hlength := congrArg List.length hsplit
        rw [List.length_append] at hlength
        have hall : (R.hopsOf (onto kind target) (R.inbound kind target none)).length ≤ limit :=
          hall
        omega
      rw [readEdges_onto hlimit, ← hpage _ hall]
      congr 1
      change matchingHops (R.incomingPages kind target none limit fuel [] none) none (some target)
        kind = _
      rw [hpages, List.take_of_length_le hle]
      rfl
  · rw [readEdges_from hlimit]
    exact hpage _ hall
  · rfl

/-- With the target fixed, an edge shows what it is. -/
lemma projectHopEdge_inj (htarget : a.target = b.target)
    (h : R.projectHopEdge a = R.projectHopEdge b) : a = b := by
  obtain ⟨s, sk, ta, k⟩ := a
  obtain ⟨s', sk', tb, k'⟩ := b
  have hsource := congrArg Edge.source h
  have hkind := congrArg Edge.kind h
  simp only [Reader.projectHopEdge, EdgeEndpoint.memory.injEq] at hsource hkind
  obtain ⟨rfl, rfl⟩ := hsource
  cases htarget
  cases hkind
  rfl

/-- Following the cursors lists every edge the caller may list exactly once, in strictly descending
order of its key, whatever the limits are. -/
def Reader.PagesExactly (R : Reader) (f : EdgeFilter) : Prop :=
  ∃ L : List PinHop, L.Pairwise Newer ∧ (∀ hop, hop ∈ L ↔ R.MayList f hop) ∧
    ∀ limits : ℕ → ℕ, (∀ i, 1 ≤ limits i) → ∀ fuel > R.rows.length, ∀ pages > L.length,
      follow (fun cursor n => some (R.readEdges fuel f cursor n)) limits pages none =
        some (L.map R.projectHopEdge)

lemma pagesExactly_of_once (honce : R.PinsOnce f) (hfinds : R.FindsUnseen f) :
    R.PagesExactly f := by
  refine ⟨sortHops (R.hopsOf f (R.listedRows f)),
    sorted_sortHops ((nodup_hopsOf_iff (sorted_listedRows R f)).2 honce), fun hop => ?_,
    fun limits hlimits fuel hfuel pages hlength => ?_⟩
  · rw [mem_sortHops, mem_hopsOf]
    refine ⟨?_, listed_of_mayList hfinds⟩
    rintro ⟨row, hrow, hhop⟩
    exact mayList_of_listed hrow hhop
  · exact follow_pageOf (fun front rest n hL hn => congrArg some (readEdges_eq honce hL hn hfuel))
      hlimits hlength

/-- What is listed is what the read goes through. -/
lemma listed_of_pagesExactly {L : List PinHop} (hmem : ∀ hop, hop ∈ L ↔ R.MayList f hop)
    (hedges : L.map R.projectHopEdge =
      (sortHops (R.hopsOf f (R.listedRows f))).map R.projectHopEdge) :
    L ⊆ R.hopsOf f (R.listedRows f) := by
  intro hop hhop
  have hmay := (hmem hop).1 hhop
  obtain ⟨kind, - | source, target⟩ := f
  · obtain ⟨target, rfl⟩ : ∃ t, target = some t :=
      Option.ne_none_iff_exists'.1 (by simpa using hmay.named)
    have hedge := List.mem_map_of_mem (f := R.projectHopEdge) hhop
    rw [hedges] at hedge
    obtain ⟨other, hother, heq⟩ := List.mem_map.1 hedge
    have hother := mem_sortHops.1 hother
    obtain ⟨row, hrow, hmem'⟩ := mem_hopsOf.1 hother
    have htarget : other.target = hop.target := by
      rw [← hmay.target target rfl, ← (mayList_of_listed hrow hmem').target target rfl]
    rwa [← projectHopEdge_inj htarget heq]
  · exact mem_hopsOf.2 (listed_of_mayList nofun hmay)

/-- **Every page, once**: following the cursors of a read lists every edge the caller may list
exactly once, in strictly descending order and the same for all limits, exactly when no row pins
such an edge twice and no row pins as an unseen Goal the Memory that is asked for. -/
theorem pagesExactly_iff (R : Reader) (f : EdgeFilter) :
    R.PagesExactly f ↔ R.PinsOnce f ∧ R.FindsUnseen f := by
  refine ⟨?_, fun h => pagesExactly_of_once h.1 h.2⟩
  rintro ⟨L, hsorted, hmem, hpages⟩
  have hedges : L.map R.projectHopEdge =
      (sortHops (R.hopsOf f (R.listedRows f))).map R.projectHopEdge := by
    have hone := hpages (fun _ => (R.hopsOf f (R.listedRows f)).length + 1) (fun _ => by omega)
      (R.rows.length + 1) (by omega) (L.length + 1) (by omega)
    rw [follow, readEdges_all (by omega) (by omega) (by omega)] at hone
    exact (Option.some.inj hone).symm
  have hsub := listed_of_pagesExactly hmem hedges
  have hperm : L.Perm (R.hopsOf f (R.listedRows f)) := by
    refine (List.subperm_of_subset ?_ hsub).perm_of_length_le ?_
    · exact hsorted.imp fun h heq => absurd (heq ▸ h) (lt_irrefl _)
    · have hlength := congrArg List.length hedges
      rw [List.length_map, List.length_map, (perm_sortHops _).length_eq] at hlength
      exact hlength.ge
  refine ⟨(nodup_hopsOf_iff (sorted_listedRows R f)).1 ((hperm.map _).nodup_iff.1 ?_), ?_⟩
  · exact List.pairwise_map.2 (hsorted.imp fun h => Ne.symm (ne_of_lt h))
  · intro hsource hkind id htarget row hrow hunseen
    obtain ⟨kind, source, target⟩ := f
    obtain rfl : source = none := hsource
    obtain rfl : target = some (.memory id) := htarget
    have hmay : R.MayList ⟨kind, none, some (.memory id)⟩
      ⟨row.t, row.kind, .memory id, .reference⟩ :=
      ⟨⟨row, hrow, mem_expandHops_of_unseen hunseen⟩, .inr (by simp), by simp, by simp,
        fun k hk => by
        cases k with
        | origin => exact absurd hk hkind
        | reference => rfl⟩
    obtain ⟨row', hrow', hhop⟩ := mem_hopsOf.1 (hsub ((hmem _).2 hmay))
    obtain rfl : row = row' :=
      R.row_eq hrow (mem_rows_of_listed hrow') (source_of_mem_hopsOf hhop)
    exact (List.mem_filter.1 (List.mem_of_mem_filter hrow')).2

/-- A Perspective that names Goal 7 in its payload and is guided by it. -/
def guidedTwice : Reader where
  rows := [⟨9, .perspective, "s", [], [], [7], [7], none⟩]
  goals := [7]
  forgotten := []
  newestFirst := List.pairwise_singleton ..

/-- The edge is listed twice on a page of two and once on pages of one. -/
theorem not_pagesExactly_guidedTwice : ¬guidedTwice.PagesExactly ⟨none, none, some (.goal 7)⟩ := by
  rintro ⟨L, -, -, hpages⟩
  have htwo : guidedTwice.readEdges 2 ⟨none, none, some (.goal 7)⟩ none 2 =
      ⟨[⟨.memory .perspective 9, .visible (.goal 7), .reference, 0⟩,
        ⟨.memory .perspective 9, .visible (.goal 7), .reference, 0⟩], none⟩ := by
    decide +kernel
  have hone : guidedTwice.readEdges 2 ⟨none, none, some (.goal 7)⟩ none 1 =
      ⟨[⟨.memory .perspective 9, .visible (.goal 7), .reference, 0⟩],
        some ⟨0, .memory 9, .goal 7, .reference⟩⟩ := by
    decide +kernel
  have hlast : guidedTwice.readEdges 2 ⟨none, none, some (.goal 7)⟩
      (some ⟨0, .memory 9, .goal 7, .reference⟩) 1 = ⟨[], none⟩ := by
    decide +kernel
  have h := hpages (fun _ => 2) (fun _ => by omega) 2 (by decide) (L.length + 1) (by omega)
  have h' := hpages (fun _ => 1) (fun _ => le_refl 1) 2 (by decide) (L.length + 2) (by omega)
  simp only [follow, htwo] at h
  simp only [follow, hone, hlast, Option.map_some, List.append_nil] at h'
  exact absurd (h.trans h'.symm) (by decide)

end Proxiima.Edges
