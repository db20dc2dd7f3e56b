import Mathlib.Data.List.Pairwise
import Proxiima.Evolution.Declared

/-!
# What the audit of evolutions accepts

The audit succeeds exactly on sound compositions, in whatever order contracts and evolutions are
listed. Its loop over the evolutions is followed by the state it builds, which depends only on
what has been listed; the search for cycles and the search for first versions are measured by a
rank that falls along the edges of an acyclic graph.
-/

namespace Proxiima.Evolution

/-! ### Checks -/

variable {u : Unit} {α : Type} {e : SchemaEvolution} {key : SchemaKey}

@[simp] lemma ensure_eq_ok {b : Bool} {e : SpiiceRegistryError} :
    ensure b e = .ok u ↔ b = true := by
  cases b <;> simp [ensure]

lemma forM_eq_ok {f : α → Except SpiiceRegistryError Unit} {l : List α} :
    l.forM f = .ok u ↔ ∀ x ∈ l, f x = .ok () := by
  induction l with
  | nil => exact ⟨fun _ => by simp, fun _ => rfl⟩
  | cons x l ih =>
    change (f x >>= fun _ => l.forM f) = .ok u ↔ _
    rw [Serde.bind_eq_ok, List.forall_mem_cons, ← ih]
    exact ⟨fun ⟨_, hx, hl⟩ => ⟨hx, hl⟩, fun ⟨hx, hl⟩ => ⟨(), hx, hl⟩⟩

lemma validateSet_eq_ok {contract : SpiiceContract} {schemas : List SchemaContract} :
    validateSet contract e schemas = .ok u ↔ ∀ schema ∈ schemas,
      schema.id.spiice = contract.spiiceId ∧ schema.id.version ≠ 0 := by
  simp only [validateSet, forM_eq_ok, Serde.bind_eq_ok, ensure_eq_ok, decide_eq_true_eq,
    exists_const]

lemma foldlM_takeKey {reused : String → String → SpiiceRegistryError} {keyOf : α → SchemaKey}
    {entry : SchemaKey → α} (hentry : ∀ key, keyOf (entry key) = key) {l : List SchemaContract}
    {seen : List SchemaKey} {used : List α} {s : List SchemaKey × List α} :
    l.foldlM (takeKey e reused keyOf entry) (seen, used) = .ok s ↔
      (l.map schemaKey).Nodup ∧
      (∀ key ∈ l.map schemaKey, key ∉ seen ∧ key ∉ used.map keyOf) ∧
      s = ((l.map schemaKey).reverse ++ seen,
        (l.map fun x => entry (schemaKey x)).reverse ++ used) := by
  induction l generalizing seen used with
  | nil => simp [pure, Except.pure, eq_comm]
  | cons x l ih =>
    rw [List.foldlM_cons, Serde.bind_eq_ok]
    simp only [takeKey, Serde.bind_eq_ok, ensure_eq_ok, decide_eq_true_eq, exists_const, pure,
      Except.pure, Except.ok.injEq]
    constructor
    · rintro ⟨s', ⟨hseen, hused, rfl⟩, h⟩
      obtain ⟨hnodup, hnew, rfl⟩ := ih.1 h
      simp only [List.mem_cons, List.map_cons, hentry, not_or] at hnew
      refine ⟨?_, ?_, by simp⟩
      · exact List.nodup_cons.2 ⟨fun hmem => (hnew _ hmem).1.1 rfl, hnodup⟩
      · rw [List.map_cons, List.forall_mem_cons]
        exact ⟨⟨hseen, hused⟩, fun key hkey => ⟨(hnew key hkey).1.2, (hnew key hkey).2.2⟩⟩
    · rintro ⟨hnodup, hnew, rfl⟩
      obtain ⟨hx, hnodup⟩ := List.nodup_cons.1 hnodup
      rw [List.map_cons, List.forall_mem_cons] at hnew
      refine ⟨_, ⟨hnew.1.1, hnew.1.2, rfl⟩, ih.2 ⟨hnodup, fun key hkey => ?_, by simp⟩⟩
      have hne : key ≠ schemaKey x := fun heq => hx (heq ▸ hkey)
      simp only [List.mem_cons, List.map_cons, hentry, not_or]
      exact ⟨⟨hne, (hnew.2 key hkey).1⟩, hne, (hnew.2 key hkey).2⟩

/-! ### The loop over the evolutions -/

variable {trim : String → String} {contracts : List SpiiceContract}

def sourceKeys (e : SchemaEvolution) : List SchemaKey := e.sources.map schemaKey

def targetKeys (e : SchemaEvolution) : List SchemaKey := e.targets.map schemaKey

/-- The state after some evolutions have passed. -/
def auditOf (done : List SchemaEvolution) : Audit where
  steps := done.reverse
  consumed := (done.flatMap sourceKeys).reverse
  produced := (done.flatMap fun e => e.targets.map fun t => (schemaKey t, e.id)).reverse

/-- Ids, sources and targets are used once. -/
def UsedOnce (l : List SchemaEvolution) : Prop :=
  (l.map (·.id)).Nodup ∧ (l.flatMap sourceKeys).Nodup ∧ (l.flatMap targetKeys).Nodup

/-- What the audit of one evolution asks beside what was listed before. -/
def PassesAlone (trim : String → String) (contracts : List SpiiceContract)
    (d : SpiiceContract × SchemaEvolution) : Prop :=
  FieldsOk trim contracts d ∧
    ∀ schema ∈ d.2.sources ++ d.2.targets, schema.id.spiice = d.1.spiiceId

lemma nodup_flatMap_concat {β : Type} {f : α → List β} {l : List α} {x : α} :
    ((l ++ [x]).flatMap f).Nodup ↔
      (l.flatMap f).Nodup ∧ (f x).Nodup ∧ ∀ k ∈ f x, k ∉ l.flatMap f := by
  rw [List.flatMap_append, List.nodup_append]
  simp only [List.flatMap_cons, List.flatMap_nil, List.append_nil]
  refine and_congr_right fun _ => and_congr_right
    fun _ => ⟨fun h k hk hmem => ?_, fun h a ha b hb => ?_⟩
  · exact h k hmem k hk rfl
  · rintro rfl
    exact h a hb ha

lemma produced_keys (done : List SchemaEvolution) :
    (auditOf done).produced.map Prod.fst = (done.flatMap targetKeys).reverse := by
  simp only [auditOf, List.map_reverse, List.map_flatMap, List.map_map]
  rfl

lemma foldlM_takeSource {l : List SchemaContract} {used : List SchemaKey}
    {s : List SchemaKey × List SchemaKey} :
    l.foldlM (takeSource e) ([], used) = .ok s ↔
      (l.map schemaKey).Nodup ∧ (∀ key ∈ l.map schemaKey, key ∉ used) ∧
      s = ((l.map schemaKey).reverse, (l.map schemaKey).reverse ++ used) := by
  have h := @foldlM_takeKey _ e .schemaEvolutionSourceReused id id (fun _ => rfl) l [] used s
  simp only [List.map_id, List.not_mem_nil, not_false_eq_true, true_and, List.append_nil] at h
  exact h

lemma foldlM_takeTarget {l : List SchemaContract} {seen : List SchemaKey}
    {used : List (SchemaKey × String)} {s : List SchemaKey × List (SchemaKey × String)} :
    l.foldlM (takeTarget e) (seen, used) = .ok s ↔
      (l.map schemaKey).Nodup ∧
      (∀ key ∈ l.map schemaKey, key ∉ seen ∧ key ∉ used.map Prod.fst) ∧
      s = ((l.map schemaKey).reverse ++ seen,
        (l.map fun t => (schemaKey t, e.id)).reverse ++ used) :=
  @foldlM_takeKey _ e .schemaEvolutionTargetReused Prod.fst (fun key => (key, e.id))
    (fun _ => rfl) l seen used s

lemma auditOf_concat (done : List SchemaEvolution) (e : SchemaEvolution) :
    auditOf (done ++ [e]) =
      ⟨e :: (auditOf done).steps, (e.sources.map schemaKey).reverse ++ (auditOf done).consumed,
        (e.targets.map fun t => (schemaKey t, e.id)).reverse ++ (auditOf done).produced⟩ := by
  simp [auditOf, sourceKeys]

variable {done : List SchemaEvolution} {e' : SchemaEvolution}

lemma usedOnce_concat :
    UsedOnce (done ++ [e]) ↔ UsedOnce done ∧ e.id ∉ done.map (·.id) ∧
      ((sourceKeys e).Nodup ∧ ∀ k ∈ sourceKeys e, k ∉ done.flatMap sourceKeys) ∧
      ((targetKeys e).Nodup ∧ ∀ k ∈ targetKeys e, k ∉ done.flatMap targetKeys) := by
  simp only [UsedOnce, List.map_eq_flatMap, nodup_flatMap_concat, List.nodup_singleton,
    List.mem_singleton, forall_eq, true_and]
  tauto

lemma usedOnce_of_append {l m : List SchemaEvolution} (h : UsedOnce (l ++ m)) : UsedOnce l := by
  obtain ⟨hids, hsources, htargets⟩ := h
  rw [List.map_append] at hids
  rw [List.flatMap_append] at hsources htargets
  exact ⟨hids.of_append_left, hsources.of_append_left, htargets.of_append_left⟩

/-- One evolution passes when its own fields do and what it uses is new. -/
lemma auditEvolution_eq_ok {d : SpiiceContract × SchemaEvolution} (hdone : UsedOnce done)
    (hmem : ∀ e ∈ done ++ [d.2], e ∈ evolutions contracts) {a : Audit} :
    auditEvolution trim contracts (auditOf done) d = .ok a ↔
      UsedOnce (done ++ [d.2]) ∧ PassesAlone trim contracts d ∧ a = auditOf (done ++ [d.2]) := by
  simp only [auditEvolution, Serde.bind_eq_ok, ensure_eq_ok, validateSet_eq_ok, forM_eq_ok,
    foldlM_takeSource, foldlM_takeTarget, Prod.exists, produced_keys, decide_eq_true_eq, pure,
    Except.pure, Except.ok.injEq, exists_const, auditOf_concat]
  constructor
  · rintro ⟨hreq, hid, hs, ht, seen, consumed, ⟨hsnodup, hsnew, hseen⟩, seen', produced,
      ⟨htnodup, htnew, hproduced⟩, hrequires, rfl⟩
    cases hseen
    cases hproduced
    simp only [List.mem_reverse] at htnew
    refine ⟨usedOnce_concat.2 ⟨hdone, ?_, ⟨hsnodup, ?_⟩, htnodup, fun k hk => (htnew k hk).2⟩,
      ⟨⟨hreq, ?_, ?_, ?_⟩, ?_⟩, rfl⟩
    · simpa [auditOf] using hid
    · exact fun k hk hmem => hsnew k hk (List.mem_reverse.2 hmem)
    · exact List.forall_mem_append.2 ⟨fun x hx => (hs x hx).2, fun x hx => (ht x hx).2⟩
    · rw [List.map_append, List.nodup_append]
      exact ⟨hsnodup, htnodup, fun k hk l hl hkl => (htnew l hl).1 (hkl ▸ hk)⟩
    · intro required hrequired
      rcases hrequires required hrequired with h | h
      · obtain ⟨e, he, rfl⟩ := List.mem_map.1 h
        exact ⟨e, hmem e (by simpa [auditOf, or_comm] using he), rfl⟩
      · exact List.mem_map.1 h
    · exact List.forall_mem_append.2 ⟨fun x hx => (hs x hx).1, fun x hx => (ht x hx).1⟩
  · rintro ⟨honce, ⟨hfields, hown⟩, rfl⟩
    obtain ⟨-, hid, ⟨hsnodup, hsnew⟩, htnodup, htnew⟩ := usedOnce_concat.1 honce
    obtain ⟨hs, ht⟩ := List.forall_mem_append.1 hown
    obtain ⟨hspos, htpos⟩ := List.forall_mem_append.1 hfields.positive
    have hdistinct := hfields.distinct
    rw [List.map_append, List.nodup_append] at hdistinct
    refine ⟨hfields.required, by simpa [auditOf] using hid, fun x hx => ⟨hs x hx, hspos x hx⟩,
      fun x hx => ⟨ht x hx, htpos x hx⟩, _, _,
      ⟨hsnodup, fun k hk hmem => hsnew k hk (List.mem_reverse.1 hmem), rfl⟩, _, _,
        ⟨htnodup, fun k hk => ⟨?_, ?_⟩, rfl⟩, fun r hr => .inr ?_, rfl⟩
    · exact fun hmem => hdistinct.2.2 k (List.mem_reverse.1 hmem) k hk rfl
    · simpa using htnew k hk
    · exact List.mem_map.2 (hfields.requires r hr)

/-- The loop passes when each evolution does and nothing is used twice; the order in which they
are listed decides only the order of the entries. -/
lemma foldlM_auditEvolution {rest : List (SpiiceContract × SchemaEvolution)} (hdone : UsedOnce done)
    (hmem : ∀ e ∈ done ++ rest.map Prod.snd, e ∈ evolutions contracts) {a : Audit} :
    rest.foldlM (auditEvolution trim contracts) (auditOf done) = .ok a ↔
      UsedOnce (done ++ rest.map Prod.snd) ∧ (∀ d ∈ rest, PassesAlone trim contracts d) ∧
        a = auditOf (done ++ rest.map Prod.snd) := by
  induction rest generalizing done with
  | nil => simp [hdone, pure, Except.pure, eq_comm]
  | cons d rest ih =>
    have hassoc : done ++ (d :: rest).map Prod.snd = (done ++ [d.2]) ++ rest.map Prod.snd := by simp
    rw [hassoc] at hmem ⊢
    rw [List.foldlM_cons, Serde.bind_eq_ok, List.forall_mem_cons]
    have hd (a : Audit) := @auditEvolution_eq_ok trim contracts done d hdone
      (fun e he => hmem e (List.mem_append_left _ he)) a
    constructor
    · rintro ⟨a', ha', hrest⟩
      obtain ⟨honce, hpass, rfl⟩ := (hd a').1 ha'
      obtain ⟨honce', hall, ha⟩ := (ih honce hmem).1 hrest
      exact ⟨honce', ⟨hpass, hall⟩, ha⟩
    · rintro ⟨honce, ⟨hpass, hall⟩, ha⟩
      have hfirst := usedOnce_of_append honce
      exact ⟨_, (hd _).2 ⟨hfirst, hpass, rfl⟩, (ih hfirst hmem).2 ⟨honce, hall, ha⟩⟩

lemma declared_snd : (declared contracts).map Prod.snd = evolutions contracts := by
  simp [declared, evolutions, List.map_flatMap, Function.comp_def]

lemma audit_eq_ok {a : Audit} :
    (declared contracts).foldlM (auditEvolution trim contracts) ⟨[], [], []⟩ = .ok a ↔
      UsedOnce (evolutions contracts) ∧ (∀ d ∈ declared contracts, PassesAlone trim contracts d) ∧
        a = auditOf (evolutions contracts) := by
  have h := @foldlM_auditEvolution trim contracts [] (declared contracts)
    ⟨by simp, by simp, by simp⟩ (by simp [declared_snd]) a
  rwa [List.nil_append, declared_snd] at h

/-! ### The search for cycles -/

/-- Two evolutions that produce one key are the same. -/
lemma eq_of_mem_keys {f : SchemaEvolution → List SchemaKey} {l : List SchemaEvolution}
    (h : (l.flatMap f).Nodup) (he : e ∈ l) (he' : e' ∈ l) (hkey : key ∈ f e) (hkey' : key ∈ f e') :
    e = e' := by
  by_contra hne
  have hsymm : Std.Symm (Function.onFun List.Disjoint f) := ⟨fun _ _ hab _ hb ha => hab ha hb⟩
  exact (List.nodup_flatMap.1 h).2.forall he he' hne hkey hkey'

lemma eq_of_id_eq (h : UsedOnce (evolutions contracts)) (he : e ∈ evolutions contracts)
    (he' : e' ∈ evolutions contracts) (hid : e.id = e'.id) : e = e' :=
  List.inj_on_of_nodup_map h.1 he he' hid

lemma mem_children {a b : String} :
    b ∈ children contracts a ↔ ∃ e ∈ evolutions contracts, e.id = b ∧ (a ∈ e.requires ∨
      ∃ prior ∈ evolutions contracts, prior.id = a ∧ a ≠ b ∧ ∃ target ∈ prior.targets,
        ∃ source ∈ e.sources, schemaKey source = schemaKey target) := by
  simp only [children, graph, edgesInto, List.mem_map, List.mem_filter, List.mem_flatMap,
    List.mem_append, decide_eq_true_eq, Prod.exists, exists_eq_right, Prod.mk.injEq]
  constructor
  · rintro ⟨e, he, hedge⟩
    rcases hedge with ⟨required, hreq, rfl, rfl⟩ | ⟨prior, ⟨hprior, hne, hshare⟩, rfl, rfl⟩
    · exact ⟨e, he, rfl, .inl hreq⟩
    · exact ⟨e, he, rfl, .inr ⟨prior, hprior, rfl, hne, hshare⟩⟩
  · rintro ⟨e, he, rfl, hreq | ⟨prior, hprior, rfl, hne, hshare⟩⟩
    · exact ⟨e, he, .inl ⟨a, hreq, rfl, rfl⟩⟩
    · exact ⟨e, he, .inr ⟨prior, ⟨hprior, hne, hshare⟩, rfl, rfl⟩⟩

lemma exists_declared (he : e ∈ evolutions contracts) :
    ∃ contract, (contract, e) ∈ declared contracts := by
  rw [← declared_snd] at he
  simpa using he

/-- No evolution consumes what it produces, so that it is never its own prior. -/
lemma mem_children_iff_precedes (honce : UsedOnce (evolutions contracts))
    (hpass : ∀ d ∈ declared contracts, PassesAlone trim contracts d) {a b : String} :
    b ∈ children contracts a ↔ Precedes contracts a b := by
  rw [mem_children, Precedes]
  refine exists_congr fun e => and_congr_right fun he => and_congr_right fun hb => or_congr_right ?_
  refine exists_congr fun prior => and_congr_right fun hprior => and_congr_right fun ha =>
    ⟨fun h => h.2, fun h => ⟨?_, h⟩⟩
  rintro rfl
  obtain rfl := eq_of_id_eq honce he hprior (hb.trans ha.symm)
  obtain ⟨target, htarget, source, hsource, hkey⟩ := h
  obtain ⟨contract, hd⟩ := exists_declared he
  have hdistinct := (hpass _ hd).1.distinct
  rw [List.map_append, List.nodup_append] at hdistinct
  exact hdistinct.2.2 _ (List.mem_map_of_mem hsource) _ (List.mem_map_of_mem htarget) hkey

lemma visit_eq_ok {id : String} :
    visit contracts id = .ok () ↔ ∃ s, Graphs.visit (children contracts)
      ((evolutions contracts).length + 1) id ([], []) = .ok s := by
  unfold visit
  cases Graphs.visit (children contracts) ((evolutions contracts).length + 1) id ([], []) <;> simp

/-- The edges of an acyclic composition rank its evolutions, in both directions. -/
lemma exists_ranks (hacyclic : ∀ id, ¬ Relation.TransGen (Precedes contracts) id id)
    (hpass : ∀ d ∈ declared contracts, PassesAlone trim contracts d) :
    (∃ rank : String → ℕ, (∀ a b, Precedes contracts a b → rank b < rank a) ∧
      ∀ id, rank id ≤ (evolutions contracts).length) ∧
    ∃ rank : String → ℕ, (∀ a b, Precedes contracts a b → rank a < rank b) ∧
      ∀ id, rank id ≤ (evolutions contracts).length := by
  have hcard :
    ((evolutions contracts).map (·.id)).toFinset.card ≤ (evolutions contracts).length := by
    simpa using List.toFinset_card_le ((evolutions contracts).map (·.id))
  have hmem {e : SchemaEvolution} (he : e ∈ evolutions contracts) :
      e.id ∈ ((evolutions contracts).map (·.id)).toFinset :=
    List.mem_toFinset.2 (List.mem_map_of_mem he)
  constructor
  · obtain ⟨rank, hrank, hbound⟩ := Sql.exists_rank ((evolutions contracts).map (·.id)).toFinset
      (fun a b ⟨e, he, hb, _⟩ => hb ▸ hmem he) hacyclic
    exact ⟨rank, hrank, fun id => (hbound id).trans hcard⟩
  · have hsource : ∀ b a, Precedes contracts a b →
        a ∈ ((evolutions contracts).map (·.id)).toFinset := by
      rintro b a ⟨e, he, -, hreq | ⟨prior, hprior, rfl, -⟩⟩
      · obtain ⟨contract, hd⟩ := exists_declared he
        obtain ⟨e', he', rfl⟩ := (hpass _ hd).1.requires a hreq
        exact hmem he'
      · exact hmem hprior
    obtain ⟨rank, hrank, hbound⟩ := Sql.exists_rank (r := fun b a => Precedes contracts a b) _
      hsource fun id h => hacyclic id (Relation.transGen_swap.1 h)
    exact ⟨rank, fun a b hab => hrank b a hab, fun id => (hbound id).trans hcard⟩

lemma visits_ok_iff (honce : UsedOnce (evolutions contracts))
    (hpass : ∀ d ∈ declared contracts, PassesAlone trim contracts d) :
    (∀ id ∈ (evolutions contracts).map (·.id), visit contracts id = .ok ()) ↔
      ∀ id, ¬ Relation.TransGen (Precedes contracts) id id := by
  have hedges : (fun a b => b ∈ children contracts a) = Precedes contracts := by
    funext a b
    exact propext (mem_children_iff_precedes honce hpass)
  constructor
  · intro h id hcycle
    obtain ⟨a, -, e, he, rfl, -⟩ := Relation.TransGen.tail'_iff.1 hcycle
    obtain ⟨s, hs⟩ := visit_eq_ok.1 (h e.id (List.mem_map_of_mem he))
    have hfinite := (Graphs.finite_of_visit hs (by simp)).1
    exact hfinite.not_cycle (hedges ▸ hcycle)
  · intro hacyclic id hid
    obtain ⟨⟨rank, hrank, hbound⟩, -⟩ := exists_ranks hacyclic hpass
    obtain ⟨visited, hvisit⟩ := Graphs.visit_of_rank
      (fun a b hb => hrank a b ((mem_children_iff_precedes honce hpass).1 hb))
      (Nat.lt_succ_of_le (hbound id)) [] [] (by simp)
    exact visit_eq_ok.2 ⟨_, hvisit⟩

/-! ### The search for first versions -/

lemma mem_produced {p : SchemaKey × String} :
    p ∈ (auditOf (evolutions contracts)).produced ↔
      ∃ e ∈ evolutions contracts, p.1 ∈ targetKeys e ∧ p.2 = e.id := by
  simp only [auditOf, targetKeys, List.mem_reverse, List.mem_flatMap, List.mem_map]
  refine exists_congr fun e => and_congr_right fun _ => ⟨?_, ?_⟩
  · rintro ⟨t, ht, rfl⟩
    exact ⟨⟨t, ht, rfl⟩, rfl⟩
  · rintro ⟨⟨t, ht, hkey⟩, hid⟩
    exact ⟨t, ht, Prod.ext hkey hid.symm⟩

lemma find?_produced (honce : UsedOnce (evolutions contracts)) (he : e ∈ evolutions contracts)
    (hkey : key ∈ targetKeys e) :
    (auditOf (evolutions contracts)).produced.find? (fun p => p.1 = key) = some (key, e.id) := by
  have hsome : ((auditOf (evolutions contracts)).produced.find? fun p => p.1 = key).isSome :=
    List.find?_isSome.2 ⟨(key, e.id), mem_produced.2 ⟨e, he, hkey, rfl⟩, by simp⟩
  obtain ⟨⟨key', id⟩, hfind⟩ := Option.isSome_iff_exists.1 hsome
  obtain rfl : key' = key := by simpa using List.find?_some hfind
  obtain ⟨e', he', hkey', rfl⟩ := mem_produced.1 (List.mem_of_find?_eq_some hfind)
  obtain rfl := eq_of_mem_keys honce.2.2 he he' hkey hkey'
  exact hfind

lemma find?_steps (honce : UsedOnce (evolutions contracts)) (he : e ∈ evolutions contracts) :
    (auditOf (evolutions contracts)).steps.find? (fun step => step.id = e.id) = some e := by
  have hsome : ((auditOf (evolutions contracts)).steps.find? fun step => step.id = e.id).isSome :=
    List.find?_isSome.2 ⟨e, List.mem_reverse.2 he, by simp⟩
  obtain ⟨e', hfind⟩ := Option.isSome_iff_exists.1 hsome
  have hid : e'.id = e.id := by simpa using List.find?_some hfind
  rw [hfind, eq_of_id_eq honce (List.mem_reverse.1 (List.mem_of_find?_eq_some hfind)) he hid]

lemma initial_of_hasInitialPath {n : ℕ} {seen : List String}
    (h : hasInitialPath (auditOf (evolutions contracts)).produced
      (auditOf (evolutions contracts)).steps n key seen = true)
    (honce : UsedOnce (evolutions contracts)) : Initial contracts key := by
  induction n generalizing key seen with
  | zero => exact .first (of_decide_eq_true h)
  | succ n ih =>
    simp only [hasInitialPath, Bool.or_eq_true, decide_eq_true_eq] at h
    rcases h with h | h
    · exact .first h
    split at h
    · cases h
    · next id hfind =>
      split at h
      · cases h
      · split at h
        · cases h
        · next step hstep =>
          have hkey := List.find?_some hfind
          obtain ⟨e, he, htarget, hid⟩ := mem_produced.1 (List.mem_of_find?_eq_some hfind)
          have hmem : step ∈ evolutions contracts :=
            List.mem_reverse.1 (List.mem_of_find?_eq_some hstep)
          have hstepid : step.id = id := by simpa using List.find?_some hstep
          obtain rfl := eq_of_id_eq honce hmem he (hstepid.trans hid)
          refine .step hmem ?_ fun source hsource => ih (List.all_eq_true.1 h source hsource)
          simp only [decide_eq_true_eq] at hkey
          exact hkey ▸ htarget

lemma hasInitialPath_of_initial (honce : UsedOnce (evolutions contracts)) {rank : String → ℕ}
    (hrank : ∀ a b, Precedes contracts a b → rank a < rank b) (h : Initial contracts key) (n : ℕ)
    (seen : List String)
    (hbelow : ∀ e ∈ evolutions contracts, key ∈ targetKeys e →
      rank e.id < n ∧ ∀ v ∈ seen, rank e.id < rank v) :
    hasInitialPath (auditOf (evolutions contracts)).produced
      (auditOf (evolutions contracts)).steps n key seen = true := by
  induction h generalizing n seen with
  | first hversion => cases n <;> simp [hasInitialPath, hversion]
  | @step key e he hkey _ ih =>
    obtain ⟨hn, hseen⟩ := hbelow e he hkey
    obtain ⟨n, rfl⟩ := Nat.exists_eq_succ_of_ne_zero (Nat.ne_of_gt (Nat.zero_lt_of_lt hn))
    -- The producer that is looked up is the one of the tree, and it is not on the stack.
    rw [hasInitialPath, find?_produced honce he hkey]
    simp only [if_neg fun hmem => lt_irrefl _ (hseen e.id hmem), find?_steps honce he,
      Bool.or_eq_true, List.all_eq_true]
    refine .inr fun source hsource => ih source hsource n (e.id :: seen) fun prior hprior ht => ?_
    obtain ⟨target, htarget, hsame⟩ := List.mem_map.1 ht
    have hlt := hrank prior.id e.id
      ⟨e, he, rfl, .inr ⟨prior, hprior, rfl, target, htarget, source, hsource, hsame.symm⟩⟩
    exact ⟨by omega, List.forall_mem_cons.2 ⟨hlt, fun v hv => hlt.trans (hseen v hv)⟩⟩

/-- **The audit accepts exactly the sound compositions**, whatever the order of contracts and
evolutions: ids and fields are in order, each schema key is a source of at most one evolution and
a target of at most one, the graph of requirements and of producers before consumers has no
cycle, every later version goes back to first versions by a finite tree of evolutions, targets
that nothing consumes are registered, and an evolution's schemas belong to its spiice. -/
theorem validateEvolutions_ok_iff (trim : String → String) (contracts : List SpiiceContract) :
    validateEvolutions trim contracts = .ok () ↔ Sound trim contracts := by
  simp only [validateEvolutions, Serde.bind_eq_ok, audit_eq_ok, forM_eq_ok, ensure_eq_ok,
    decide_eq_true_eq, exists_const]
  constructor
  · rintro ⟨a, ⟨honce, hpass, rfl⟩, hvisits, hpaths, hterminal⟩
    refine ⟨honce.1, fun d hd => (hpass d hd).1, honce.2.1, honce.2.2, ?_, ?_, ?_,
      fun d hd => (hpass d hd).2⟩
    · exact (visits_ok_iff honce hpass).1 fun id hid => hvisits id (by simpa [auditOf] using hid)
    · intro contract hcontract schema hschema hversion
      have hpath := (hpaths contract hcontract schema hschema).resolve_left (by omega)
      exact initial_of_hasInitialPath hpath honce
    · intro e he target htarget hterm
      have hkey := hterminal (schemaKey target, e.id)
        (mem_produced.2 ⟨e, he, List.mem_map_of_mem htarget, rfl⟩)
      rcases hkey with hkey | hkey
      · obtain ⟨e', he', hkey⟩ := List.mem_flatMap.1 hkey
        exact absurd hkey (hterm e' (List.mem_reverse.1 he'))
      · exact List.mem_flatMap.1 hkey
  · intro h
    have honce : UsedOnce (evolutions contracts) := ⟨h.ids, h.sourcesOnce, h.targetsOnce⟩
    have hpass (d : SpiiceContract × SchemaEvolution) (hd : d ∈ declared contracts) :
        PassesAlone trim contracts d := ⟨h.fields d hd, h.own d hd⟩
    obtain ⟨-, rank, hrank, hbound⟩ := exists_ranks h.acyclic hpass
    refine ⟨_, ⟨honce, hpass, rfl⟩, fun id hid => ?_, fun contract hcontract schema hschema => ?_,
      fun p hp => ?_⟩
    · exact (visits_ok_iff honce hpass).2 h.acyclic id (by simpa [auditOf] using hid)
    · refine or_iff_not_imp_left.2 fun hversion => ?_
      refine hasInitialPath_of_initial honce hrank
        (h.paths contract hcontract schema hschema (by omega)) _ [] fun e he _ => ⟨?_, by simp⟩
      have := hbound e.id
      simp only [auditOf, List.length_reverse]
      omega
    · obtain ⟨e, he, hkey, -⟩ := mem_produced.1 hp
      obtain ⟨target, htarget, hkey⟩ := List.mem_map.1 hkey
      refine or_iff_not_imp_left.2 fun hno => List.mem_flatMap.2 ?_
      rw [← hkey] at hno ⊢
      refine h.registered e he target htarget fun e' he' hmem => hno ?_
      exact List.mem_flatMap.2 ⟨e', List.mem_reverse.2 he', hmem⟩

end Proxiima.Evolution
