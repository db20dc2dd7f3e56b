import Proxiima.Graphs.Tarjan
import Proxiima.MemoryUuid

/-!
# The order in which series are erased

The series of a closure are erased in units: a series goes before what it references, and series
that reference one another in a ring go together. Series that nothing pending references are ready;
when none is, a ring that no other pending series references goes next. A count that would
underflow and a search that would not end give nothing.
-/

namespace Proxiima.SeriesErase

open Graphs

structure Version where
  handle : Uuid
  ownerId : Uuid
  schemaId : Option String
  deriving DecidableEq

/-- The part of a footprint that the order is made of: its versions by `t`, and the pairs of
referrer and referenced. -/
structure Footprint where
  versions : List (Uuid × Version)
  keys : (versions.map Prod.fst).Pairwise (· < ·)
  references : List (Uuid × Uuid)

/-- The elements of a `BTreeSet`, in order. -/
def btreeSet (l : List Uuid) : List Uuid := l.dedup.insertionSort (· ≤ ·)

@[simp] lemma mem_btreeSet {l : List Uuid} {x : Uuid} : x ∈ btreeSet l ↔ x ∈ l := by
  simp [btreeSet]

lemma nodup_btreeSet (l : List Uuid) : (btreeSet l).Nodup :=
  (List.perm_insertionSort _ _).nodup_iff.2 (List.nodup_dedup l)

namespace Footprint

variable (closure : Footprint)

def handles : List Uuid := btreeSet (closure.versions.map fun v => v.2.handle)

/-- The series of a version. -/
def seriesOf (t : Uuid) : Option Uuid := (closure.versions.lookup t).map Version.handle

/-- A reference between two series. -/
def edge (r : Uuid × Uuid) : Option (Uuid × Uuid) :=
  match closure.seriesOf r.1, closure.seriesOf r.2 with
  | some source, some target => if source ≠ target then some (source, target) else none
  | _, _ => none

end Footprint

/-! ### References and counts -/

/-- `BTreeMap<Uuid, BTreeSet<Uuid>>`, as the set of its pairs. -/
abbrev References := List (Uuid × Uuid)

/-- The series that a series references. -/
def referencesOf (refs : References) (handle : Uuid) : List Uuid :=
  btreeSet ((refs.filter fun r => r.1 = handle).map Prod.snd)

@[simp] lemma mem_referencesOf {refs : References} {a b : Uuid} :
    b ∈ referencesOf refs a ↔ (a, b) ∈ refs := by
  simp only [referencesOf, mem_btreeSet, List.mem_map, List.mem_filter, decide_eq_true_eq]
  constructor
  · rintro ⟨⟨a', b'⟩, ⟨hmem, rfl⟩, rfl⟩
    exact hmem
  · exact fun h => ⟨(a, b), ⟨h, rfl⟩, rfl⟩

/-- For each series that is not placed, the number of series that reference it and are not. -/
abbrev Pending := List (Uuid × ℕ)

/-- `*pending.entry(to).or_default() += 1`. -/
def bump (target : Uuid) : Pending → Pending
  | [] => [(target, 1)]
  | (h, n) :: rest =>
    if h = target then (h, n + 1) :: rest
    else if target < h then (target, 1) :: (h, n) :: rest
    else (h, n) :: bump target rest

/-- `if let Some(referrers) = pending.get_mut(to) { *referrers -= 1 }`. -/
def decrement (target : Uuid) : Pending → Option Pending
  | [] => some []
  | (h, n) :: rest =>
    if h = target then (if n = 0 then none else some ((h, n - 1) :: rest))
    else (decrement target rest).map ((h, n) :: ·)

def addReference (s : References × Pending) (e : Uuid × Uuid) : References × Pending :=
  if e ∈ s.1 then s else (s.1 ++ [e], bump e.2 s.2)

/-- The references between the series of a closure and their counts. -/
def countReferences (closure : Footprint) : References × Pending :=
  (closure.references.filterMap closure.edge).foldl addReference
    ([], closure.handles.map fun h => (h, 0))

/-! ### Rings -/

/-- The series that reference nothing still in the ring. -/
def below (refs : References) (ring : List Uuid) : List Uuid :=
  ring.filter fun h => (referencesOf refs h).all fun x => x ∉ ring

def without (ring gone : List Uuid) : List Uuid := ring.filter fun x => x ∉ gone

lemma length_without {refs : References} {ring : List Uuid} (h : below refs ring ≠ []) :
    (without ring (below refs ring)).length < ring.length := by
  obtain ⟨x, hx⟩ := List.exists_mem_of_ne_nil _ h
  refine Nat.lt_of_le_of_ne (List.length_filter_le _ _) fun hlen => ?_
  have := List.length_filter_eq_length_iff.1 hlen x (List.mem_of_mem_filter hx)
  exact of_decide_eq_true this hx

/-- The loop of `ring`, that peels what hangs below the rings. -/
def peel (refs : References) (ring : List Uuid) : List Uuid :=
  if h : below refs ring = [] then ring
  else
    have := length_without h
    peel refs (without ring (below refs ring))
termination_by ring.length

/-- The successors of a series in `set`. -/
def within (refs : References) (set : List Uuid) (handle : Uuid) : List Uuid :=
  (referencesOf refs handle).filter fun x => x ∈ set

/-- The place of a series among the components. -/
def componentOf (components : List (List Uuid)) (handle : Uuid) : ℕ :=
  components.findIdx fun c => handle ∈ c

/-- Some series of another component references one of this component. -/
def incoming (refs : References) (set : List Uuid) (components : List (List Uuid)) (c : ℕ) : Bool :=
  set.any fun source => (within refs set source).any fun target =>
    componentOf components source ≠ componentOf components target &&
      componentOf components target = c

/-- The oldest series of a component. -/
def oldest (components : List (List Uuid)) (c : ℕ) : WithBot Uuid :=
  (components[c]?).bind List.min?

def sourceComponent (set : List Uuid) (refs : References) : Option (List Uuid) :=
  if set = [] then some []
  else do
    let state ← Tarjan.search (within refs set) set.length set .empty
    let sources := (List.range state.components.length).filter fun c =>
      !incoming refs set state.components c
    let source := (sources.minOn? (oldest state.components)).getD 0
    let members ← state.components[source]?
    some (members.insertionSort (· ≤ ·))

def ring (pending : Pending) (refs : References) : Option (List Uuid) :=
  sourceComponent (peel refs (pending.map Prod.fst)) refs

/-! ### The order -/

/-- The counts after the units are placed. -/
def release (refs : References) (placed : List Uuid) (pending : Pending) : Option Pending :=
  (placed.flatMap (referencesOf refs)).foldlM (fun p target => decrement target p) pending

/-- The next units: the series that are ready, or one ring. -/
def nextUnits (refs : References) (pending : Pending) : Option (List (List Uuid)) :=
  let ready := (pending.filter fun p => p.2 = 0).map Prod.fst
  if ready = [] then (ring pending refs).map fun r => [r]
  else some (ready.map fun h => [h])

def orderLoop (refs : References) : ℕ → Pending → List (List Uuid) → Option (List (List Uuid))
  | fuel, pending, order =>
    if pending = [] then some order
    else match fuel with
      | 0 => none
      | fuel + 1 => do
        let units ← nextUnits refs pending
        let pending ← release refs units.flatten
          (pending.filter fun p => p.1 ∉ units.flatten)
        orderLoop refs fuel pending (order ++ units)

/-- `erase_order`. The loop places a series each time. -/
def eraseOrder (closure : Footprint) : Option (List (List Uuid)) :=
  let (refs, pending) := countReferences closure
  orderLoop refs pending.length pending []

end Proxiima.SeriesErase
