import Mathlib.Data.List.Sort
import Mathlib.Data.Prod.Lex
import Mathlib.Data.String.Basic
import Proxiima.Memory.Tables
import Proxiima.Paging.Cursors

/-!
# Reading edges page by page

An edge is a pin of a memory row, listed newest first: by the time and the id of its source, then
by target and kind. A listing by target loads the rows that pin it in pages of its own until it has
one edge more than was asked for, so that every page of edges is the front of what its cursor
leaves.
-/

namespace Proxiima.Edges

open Paging

inductive EdgeKind where
  | origin | reference
  deriving DecidableEq

def EdgeKind.asStr : EdgeKind → String
  | origin => "origin"
  | reference => "reference"

inductive EntityRef where
  | memory (id : Uuid)
  | goal (id : Uuid)
  deriving DecidableEq

def EntityRef.id : EntityRef → Uuid
  | memory id => id
  | goal id => id

inductive EdgeEndpoint where
  | memory (kind : Memory.MemoryKind) (id : Uuid)
  | goal (id : Uuid)
  deriving DecidableEq

inductive EdgeTargetProjection where
  | visible (target : EdgeEndpoint)
  | redacted
  | forgotten
  deriving DecidableEq

structure Edge where
  source : EdgeEndpoint
  target : EdgeTargetProjection
  kind : EdgeKind
  createdAt : ℕ
  deriving DecidableEq

/-! ### Rows and nodes -/

/-- A memory row as a pin carrier, as it is stored. -/
structure PinNodeRow where
  t : Uuid
  kind : Memory.MemoryKind
  schemaId : String
  origins : List Uuid
  refs : List Uuid
  goalRefs : List Uuid
  guidedBy : List Uuid
  forkedFrom : Option Uuid
  deriving DecidableEq

structure PinNode where
  id : Uuid
  kind : Memory.MemoryKind
  schemaId : String
  origins : List Uuid
  refs : List Uuid
  goalRefs : List Uuid
  guidedBy : List Uuid
  deriving DecidableEq

def PinNodeRow.intoPinNode (row : PinNodeRow) : PinNode where
  id := row.t
  kind := row.kind
  schemaId := row.schemaId
  origins := row.origins
  refs := row.refs ++ row.forkedFrom.toList.filter (· ∉ row.refs)
  goalRefs := row.goalRefs
  guidedBy := row.guidedBy

/-- A Goal that the reader may not see is carried as if it were a Memory. -/
def PinNode.resolveVisibleGoalRefs (visible : List Uuid) (node : PinNode) : PinNode :=
  { node with
    refs := node.refs ++ node.goalRefs.filter (· ∉ visible) ++ node.guidedBy.filter (· ∉ visible)
    goalRefs := node.goalRefs.filter (· ∈ visible)
    guidedBy := node.guidedBy.filter (· ∈ visible) }

def PinNode.pins (node : PinNode) : List (Uuid × EdgeKind) :=
  node.origins.map (·, .origin) ++ node.refs.map (·, .reference)

def PinNode.goalPins (node : PinNode) : List (Uuid × EdgeKind) :=
  node.goalRefs.map (·, .reference) ++ node.guidedBy.map (·, .reference)

/-- What a caller's reads see of a store: the readable rows, newest first, the Goals in sight, and
the rows that would be readable were they not forgotten. -/
structure Reader where
  rows : List PinNodeRow
  goals : List Uuid
  forgotten : List Uuid
  newestFirst : rows.Pairwise fun a b => b.t < a.t

def Reader.node (R : Reader) (row : PinNodeRow) : PinNode :=
  row.intoPinNode.resolveVisibleGoalRefs R.goals

def Reader.loadPinNodes (R : Reader) (ids : List Uuid) : List PinNodeRow :=
  R.rows.filter (·.t ∈ ids)

/-- `inbound_pin_sql`, where superseded rows are included: the kind of the target selects the
columns. -/
def pinsTarget (kind : Option EdgeKind) (target : EntityRef) (row : PinNodeRow) : Bool :=
  match target, kind with
  | .memory id, some .reference => id ∈ row.refs ∨ row.forkedFrom = some id
  | .memory id, none => id ∈ row.origins ∨ id ∈ row.refs ∨ row.forkedFrom = some id
  | .goal id, some .reference => id ∈ row.goalRefs ∨ id ∈ row.guidedBy
  | .goal id, none => id ∈ row.origins ∨ id ∈ row.goalRefs ∨ id ∈ row.guidedBy
  | _, some .origin => target.id ∈ row.origins

/-- `load_inbound_pin_nodes`, the rows before the limit. -/
def Reader.inbound (R : Reader) (kind : Option EdgeKind) (target : EntityRef)
    (after : Option Uuid) : List PinNodeRow :=
  (R.rows.filter (pinsTarget kind target)).filter fun row => after.all (row.t < ·)

/-! ### Hops -/

structure PinHop where
  sourceId : Uuid
  sourceKind : Memory.MemoryKind
  target : EntityRef
  kind : EdgeKind
  deriving DecidableEq

def expandHops (nodes : List PinNode) : List PinHop :=
  nodes.flatMap fun node =>
    node.pins.map (fun pin => ⟨node.id, node.kind, .memory pin.1, pin.2⟩) ++
      node.goalPins.map fun pin => ⟨node.id, node.kind, .goal pin.1, pin.2⟩

abbrev HopKey := ℕ ×ₗ Uuid ×ₗ Uuid ×ₗ String

def pinCreatedAt (source : Uuid) : ℕ := timestampMillis source

def hopKey (hop : PinHop) : HopKey :=
  toLex (pinCreatedAt hop.sourceId, toLex (hop.sourceId, toLex (hop.target.id, hop.kind.asStr)))

structure EdgeReadCursor where
  createdAt : ℕ
  source : EntityRef
  target : EntityRef
  kind : EdgeKind
  deriving DecidableEq

def cursorOf (hop : PinHop) : EdgeReadCursor :=
  ⟨pinCreatedAt hop.sourceId, .memory hop.sourceId, hop.target, hop.kind⟩

def cursorKey (cursor : Option EdgeReadCursor) : Option HopKey :=
  cursor.bind fun c =>
    match c.source with
    | .memory source =>
      some (toLex (c.createdAt, toLex (source, toLex (c.target.id, c.kind.asStr))))
    | .goal _ => none

structure EdgeFilter where
  kind : Option EdgeKind
  source : Option EntityRef
  target : Option EntityRef
  deriving DecidableEq

def matchingHops (sources : List PinNode) (sourceId : Option Uuid) (target : Option EntityRef)
    (kind : Option EdgeKind) : List PinHop :=
  (expandHops sources).filter fun hop =>
    sourceId.all (hop.sourceId = ·) && target.all (hop.target = ·) && kind.all (hop.kind = ·)

def Reader.projectHopEdge (R : Reader) (hop : PinHop) : Edge where
  source := .memory hop.sourceKind hop.sourceId
  target :=
    match hop.target with
    | .memory target =>
      match R.rows.find? (·.t = target) with
      | some row => .visible (.memory row.kind target)
      | none => if target ∈ R.forgotten then .forgotten else .redacted
    | .goal target => .visible (.goal target)
  kind := hop.kind
  createdAt := pinCreatedAt hop.sourceId

/-- `sort_unstable_by` the key, newest first. -/
def sortHops (hops : List PinHop) : List PinHop :=
  hops.insertionSort fun left right => hopKey right ≤ hopKey left

/-- Those below the cursor. -/
def afterCursor (cursor : Option EdgeReadCursor) (hops : List PinHop) : List PinHop :=
  hops.filter fun hop => (cursorKey cursor).all (hopKey hop < ·)

abbrev EdgeReadResponse := Page Edge EdgeReadCursor

def Reader.pageHops (R : Reader) (hops : List PinHop) (cursor : Option EdgeReadCursor) (limit : ℕ) :
    EdgeReadResponse :=
  pageOf R.projectHopEdge cursorOf (afterCursor cursor (sortHops hops)) limit

/-! ### The read -/

def inboundSourcePageMin : ℕ := 256

def inboundSourcePageLimit (cursor : Option EdgeReadCursor) (limit : ℕ) : ℕ :=
  if limit = 1 ∧ cursor = none then 2 else max (limit + 1) inboundSourcePageMin

section Incoming

variable (R : Reader) (kind : Option EdgeKind) (target : EntityRef) (cursor : Option EdgeReadCursor)
variable (limit : ℕ)

/-- The pages of sources, until one edge more than a page holds is found or they end. -/
def Reader.incomingPages : ℕ → List PinNode → Option Uuid → List PinNode
  | 0, sources, _ => sources
  | fuel + 1, sources, after =>
    let page := (R.inbound kind target after).take (inboundSourcePageLimit cursor limit)
    let sources := sources ++ page.map R.node
    if limit < (afterCursor cursor (matchingHops sources none (some target) kind)).length ∨
        page.length < inboundSourcePageLimit cursor limit then
      sources
    else
      incomingPages fuel sources ((page.getLast?.map (·.t)).or after)

def Reader.loadIncomingSources (fuel : ℕ) : List PinNode :=
  match cursor with
  | some ⟨_, .memory source, _, _⟩ => R.incomingPages kind target cursor limit fuel
      ((R.loadPinNodes [source]).map R.node) (some source)
  | _ => R.incomingPages kind target cursor limit fuel [] none

end Incoming

/-- `read_edges_from_nodes`; `fuel` bounds the source pages of one read. -/
def Reader.readEdges (R : Reader) (fuel : ℕ) (filter : EdgeFilter) (cursor : Option EdgeReadCursor)
    (limit : ℕ) : EdgeReadResponse :=
  match filter.source, filter.target with
  | some (.goal _), _ => ⟨[], none⟩
  | none, none => ⟨[], none⟩
  | some (.memory source), _ =>
    if limit = 0 then ⟨[], none⟩
    else
      R.pageHops (matchingHops ((R.loadPinNodes [source]).map R.node) (some source) filter.target
        filter.kind) cursor limit
  | none, some target =>
    if limit = 0 then ⟨[], none⟩
    else
      R.pageHops (matchingHops (R.loadIncomingSources filter.kind target cursor limit fuel) none
        (some target) filter.kind) cursor limit

end Proxiima.Edges
