import Mathlib.Data.List.Lex
import Mathlib.Data.Prod.Lex
import Proxiima.MemoryUuid
import Proxiima.Ordered.SortedMap

/-!
# The host vector index and its sweep

The store keeps a head for each key, its owner and version; a host index keeps the vectors. What the
index is owed after a change of heads is debt, one row for each key. The sweep reads both sides in
key order, a page of each at a time, compares them as far as both pages reach, and repairs the keys
where they disagree in small transactions.
-/

namespace Proxiima.VectorIndex

inductive EmbeddingDim where
  | d384 | d768 | d1024 | d1536 | d2048 | d3072
  deriving DecidableEq

def EmbeddingDim.width : EmbeddingDim → ℕ
  | d384 => 384
  | d768 => 768
  | d1024 => 1024
  | d1536 => 1536
  | d2048 => 2048
  | d3072 => 3072

instance : LinearOrder EmbeddingDim :=
  LinearOrder.lift' EmbeddingDim.width
    fun a b h => by cases a <;> cases b <;> simp_all [EmbeddingDim.width]

/-- A key in the order both sides page in: entity, model id bytewise, width. -/
abbrev Key := Uuid ×ₗ List (Fin 256) ×ₗ EmbeddingDim

/-- What one head holds, and what the index holds for a key. -/
@[ext] structure Head where
  owner : Uuid
  version : ℤ
  deriving DecidableEq

/-- What a debt row asks of the index. -/
inductive DebtOp where
  | delete | owner
  deriving DecidableEq

structure Debt where
  owner : Uuid
  op : DebtOp
  deriving DecidableEq

structure VectorStore where
  heads : SortedMap Key Head
  index : SortedMap Key Head
  debt : SortedMap Key Debt
  deriving DecidableEq

/-! ### Calls of the index -/

def keysPerCall : ℕ := 500

/-- `VectorIndex::delete`. -/
def delete (index : SortedMap Key Head) (keys : List Key) : SortedMap Key Head :=
  index.filter fun key _ => key ∉ keys

/-- `VectorIndex::set_owner`. -/
def setOwner (index : SortedMap Key Head) (keys : List Key) (owner : Uuid) : SortedMap Key Head :=
  index.adjust fun key entry => if key ∈ keys then { entry with owner := owner } else entry

def deleteKeys (index : SortedMap Key Head) (keys : List Key) : SortedMap Key Head :=
  (keys.toChunks keysPerCall).foldl delete index

/-- The keys to move to each owner. -/
abbrev Moves := SortedMap Uuid (List Key)

def Moves.push (moves : Moves) (owner : Uuid) (key : Key) : Moves :=
  moves.insert owner ((moves.get? owner).getD [] ++ [key])

def moveKeys (index : SortedMap Key Head) (moves : Moves) : SortedMap Key Head :=
  moves.rows.foldl
    (fun index p =>
      (p.2.toChunks keysPerCall).foldl (fun index keys => setOwner index keys p.1) index)
    index

/-- The deleted keys, then each new owner's. -/
def apply (index : SortedMap Key Head) (rows : List (Key × Debt)) : SortedMap Key Head :=
  let deletes := (rows.filter fun r => r.2.op = .delete).map Prod.fst
  let moves := (rows.filter fun r => r.2.op = .owner).foldl
    (fun moves r => Moves.push moves r.2.owner r.1) .empty
  moveKeys (deleteKeys index deletes) moves

namespace VectorStore

/-! ### Changes of heads -/

/-- Heads are deleted; the trigger leaves a debt for each of them. -/
def deleteHeads (s : VectorStore) (p : Key → Head → Bool) : VectorStore where
  heads := s.heads.filter fun key head => !p key head
  index := s.index
  debt := (s.heads.filter p).rows.foldl
    (fun debt r => debt.insert r.1 { owner := r.2.owner, op := .delete }) s.debt

/-- A head moves to another owner; the trigger leaves a debt if the owner is another. -/
def moveHead (s : VectorStore) (key : Key) (owner : Uuid) : VectorStore :=
  match s.heads.get? key with
  | none => s
  | some head =>
    { s with
      heads := s.heads.insert key { head with owner := owner }
      debt := if head.owner = owner
        then s.debt else s.debt.insert key { owner := owner, op := .owner } }

/-- `insert_embedding_head`: the head advances, the debt of its key goes, and the index gets the
vectors. -/
def insertEmbeddingHead (s : VectorStore) (key : Key) (owner : Uuid) : VectorStore :=
  let head : Head :=
    match s.heads.get? key with
    | none => { owner := owner, version := 1 }
    | some head => { head with version := head.version + 1 }
  { heads := s.heads.insert key head
    index := s.index.insert key { owner := owner, version := head.version }
    debt := s.debt.filter fun k _ => k ≠ key }

/-- `drain_debt`, for the rows it took. -/
def drainDebt (s : VectorStore) (rows : List (Key × Debt)) : VectorStore where
  heads := s.heads
  index := apply s.index rows
  debt := s.debt.filter fun key debt => (key, debt) ∉ rows

end VectorStore

/-! ### The sweep -/

/-- What the sweep repaired. -/
structure IndexSweep where
  entriesDeleted : ℕ := 0
  headsDeleted : ℕ := 0
  deriving DecidableEq

/-- The keys where the index and the heads disagree, by what each side held. -/
def disagreements (entries heads : SortedMap Key Head) :
    SortedMap Key (Option Head × Option Head) :=
  let seen : SortedMap Key (Option Head × Option Head) := entries.rows.foldl
    (fun seen r => seen.insert r.1 (some r.2, ((seen.get? r.1).getD (none, none)).2)) .empty
  let seen := heads.rows.foldl
    (fun seen r => seen.insert r.1 (((seen.get? r.1).getD (none, none)).1, some r.2)) seen
  seen.filter fun _ held => held.1 ≠ held.2

/-- What the index and the heads held for one key. -/
abbrev Suspect := Key × Option Head × Option Head

structure Repairs where
  stale : List Key
  moves : Moves
  lost : List (Key × ℤ)

/-- What one suspect asks for, under its head lock and while its head is what the page read. -/
def judge (held : Key → Bool) (heads : SortedMap Key Head) (r : Repairs) (suspect : Suspect) :
    Repairs :=
  let (key, entry, read) := suspect
  if held key then r
  else if heads.get? key ≠ read then r
  else
    match entry, read with
    | some _, none => { r with stale := r.stale ++ [key] }
    | some entry, some head =>
      if entry.version = head.version then { r with moves := Moves.push r.moves head.owner key }
      else { r with lost := r.lost ++ [(key, head.version)] }
    | none, some head => { r with lost := r.lost ++ [(key, head.version)] }
    | none, none => r

/-- `held` are the keys whose lock another transaction holds. -/
def repair (held : Key → Bool) (s : VectorStore) (swept : IndexSweep) (suspects : List Suspect) :
    VectorStore × IndexSweep :=
  let r := suspects.foldl (judge held s.heads) ⟨[], .empty, []⟩
  let index := moveKeys (deleteKeys s.index r.stale) r.moves
  let lost : Key → Head → Bool := fun key head => (key, head.version) ∈ r.lost
  ({ s with index := index }.deleteHeads lost,
    { entriesDeleted := swept.entriesDeleted + r.stale.length
      headsDeleted := swept.headsDeleted + (s.heads.filter lost).rows.length })

def sweepPage : ℕ := 500
def repairsPerTransaction : ℕ := 50

/-- Both sides are complete up to the smaller last key of a full page. -/
def cutoff (entries heads : SortedMap Key Head) : Option Key :=
  match SortedMap.lastKey sweepPage entries, SortedMap.lastKey sweepPage heads with
  | some a, some b => some (min a b)
  | some a, none => some a
  | none, last => last

/-- `key` is at most `cutoff`, if there is one. -/
def within (cutoff : Option Key) (key : Key) : Bool := cutoff.all (key ≤ ·)

/-- `sweep_index`, for at most `fuel` pages. -/
def sweepIndex (held : Key → Bool) :
    ℕ → Option Key → VectorStore → IndexSweep → Option (VectorStore × IndexSweep)
  | 0, _, _, _ => none
  | fuel + 1, after, s, swept =>
    let heads := s.heads.page after sweepPage
    let entries := s.index.page after sweepPage
    let last := cutoff entries heads
    let entries := entries.filter fun key _ => within last key
    let heads := heads.filter fun key _ => within last key
    let suspects := (disagreements entries heads).rows
    let (s, swept) := (suspects.toChunks repairsPerTransaction).foldl
      (fun p suspects => repair held p.1 p.2 suspects) (s, swept)
    match last with
    | some cutoff => sweepIndex held fuel (some cutoff) s swept
    | none => some (s, swept)

end Proxiima.VectorIndex
