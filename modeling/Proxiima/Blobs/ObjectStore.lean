import Proxiima.Blobs.Transactions

/-!
# The object store

The store keeps versions of objects. It answers a read with the last version that is not removed,
and it honours If-None-Match: a conditional PUT never replaces an object. A delete takes time: it
removes versions of its key one by one, and it succeeds only when all the versions that were there
when it began are gone. A request may fail with or without its effect. The moment of a change is
the number of transactions that had ended.
-/

namespace Proxiima.Blobs

structure Version where
  store : ObjectStoreId
  key : ObjectKey
  bytes : Bytes
  put : ℕ
  removed : Option ℕ
  deriving DecidableEq

/-- The delete of a key, by a drain or to tidy up a transfer key. The versions before `due` were
there when it began; it ends with the debt discharged or not. -/
structure Delete where
  drain : Option ℕ
  store : ObjectStoreId
  key : ObjectKey
  began : ℕ
  due : ℕ
  ended : Option (ℕ × Bool)
  deriving DecidableEq

structure ObjectStore where
  versions : List Version
  deletes : List Delete
  issued : List (ObjectStoreId × Uuid)
  deriving DecidableEq

def Version.isAt (v : Version) (store : ObjectStoreId) (key : ObjectKey) : Bool :=
  v.store = store && v.key = key

inductive PurgeDeleted where
  | removed (versions : ℕ)
  | absent
  deriving DecidableEq

/-- What a delete reports. -/
abbrev DeleteResult := Except StorageError PurgeDeleted

/-- The object is gone, or was not there. -/
def discharges : DeleteResult → Bool
  | .ok _ => true
  | .error e => e = .notFound

namespace ObjectStore

def empty : ObjectStore := ⟨[], [], []⟩

/-- The bytes a read returns. -/
def object (w : ObjectStore) (store : ObjectStoreId) (key : ObjectKey) : Option Bytes :=
  ((w.versions.filter fun v => v.isAt store key && v.removed = none).getLast?).map Version.bytes

def append (w : ObjectStore) (t : ℕ) (store : ObjectStoreId) (key : ObjectKey) (bytes : Bytes) :
    ObjectStore :=
  { w with versions := w.versions ++ [⟨store, key, bytes, t, none⟩] }

def remove (w : ObjectStore) (t i : ℕ) : ObjectStore :=
  { w with versions := w.versions.modify i fun v => { v with removed := some t } }

def startDelete (w : ObjectStore) (t : ℕ) (drain : Option ℕ) (store : ObjectStoreId)
    (key : ObjectKey) : ObjectStore :=
  { w with deletes := w.deletes ++ [⟨drain, store, key, t, w.versions.length, none⟩] }

def endDelete (w : ObjectStore) (t n : ℕ) (ok : Bool) : ObjectStore :=
  { w with deletes := w.deletes.modify n fun d => { d with ended := some (t, ok) } }

/-- Every version that was there when the delete began is removed. -/
def covered (w : ObjectStore) (d : Delete) : Bool :=
  (w.versions.take d.due).all fun v => !v.isAt d.store d.key || v.removed.isSome

end ObjectStore

/-! ### Requests -/

inductive Request where
  | clock
  | presign (store : ObjectStoreId) (u : Uuid)
  | get (store : ObjectStoreId) (key : ObjectKey)
  | putIfNoneMatch (store : ObjectStoreId) (key : ObjectKey) (bytes : Bytes)
  | startDelete (drain : Option ℕ) (store : ObjectStoreId) (key : ObjectKey)
  | endDelete (n : ℕ)

inductive Reply where
  | time (t : ℕ)
  | presigned
  | object (bytes : Bytes) (etag : Option String)
  | missing
  | failed (message : String)
  | stored (etag : Option String)
  | refused (status : Option ℕ) (code : Option String)
  | started (n : ℕ)
  | deleted (r : DeleteResult)

/-- How the surroundings go on: how a request is answered, or what happens meanwhile. -/
inductive Choice where
  | time (t : ℕ)
  | accept (etag : Option String)
  | fail (message : String)
  /-- A PUT that is answered with an error, with or without its effect. -/
  | refuse (effect : Bool) (status : Option ℕ) (code : Option String)
  | finish (r : DeleteResult)
  /-- A client PUTs bytes under a transfer key it was given a URL for. -/
  | clientPut (store : ObjectStoreId) (u : Uuid) (bytes : Bytes)
  /-- A delete removes a version. It may do so after its caller has given up. -/
  | remove (n i : ℕ)

open ObjectStore

def serve (t : ℕ) (x : Request) (j : Choice) (w : ObjectStore) : Option (Reply × ObjectStore) :=
  match x, j with
  | .clock, .time now => some (.time now, w)
  | .presign store u, .accept _ => some (.presigned, { w with issued := (store, u) :: w.issued })
  | .presign _ _, .fail message => some (.failed message, w)
  | .get store key, .accept etag =>
    match w.object store key with
    | some bytes => some (.object bytes etag, w)
    | none => some (.missing, w)
  | .get _ _, .fail message => some (.failed message, w)
  | .putIfNoneMatch store key bytes, .accept etag =>
    if w.object store key = none then some (.stored etag, w.append t store key bytes) else none
  | .putIfNoneMatch store key bytes, .refuse effect status code =>
    some (.refused status code,
      if effect ∧ w.object store key = none then w.append t store key bytes else w)
  | .startDelete drain store key, .accept _ =>
    some (.started w.deletes.length, w.startDelete t drain store key)
  | .endDelete n, .finish r =>
    (w.deletes[n]?).bind fun d =>
      if d.ended = none ∧ (discharges r → w.covered d) then
        some (.deleted r, w.endDelete t n (discharges r))
      else none
  | _, _ => none

def drift (t : ℕ) (j : Choice) (w : ObjectStore) : Option ObjectStore :=
  match j with
  | .clientPut store u bytes =>
    if (store, u) ∈ w.issued then some (w.append t store (.pending u) bytes) else none
  | .remove n i =>
    match w.deletes[n]?, w.versions[i]? with
    | some d, some v =>
      if v.isAt d.store d.key ∧ v.removed = none then some (w.remove t i) else none
    | _, _ => none
  | _ => none

/-! ### What reads return -/

namespace ObjectStore

variable {w : ObjectStore} {store : ObjectStoreId} {key : ObjectKey} {bytes : Bytes}

lemma object_append_self (t : ℕ) : (w.append t store key bytes).object store key = some bytes := by
  simp [object, append, Version.isAt, List.filter_append]

lemma object_append_ne {store' : ObjectStoreId} {key' : ObjectKey} (t : ℕ)
    (h : ¬ (store = store' ∧ key = key')) :
    (w.append t store key bytes).object store' key' = w.object store' key' := by
  have hno : ¬ ((decide (store = store') && decide (key = key')) = true) := by simpa using h
  simp [object, append, Version.isAt, List.filter_append, hno]

/-- Removing a version of another key leaves the object alone. -/
lemma object_remove_ne {t i : ℕ} {v : Version} (hv : w.versions[i]? = some v)
    (h : v.isAt store key = false) : (w.remove t i).object store key = w.object store key := by
  have hfilter : ∀ (vs : List Version) (i : ℕ), vs[i]? = some v →
      (vs.modify i fun v => { v with removed := some t }).filter
        (fun v => v.isAt store key && v.removed = none) =
      vs.filter fun v => v.isAt store key && v.removed = none := by
    intro vs
    induction vs with
    | nil => simp
    | cons x vs ih =>
      rintro (_ | i) hi
      · obtain rfl := Option.some.inj hi
        simp [h]
      · simp [List.filter_cons, ih i (by simpa using hi)]
  rw [object, object, remove, hfilter _ i hv]

end ObjectStore

end Proxiima.Blobs
