import Mathlib.Data.List.Dedup
import Proxiima.Identity.CanonicalJson
import Proxiima.Identity.PayloadKey

/-!
# Content fingerprints

What a keyed request asserts is hashed as its scope and one frame for each field: the name, a
byte for whether the field has a value, and the value behind its length. Texts are trimmed,
tags and sets of ids are sorted and taken once. The bytes that reach the hash are equal exactly
when the fields are, after that normalisation.
-/

namespace Proxiima.Identity

open Codes

inductive KeyScope where
  | note
  | utterance
  | abstraction
  | perspective
  | goalAbstraction (goal user : UuidBits)
  | goalPerspective (goal user : UuidBits)

def KeyScope.asStr : KeyScope → String
  | .note => "note"
  | .utterance => "utterance"
  | .abstraction => "abstraction"
  | .perspective => "perspective"
  | .goalAbstraction .. => "goal/abstraction"
  | .goalPerspective .. => "goal/perspective"

/-- The text functions of the standard library that the builder uses. -/
structure TextFns where
  trim : Str → Str
  toAsciiLowercase : Str → Str

/-- `sort_unstable` and `dedup` on values ordered by a key. -/
def sortedSet {α κ : Type} [DecidableEq α] [LinearOrder κ] (key : α → κ) (l : List α) : List α :=
  (l.insertionSort fun a b => key a ≤ key b).dedup

variable {N : Type} (fns : TextFns) {tokens : Tokens N}

def schemaBuf (tokens : Tokens N) (schemaId : Str) (schemaVersion : UInt32)
    (payload : JsonValue N) : Bytes :=
  be 8 (utf8 schemaId).length ++ utf8 schemaId ++ be 4 schemaVersion.toNat ++
    canonicalJsonBytes tokens payload

/-- The arguments of `schema_payload`; they are put together in one vector. -/
structure SchemaPayload (tokens : Tokens N) where
  schemaId : Str
  schemaVersion : UInt32
  payload : JsonValue N
  fits : (schemaBuf tokens schemaId schemaVersion payload).length < 2 ^ 63

def normalTags (tags : List Str) : List Str :=
  (tags.map fun t => fns.toAsciiLowercase (fns.trim t)).filter (·.1 ≠ "")

/-! ### The builder -/

/-- The builder by the bytes its hasher has been given. -/
structure ContentFingerprintBuilder where
  hashed : Bytes

namespace ContentFingerprintBuilder

def new (scope : KeyScope) : ContentFingerprintBuilder :=
  ⟨utf8 "proxiima-request-v1" ++ [0] ++ utf8 scope.asStr⟩

variable (b : ContentFingerprintBuilder)

def update (bytes : Bytes) : ContentFingerprintBuilder := ⟨b.hashed ++ bytes⟩

def tag (name : Str) : ContentFingerprintBuilder :=
  ((b.update [0]).update (be 8 (utf8 name).length)).update (utf8 name)

def present (field : Str) : ContentFingerprintBuilder := (b.tag field).update [1]

def absent (field : Str) : ContentFingerprintBuilder := (b.tag field).update [0]

def bytes (field : Str) (value : Slice UInt8) : ContentFingerprintBuilder :=
  ((b.present field).update (be 8 value.1.length)).update value

def text (field value : Str) : ContentFingerprintBuilder :=
  b.bytes field ⟨utf8 (fns.trim value), (fns.trim value).2⟩

def absentText (field : Str) : ContentFingerprintBuilder := b.absent field

def absentBytes (field : Str) : ContentFingerprintBuilder := b.absent field

def schemaPayload (field : Str) (p : SchemaPayload tokens) : ContentFingerprintBuilder :=
  b.bytes field ⟨schemaBuf tokens p.schemaId p.schemaVersion p.payload, p.fits⟩

def uuidSet (field : Str) (ids : Slice UuidBits) : ContentFingerprintBuilder :=
  let ids := sortedSet id ids.1
  ((b.present field).update (be 8 ids.length)).update (ids.flatMap fun i => be 16 i.1)

def absentUuidSet (field : Str) : ContentFingerprintBuilder := b.absent field

def tags (tags : Slice Str) : ContentFingerprintBuilder :=
  let tags := sortedSet (fun t : Str => rank t.1) (normalTags fns tags.1)
  ((b.present ⟨"tags", by decide⟩).update (be 8 tags.length)).update
    (tags.flatMap fun t : Str => be 8 (utf8 t.1).length ++ utf8 t.1)

end ContentFingerprintBuilder

/-! ### Calls and their fields -/

inductive FingerprintCall (tokens : Tokens N) where
  | text (field value : Str)
  | absentText (field : Str)
  | bytes (field : Str) (value : Slice UInt8)
  | absentBytes (field : Str)
  | schemaPayload (field : Str) (p : SchemaPayload tokens)
  | uuidSet (field : Str) (ids : Slice UuidBits)
  | absentUuidSet (field : Str)
  | tags (tags : Slice Str)

def ContentFingerprintBuilder.call (b : ContentFingerprintBuilder) :
    FingerprintCall tokens → ContentFingerprintBuilder
  | .text field value => b.text fns field value
  | .absentText field => b.absentText field
  | .bytes field value => b.bytes field value
  | .absentBytes field => b.absentBytes field
  | .schemaPayload field p => b.schemaPayload field p
  | .uuidSet field ids => b.uuidSet field ids
  | .absentUuidSet field => b.absentUuidSet field
  | .tags ts => b.tags fns ts

/-- The bytes fed to the hash. -/
def fingerprintBytes (scope : KeyScope) (calls : List (FingerprintCall tokens)) : Bytes :=
  (calls.foldl (ContentFingerprintBuilder.call fns) (.new scope)).hashed

/-- A value as it was passed. -/
inductive Passed (tokens : Tokens N) where
  | text (value : Str)
  | bytes (value : Slice UInt8)
  | schemaPayload (p : SchemaPayload tokens)
  | uuidSet (ids : Slice UuidBits)
  | tags (tags : Slice Str)

inductive FieldType where
  | text | bytes | schemaPayload | uuidSet | tags

def Passed.type : Passed tokens → FieldType
  | .text _ => .text
  | .bytes _ => .bytes
  | .schemaPayload _ => .schemaPayload
  | .uuidSet _ => .uuidSet
  | .tags _ => .tags

namespace FingerprintCall

def field : FingerprintCall tokens → Str
  | .text field _ | .absentText field | .bytes field _ | .absentBytes field
  | .schemaPayload field _ | .uuidSet field _ | .absentUuidSet field => field
  | .tags _ => ⟨"tags", by decide⟩

/-- The value of a field, unless it is declared absent. -/
def value : FingerprintCall tokens → Option (Passed tokens)
  | .text _ value => some (.text value)
  | .bytes _ value => some (.bytes value)
  | .schemaPayload _ p => some (.schemaPayload p)
  | .uuidSet _ ids => some (.uuidSet ids)
  | .tags ts => some (.tags ts)
  | .absentText _ | .absentBytes _ | .absentUuidSet _ => none

/-- The same field of the same type; an absent value is of every type. -/
def SameField (c d : FingerprintCall tokens) : Prop :=
  c.field = d.field ∧ ∀ v ∈ c.value, ∀ w ∈ d.value, v.type = w.type

end FingerprintCall

/-- Equal after normalisation: sets by their members, JSON up to the order of members. -/
def Passed.Equal : Passed tokens → Passed tokens → Prop
  | .text v, .text w => fns.trim v = fns.trim w
  | .bytes v, .bytes w => v = w
  | .schemaPayload p, .schemaPayload q =>
    p.schemaId = q.schemaId ∧ p.schemaVersion = q.schemaVersion ∧ Same p.payload.1 q.payload.1
  | .uuidSet ids, .uuidSet ids' => ∀ i, i ∈ ids.1 ↔ i ∈ ids'.1
  | .tags ts, .tags ts' => ∀ t, t ∈ normalTags fns ts.1 ↔ t ∈ normalTags fns ts'.1
  | _, _ => False

/-- An absent value equals no present one. -/
def FingerprintCall.EqualValue (c d : FingerprintCall tokens) : Prop :=
  match c.value, d.value with
  | none, none => True
  | some v, some w => v.Equal fns w
  | _, _ => False

/-! ### Frames of fields -/

def Passed.raw : Passed tokens → Bytes
  | .text v => be 8 (utf8 (fns.trim v)).length ++ utf8 (fns.trim v)
  | .bytes v => be 8 v.1.length ++ v.1
  | .schemaPayload p =>
    let buf := schemaBuf tokens p.schemaId p.schemaVersion p.payload
    be 8 buf.length ++ buf
  | .uuidSet ids =>
    let ids := sortedSet id ids.1
    be 8 ids.length ++ ids.flatMap fun i : UuidBits => be 16 i.1
  | .tags ts =>
    let tags := sortedSet (fun t : Str => rank t.1) (normalTags fns ts.1)
    be 8 tags.length ++ tags.flatMap fun t : Str => be 8 (utf8 t.1).length ++ utf8 t.1

def FingerprintCall.frame (c : FingerprintCall tokens) : Bytes :=
  0 :: (be 8 (utf8 c.field).length ++ (utf8 c.field ++
    c.value.elim [0] fun v => 1 :: v.raw fns))

lemma call_hashed (b : ContentFingerprintBuilder) (c : FingerprintCall tokens) :
    (b.call fns c).hashed = b.hashed ++ c.frame fns := by
  cases c <;> simp [ContentFingerprintBuilder.call, ContentFingerprintBuilder.text,
    ContentFingerprintBuilder.absentText, ContentFingerprintBuilder.absentBytes,
    ContentFingerprintBuilder.absentUuidSet, ContentFingerprintBuilder.schemaPayload,
    ContentFingerprintBuilder.uuidSet, ContentFingerprintBuilder.tags,
    ContentFingerprintBuilder.bytes, ContentFingerprintBuilder.present,
    ContentFingerprintBuilder.absent, ContentFingerprintBuilder.tag,
    ContentFingerprintBuilder.update, FingerprintCall.frame, FingerprintCall.value,
    FingerprintCall.field, Passed.raw]

lemma fingerprintBytes_eq (scope : KeyScope) (calls : List (FingerprintCall tokens)) :
    fingerprintBytes fns scope calls =
      utf8 "proxiima-request-v1" ++ ([0] ++ (utf8 scope.asStr ++
        calls.flatMap (FingerprintCall.frame fns))) := by
  have hfold (b : ContentFingerprintBuilder) :
      (calls.foldl (ContentFingerprintBuilder.call fns) b).hashed =
        b.hashed ++ calls.flatMap (FingerprintCall.frame fns) := by
    induction calls generalizing b with
    | nil => simp
    | cons c calls ih => simp [ih, call_hashed]
  rw [fingerprintBytes, hfold]
  simp [ContentFingerprintBuilder.new]

/-! ### Sets -/

section SortedSet

variable {α κ : Type} [DecidableEq α] [LinearOrder κ] {key : α → κ}

lemma mem_sortedSet {l : List α} {a : α} : a ∈ sortedSet key l ↔ a ∈ l := by simp [sortedSet]

lemma length_sortedSet_le (l : List α) : (sortedSet key l).length ≤ l.length := by
  have := (List.dedup_sublist (l.insertionSort fun a b => key a ≤ key b)).length_le
  rwa [List.length_insertionSort] at this

/-- Sorted sets are equal exactly when they have the same members. -/
lemma sortedSet_eq_iff (hkey : Function.Injective key) {l m : List α} :
    sortedSet key l = sortedSet key m ↔ ∀ a, a ∈ l ↔ a ∈ m := by
  constructor
  · intro h a
    have hl : a ∈ sortedSet key l ↔ a ∈ l := mem_sortedSet
    rw [← hl, h, mem_sortedSet]
  · intro h
    have hsorted (l : List α) : (sortedSet key l).Pairwise fun a b => key a ≤ key b :=
      (List.pairwise_insertionSort _ l).sublist (List.dedup_sublist _)
    refine List.Perm.eq_of_pairwise (fun a b _ _ hab hba => hkey (le_antisymm hab hba))
      (hsorted l) (hsorted m) ?_
    refine (List.perm_ext_iff_of_nodup (List.nodup_dedup _) (List.nodup_dedup _)).2 fun a => ?_
    exact mem_sortedSet.trans ((h a).trans mem_sortedSet.symm)

end SortedSet

/-! ### Reading the fields back -/

lemma separates_len : Separates fun n : Fin (2 ^ 63) => be 8 n :=
  separates_be Fin.val_injective fun n => n.2.trans (by decide)

lemma separates_text : Separates fun t : Str => be 8 (utf8 t.1).length ++ utf8 t.1 :=
  separates_len.sized.comp (f := fun t : Str => ⟨utf8 t.1, t.2⟩)
    fun _ _ h => Subtype.ext (utf8_injective (Subtype.ext_iff.1 h))

lemma schemaBuf_eq_iff (p q : SchemaPayload tokens) :
    schemaBuf tokens p.schemaId p.schemaVersion p.payload =
        schemaBuf tokens q.schemaId q.schemaVersion q.payload ↔
      p.schemaId = q.schemaId ∧ p.schemaVersion = q.schemaVersion ∧
        Same p.payload.1 q.payload.1 := by
  constructor
  · intro h
    simp only [schemaBuf, List.append_assoc] at h
    obtain ⟨hid, hrest⟩ := separates_text (by simpa using h)
    obtain ⟨hversion, hjson⟩ := separates_raw .u32 hrest
    exact ⟨hid, hversion, same_of_canonicalJsonBytes tokens hjson⟩
  · rintro ⟨hid, hversion, hsame⟩
    rw [schemaBuf, schemaBuf, hid, hversion,
      canonicalJsonBytes_of_same tokens _ _ p.payload.2 hsame]

lemma length_normalTags_le (tags : List Str) : (normalTags fns tags).length ≤ tags.length := by
  have := (List.filter_sublist (p := (·.1 ≠ ""))
    (l := tags.map fun t => fns.toAsciiLowercase (fns.trim t))).length_le
  rwa [List.length_map] at this

variable {x y : Bytes}

lemma raw_append_eq_iff {v w : Passed tokens} (htype : v.type = w.type) :
    v.raw fns ++ x = w.raw fns ++ y ↔ v.Equal fns w ∧ x = y := by
  have hids (ids : Slice UuidBits) : (sortedSet id ids.1).length < 2 ^ 63 :=
    (length_sortedSet_le _).trans_lt ids.2
  have htags (ts : Slice Str) :
      (sortedSet (fun t : Str => rank t.1) (normalTags fns ts.1)).length < 2 ^ 63 :=
    ((length_sortedSet_le _).trans (length_normalTags_le fns ts.1)).trans_lt ts.2
  cases v <;> cases w <;> cases htype
  case text.text.refl v w => exact separates_text.append_eq_iff
  case bytes.bytes.refl v w => exact separates_len.sized.append_eq_iff
  case schemaPayload.schemaPayload.refl p q =>
    refine (separates_len.sized.append_eq_iff (a := ⟨_, p.fits⟩) (b := ⟨_, q.fits⟩)).trans ?_
    rw [Subtype.mk.injEq, schemaBuf_eq_iff, Passed.Equal]
  case uuidSet.uuidSet.refl ids ids' =>
    refine ((separates_len.counted separates_uuid).append_eq_iff
      (a := ⟨_, hids ids⟩) (b := ⟨_, hids ids'⟩)).trans ?_
    rw [Subtype.mk.injEq, sortedSet_eq_iff Function.injective_id, Passed.Equal]
  case tags.tags.refl ts ts' =>
    refine ((separates_len.counted separates_text).append_eq_iff
      (a := ⟨_, htags ts⟩) (b := ⟨_, htags ts'⟩)).trans ?_
    rw [Subtype.mk.injEq, sortedSet_eq_iff, Passed.Equal]
    exact fun t t' h => Subtype.ext (rank_injective h)

lemma frame_append_eq_iff {c d : FingerprintCall tokens} (h : c.SameField d) :
    c.frame fns ++ x = d.frame fns ++ y ↔ c.EqualValue fns d ∧ x = y := by
  obtain ⟨hfield, htype⟩ := h
  rw [FingerprintCall.frame, FingerprintCall.frame, hfield, FingerprintCall.EqualValue]
  simp only [List.cons_append, List.append_assoc, List.cons.injEq, true_and,
    List.append_cancel_left_eq]
  cases hc : c.value with
  | none => cases hd : d.value <;> simp
  | some v =>
    cases hd : d.value with
    | none => simp
    | some w => simpa using raw_append_eq_iff fns (htype v hc w hd)

lemma frames_eq_iff {calls calls' : List (FingerprintCall tokens)}
    (h : calls.Forall₂ FingerprintCall.SameField calls') :
    calls.flatMap (FingerprintCall.frame fns) = calls'.flatMap (FingerprintCall.frame fns) ↔
      calls.Forall₂ (FingerprintCall.EqualValue fns) calls' := by
  induction h with
  | nil => simp
  | cons hcd _ ih =>
    rw [List.flatMap_cons, List.flatMap_cons, frame_append_eq_iff fns hcd, ih, List.forall₂_cons]

/-- The scope is written without its length, and ends where the first field begins. -/
lemma scope_append_inj {scope scope' : KeyScope} (hx : ∀ b ∈ x.head?, b = 0)
    (hy : ∀ b ∈ y.head?, b = 0) (h : utf8 scope.asStr ++ x = utf8 scope'.asStr ++ y) :
    scope.asStr = scope'.asStr ∧ x = y := by
  have hbytes (scope : KeyScope) : ∀ b ∈ utf8 scope.asStr, (b != 0) = true := by
    cases scope <;> simp only [KeyScope.asStr] <;> decide +kernel
  obtain ⟨hscope, hxy⟩ := append_inj_of_stop (hbytes scope) (hbytes scope')
    (fun b hb => by simp [hx b hb]) (fun b hb => by simp [hy b hb]) h
  exact ⟨utf8_injective hscope, hxy⟩

lemma head_frames (calls : List (FingerprintCall tokens)) :
    ∀ b ∈ (calls.flatMap (FingerprintCall.frame fns)).head?, b = 0 := by
  cases calls <;> simp [FingerprintCall.frame]

/-- **The hashed bytes are read back in one way**: for calls with the same fields of the same
types, they are equal exactly when the scopes write alike and every two values are equal after
normalisation, where an absent value equals only an absent one. -/
theorem fingerprintBytes_eq_iff (scope scope' : KeyScope)
    {calls calls' : List (FingerprintCall tokens)}
    (h : calls.Forall₂ FingerprintCall.SameField calls') :
    fingerprintBytes fns scope calls = fingerprintBytes fns scope' calls' ↔
      scope.asStr = scope'.asStr ∧ calls.Forall₂ (FingerprintCall.EqualValue fns) calls' := by
  rw [fingerprintBytes_eq, fingerprintBytes_eq, List.append_cancel_left_eq,
    List.append_cancel_left_eq, ← frames_eq_iff fns h]
  refine ⟨scope_append_inj (head_frames fns calls) (head_frames fns calls'), ?_⟩
  rintro ⟨hscope, hframes⟩
  rw [hscope, hframes]

/-- An absent title and an empty one are told apart. -/
theorem fingerprintBytes_absent_ne_empty :
    @fingerprintBytes ℕ ⟨id, id⟩ escapedTokens .note
        [.absentText ⟨"title", by decide⟩, .tags ⟨[], by decide⟩] ≠
      @fingerprintBytes ℕ ⟨id, id⟩ escapedTokens .note
        [.text ⟨"title", by decide⟩ ⟨"", by decide⟩, .tags ⟨[], by decide⟩] := by
  intro h
  have hequal := ((fingerprintBytes_eq_iff ⟨id, id⟩ .note .note
    (.cons (by simp [FingerprintCall.SameField, FingerprintCall.value, FingerprintCall.field])
      (.cons (by simp [FingerprintCall.SameField, FingerprintCall.value]) .nil))).1 h).2
  obtain ⟨habsent, -⟩ := List.forall₂_cons.1 hequal
  exact habsent

end Proxiima.Identity
