import Mathlib.Algebra.Ring.Int.Defs
import Mathlib.Order.Fin.Basic
import Proxiima.Codes.Frames

/-!
# Payload keys

The builder of a payload's receipt key: the schema first, then one frame for each declared
field, made of the field's name, a byte for its kind, and its value. Frames follow each other
without separators. A key gives back the schema and the declared fields, as long as a name that
stands for a list in two keys is declared by the same helper in both.
-/

namespace Proxiima.Identity

open Codes

/-- A slice or vector: at most `isize::MAX` elements. -/
abbrev Slice (α : Type) := {l : List α // l.length < 2 ^ 63}

/-- A string slice, no longer than a slice of its bytes. -/
abbrev Str := {s : String // (utf8 s).length < 2 ^ 63}

abbrev Usize := Fin (2 ^ 64)

/-- The 128 bits of a UUID. -/
abbrev UuidBits := Fin (2 ^ 128)

def countU64 (count : ℕ) : UInt64 :=
  if count < 2 ^ 64 then UInt64.ofNat count else UInt64.ofNat (2 ^ 64 - 1)

lemma toNat_countU64 {n : ℕ} (h : n < 2 ^ 64) : (countU64 n).toNat = n := by
  rw [countU64, if_pos h]
  simpa using h

/-- A moment with the offset it was written in; `unix_timestamp_nanos` is an `i128`. -/
structure OffsetDateTime where
  unixTimestampNanos : ℤ
  offsetSeconds : ℤ
  fits : -2 ^ 127 ≤ unixTimestampNanos ∧ unixTimestampNanos < 2 ^ 127

/-- An `i128`. -/
abbrev Nanos := {n : ℤ // -2 ^ 127 ≤ n ∧ n < 2 ^ 127}

def OffsetDateTime.toUtc (t : OffsetDateTime) : Nanos := ⟨t.unixTimestampNanos, t.fits⟩

/-! ### Raw values -/

def rawLen (len : ℕ) : Bytes := be 8 (countU64 len).toNat

def rawBytes (value : Bytes) : Bytes := rawLen value.length ++ value

def rawStr (value : String) : Bytes := rawBytes (utf8 value)

def rawBool (value : Bool) : Bytes := [if value then 1 else 0]

def rawTime (value : ℤ) : Bytes := be 16 (value % 2 ^ 128).toNat

/-! ### The builder -/

def tagStr : UInt8 := 115
def tagBool : UInt8 := 98
def tagU8 : UInt8 := 49
def tagU32 : UInt8 := 52
def tagI32 : UInt8 := 73
def tagI64 : UInt8 := 76
def tagU64 : UInt8 := 56
def tagUuid : UInt8 := 117
def tagBytes : UInt8 := 66
def tagTime : UInt8 := 116
def tagOptionStr : UInt8 := 83
def tagOptionBool : UInt8 := 79
def tagOptionU8 : UInt8 := 50
def tagOptionU32 : UInt8 := 53
def tagOptionI32 : UInt8 := 105
def tagOptionI64 : UInt8 := 108
def tagOptionU64 : UInt8 := 57
def tagOptionUuid : UInt8 := 85
def tagOptionBytes : UInt8 := 67
def tagOptionTime : UInt8 := 84
def tagList : UInt8 := 91

structure PayloadKeyBuilder where
  bytes : Bytes

namespace PayloadKeyBuilder

def new (schemaId : Str) (schemaVersion : UInt32) : PayloadKeyBuilder :=
  ⟨utf8 "PKEY1\x00" ++ rawStr schemaId ++ be 4 schemaVersion.toNat⟩

def finish (b : PayloadKeyBuilder) : Bytes := b.bytes

def field (b : PayloadKeyBuilder) (name : Str) (tag : UInt8) : PayloadKeyBuilder :=
  ⟨b.bytes ++ rawStr name ++ [tag]⟩

/-- A field and the bytes of its value, the common form of the `field_*` methods. -/
def value (b : PayloadKeyBuilder) (name : Str) (tag : UInt8) (raw : Bytes) : PayloadKeyBuilder :=
  ⟨(b.field name tag).bytes ++ raw⟩

/-- The common form of the `field_option_*` methods. -/
def optionValue (b : PayloadKeyBuilder) (name : Str) (tag : UInt8) (raw : Option Bytes) :
    PayloadKeyBuilder :=
  match raw with
  | some raw => b.value name tag (1 :: raw)
  | none => b.value name tag [0]

variable (b : PayloadKeyBuilder) (name : Str)

def fieldStr (v : Str) := b.value name tagStr (rawStr v)
def fieldBool (v : Bool) := b.value name tagBool (rawBool v)
def fieldU8 (v : UInt8) := b.value name tagU8 [v]
def fieldU32 (v : UInt32) := b.value name tagU32 (be 4 v.toNat)
def fieldI32 (v : Int32) := b.value name tagI32 (be 4 v.toUInt32.toNat)
def fieldI64 (v : Int64) := b.value name tagI64 (be 8 v.toUInt64.toNat)
def fieldU64 (v : UInt64) := b.value name tagU64 (be 8 v.toNat)
def fieldUsize (v : Usize) := b.fieldU64 name (countU64 v)
def fieldUuid (v : UuidBits) := b.value name tagUuid (be 16 v)
def fieldBytes (v : Slice UInt8) := b.value name tagBytes (rawBytes v)
def fieldTime (v : OffsetDateTime) := b.value name tagTime (rawTime v.unixTimestampNanos)

def fieldOptionStr (v : Option Str) :=
  b.optionValue name tagOptionStr (v.map fun v => rawStr v)
def fieldOptionUuid (v : Option UuidBits) :=
  b.optionValue name tagOptionUuid (v.map fun v => be 16 v)
def fieldOptionBool (v : Option Bool) := b.optionValue name tagOptionBool (v.map rawBool)
def fieldOptionTime (v : Option OffsetDateTime) :=
  b.optionValue name tagOptionTime (v.map fun v => rawTime v.unixTimestampNanos)
def fieldOptionU8 (v : Option UInt8) := b.optionValue name tagOptionU8 (v.map fun v => [v])
def fieldOptionU32 (v : Option UInt32) :=
  b.optionValue name tagOptionU32 (v.map fun v => be 4 v.toNat)
def fieldOptionI32 (v : Option Int32) :=
  b.optionValue name tagOptionI32 (v.map fun v => be 4 v.toUInt32.toNat)
def fieldOptionI64 (v : Option Int64) :=
  b.optionValue name tagOptionI64 (v.map fun v => be 8 v.toUInt64.toNat)
def fieldOptionU64 (v : Option UInt64) :=
  b.optionValue name tagOptionU64 (v.map fun v => be 8 v.toNat)
def fieldOptionUsize (v : Option Usize) := b.fieldOptionU64 name (v.map fun v => countU64 v)
def fieldOptionBytes (v : Option (Slice UInt8)) :=
  b.optionValue name tagOptionBytes (v.map fun v => rawBytes v)

/-- Every list helper writes the count under the one list tag, then what it writes of its
elements. -/
def listOf (len : ℕ) (elements : Bytes) : PayloadKeyBuilder :=
  b.value name tagList (rawLen len ++ elements)

def fieldStrList (vs : Slice Str) :=
  b.listOf name vs.1.length (vs.1.flatMap fun v : Str => rawStr v.1)
def fieldUuidList (vs : Slice UuidBits) :=
  b.listOf name vs.1.length (vs.1.flatMap fun v : UuidBits => be 16 v.1)
def list (len : Usize) := b.listOf name len []

end PayloadKeyBuilder

/-! ### Calls and what they declare -/

/-- The parameter types of the `field_*` methods. -/
inductive Param where
  | str | bool | u8 | u32 | i32 | i64 | u64 | usize | uuid | bytes | time

def Param.Arg : Param → Type
  | .str => Str
  | .bool => Bool
  | .u8 => UInt8
  | .u32 => UInt32
  | .i32 => Int32
  | .i64 => Int64
  | .u64 => UInt64
  | .usize => Usize
  | .uuid => UuidBits
  | .bytes => Slice UInt8
  | .time => OffsetDateTime

inductive Call where
  | field (name : Str) (p : Param) (v : p.Arg)
  | fieldOption (name : Str) (p : Param) (v : Option p.Arg)
  | fieldStrList (name : Str) (vs : Slice Str)
  | fieldUuidList (name : Str) (vs : Slice UuidBits)
  | list (name : Str) (len : Usize)

def PayloadKeyBuilder.call (b : PayloadKeyBuilder) : Call → PayloadKeyBuilder
  | .field name .str v => b.fieldStr name v
  | .field name .bool v => b.fieldBool name v
  | .field name .u8 v => b.fieldU8 name v
  | .field name .u32 v => b.fieldU32 name v
  | .field name .i32 v => b.fieldI32 name v
  | .field name .i64 v => b.fieldI64 name v
  | .field name .u64 v => b.fieldU64 name v
  | .field name .usize v => b.fieldUsize name v
  | .field name .uuid v => b.fieldUuid name v
  | .field name .bytes v => b.fieldBytes name v
  | .field name .time v => b.fieldTime name v
  | .fieldOption name .str v => b.fieldOptionStr name v
  | .fieldOption name .bool v => b.fieldOptionBool name v
  | .fieldOption name .u8 v => b.fieldOptionU8 name v
  | .fieldOption name .u32 v => b.fieldOptionU32 name v
  | .fieldOption name .i32 v => b.fieldOptionI32 name v
  | .fieldOption name .i64 v => b.fieldOptionI64 name v
  | .fieldOption name .u64 v => b.fieldOptionU64 name v
  | .fieldOption name .usize v => b.fieldOptionUsize name v
  | .fieldOption name .uuid v => b.fieldOptionUuid name v
  | .fieldOption name .bytes v => b.fieldOptionBytes name v
  | .fieldOption name .time v => b.fieldOptionTime name v
  | .fieldStrList name vs => b.fieldStrList name vs
  | .fieldUuidList name vs => b.fieldUuidList name vs
  | .list name len => b.list name len

/-- The key of a payload that declares these fields. -/
def payloadKey (schemaId : Str) (schemaVersion : UInt32) (calls : List Call) : Bytes :=
  (calls.foldl PayloadKeyBuilder.call (.new schemaId schemaVersion)).finish

/-- The kinds of value a key tells apart: a `usize` is a `u64` here. -/
inductive Scalar where
  | str | bool | u8 | u32 | i32 | i64 | u64 | uuid | bytes | time
  deriving DecidableEq

/-- A time is its instant. -/
def Scalar.Value : Scalar → Type
  | .str => Str
  | .bool => Bool
  | .u8 => UInt8
  | .u32 => UInt32
  | .i32 => Int32
  | .i64 => Int64
  | .u64 => UInt64
  | .uuid => UuidBits
  | .bytes => Slice UInt8
  | .time => Nanos

def Param.scalar : Param → Scalar
  | .str => .str
  | .bool => .bool
  | .u8 => .u8
  | .u32 => .u32
  | .i32 => .i32
  | .i64 => .i64
  | .u64 => .u64
  | .usize => .u64
  | .uuid => .uuid
  | .bytes => .bytes
  | .time => .time

def Param.read : (p : Param) → p.Arg → p.scalar.Value
  | .str, v => v
  | .bool, v => v
  | .u8, v => v
  | .u32, v => v
  | .i32, v => v
  | .i64, v => v
  | .u64, v => v
  | .usize, v => countU64 v.1
  | .uuid, v => v
  | .bytes, v => v
  | .time, v => v.toUtc

inductive Kind where
  | value (s : Scalar)
  | option (s : Scalar)
  | strList
  | uuidList
  | list
  deriving DecidableEq

def Kind.Value : Kind → Type
  | .value s => s.Value
  | .option s => Option s.Value
  | .strList => Slice Str
  | .uuidList => Slice UuidBits
  | .list => Usize

/-- A declared field: its name, its kind and its value. -/
structure Declared where
  name : Str
  kind : Kind
  value : kind.Value

def Call.declared : Call → Declared
  | .field name p v => ⟨name, .value p.scalar, p.read v⟩
  | .fieldOption name p v => ⟨name, .option p.scalar, v.map p.read⟩
  | .fieldStrList name vs => ⟨name, .strList, vs⟩
  | .fieldUuidList name vs => ⟨name, .uuidList, vs⟩
  | .list name len => ⟨name, .list, len⟩

def Kind.isList : Kind → Bool
  | .value _ | .option _ => false
  | .strList | .uuidList | .list => true

/-- List fields of one name are declared by one helper. -/
def SameListHelper (c d : Declared) : Prop :=
  c.name = d.name → c.kind.isList = true → d.kind.isList = true → c.kind = d.kind

/-! ### Frames -/

def Scalar.tag : Scalar → UInt8
  | .str => tagStr
  | .bool => tagBool
  | .u8 => tagU8
  | .u32 => tagU32
  | .i32 => tagI32
  | .i64 => tagI64
  | .u64 => tagU64
  | .uuid => tagUuid
  | .bytes => tagBytes
  | .time => tagTime

def Scalar.optionTag : Scalar → UInt8
  | .str => tagOptionStr
  | .bool => tagOptionBool
  | .u8 => tagOptionU8
  | .u32 => tagOptionU32
  | .i32 => tagOptionI32
  | .i64 => tagOptionI64
  | .u64 => tagOptionU64
  | .uuid => tagOptionUuid
  | .bytes => tagOptionBytes
  | .time => tagOptionTime

def Scalar.raw : (s : Scalar) → s.Value → Bytes
  | .str, v => rawStr v.1
  | .bool, v => rawBool v
  | .u8, v => [v]
  | .u32, v => be 4 (UInt32.toNat v)
  | .i32, v => be 4 (Int32.toUInt32 v).toNat
  | .i64, v => be 8 (Int64.toUInt64 v).toNat
  | .u64, v => be 8 (UInt64.toNat v)
  | .uuid, v => be 16 v.1
  | .bytes, v => rawBytes v.1
  | .time, v => rawTime v.1

def Kind.tag : Kind → UInt8
  | .value s => s.tag
  | .option s => s.optionTag
  | .strList | .uuidList | .list => tagList

def Kind.raw : (k : Kind) → k.Value → Bytes
  | .value s, v => s.raw v
  | .option s, v => v.elim [0] fun v => 1 :: s.raw v
  | .strList, vs => rawLen vs.1.length ++ vs.1.flatMap fun v : Str => rawStr v.1
  | .uuidList, vs => rawLen vs.1.length ++ vs.1.flatMap fun v : UuidBits => be 16 v.1
  | .list, len => rawLen len.1

def Declared.frame (d : Declared) : Bytes := rawStr d.name ++ d.kind.tag :: d.kind.raw d.value

/-- Each method writes the frame of what it declares. -/
lemma call_bytes (b : PayloadKeyBuilder) (c : Call) :
    (b.call c).bytes = b.bytes ++ c.declared.frame := by
  have hvalue (name : Str) (tag : UInt8) (raw : Bytes) :
      (b.value name tag raw).bytes = b.bytes ++ (rawStr name ++ tag :: raw) := by
    simp [PayloadKeyBuilder.value, PayloadKeyBuilder.field]
  rcases c with ⟨name, p, v⟩ | ⟨name, p, v⟩ | ⟨name, vs⟩ | ⟨name, vs⟩ | ⟨name, len⟩
  · cases p <;> exact hvalue _ _ _
  · cases p <;> cases v <;> exact hvalue _ _ _
  · exact hvalue name tagList _
  · exact hvalue name tagList _
  · exact (hvalue _ _ _).trans (by simp [Call.declared, Declared.frame, Kind.raw, Kind.tag])

lemma foldl_call_bytes (calls : List Call) (b : PayloadKeyBuilder) :
    (calls.foldl PayloadKeyBuilder.call b).bytes =
      b.bytes ++ (calls.map Call.declared).flatMap Declared.frame := by
  induction calls generalizing b with
  | nil => simp
  | cons c calls ih => simp [ih, call_bytes]

lemma payloadKey_eq (schemaId : Str) (schemaVersion : UInt32) (calls : List Call) :
    payloadKey schemaId schemaVersion calls =
      utf8 "PKEY1\x00" ++ (rawStr schemaId ++ (be 4 schemaVersion.toNat ++
        (calls.map Call.declared).flatMap Declared.frame)) := by
  rw [payloadKey, PayloadKeyBuilder.finish, foldl_call_bytes]
  simp [PayloadKeyBuilder.new]

/-! ### Reading a key back -/

lemma separates_rawLen : Separates fun n : Fin (2 ^ 64) => rawLen n := by
  refine separates_be (f := fun n : Fin (2 ^ 64) => (countU64 n).toNat) ?_ fun n => ?_
  · intro m n h
    simp only [toNat_countU64 m.2, toNat_countU64 n.2] at h
    exact Fin.ext h
  · exact UInt64.toNat_lt _

lemma separates_rawLen_slice : Separates fun n : Fin (2 ^ 63) => rawLen n :=
  separates_rawLen.comp (f := Fin.castLE (by decide)) (Fin.castLE_injective _)

lemma separates_rawBytes : Separates fun v : Slice UInt8 => rawBytes v :=
  separates_rawLen_slice.sized

lemma separates_rawStr : Separates fun v : Str => rawStr v := by
  refine separates_rawBytes.comp (f := fun v : Str => ⟨utf8 v, v.2⟩) ?_
  intro v w h
  exact Subtype.ext (utf8_injective (Subtype.ext_iff.1 h))

lemma separates_uuid : Separates fun v : UuidBits => be 16 v :=
  separates_be Fin.val_injective fun v => v.2

lemma nanos_inj {v w : ℤ} (hv : -2 ^ 127 ≤ v ∧ v < 2 ^ 127) (hw : -2 ^ 127 ≤ w ∧ w < 2 ^ 127)
    (h : (v % 2 ^ 128).toNat = (w % 2 ^ 128).toNat) : v = w := by omega

lemma nanos_lt (v : ℤ) : (v % 2 ^ 128).toNat < 256 ^ 16 := by omega

lemma separates_rawTime : Separates fun v : Nanos => rawTime v := by
  simp only [rawTime]
  exact separates_be (fun v w h => Subtype.ext (nanos_inj v.2 w.2 h)) fun v => nanos_lt v.1

lemma separates_raw (s : Scalar) : Separates s.raw := by
  cases s with
  | str => exact separates_rawStr
  | bool => exact .of_length (fun _ => rfl) (show ∀ v w, rawBool v = rawBool w → v = w by decide)
  | u8 => exact .of_length (fun _ => rfl) fun v w h => List.singleton_inj.1 h
  | u32 => exact separates_be (fun v w h => UInt32.toNat_inj.1 h) UInt32.toNat_lt
  | i32 =>
    exact separates_be (fun v w h => congrArg Int32.ofUInt32 (UInt32.toNat_inj.1 h))
      fun v => UInt32.toNat_lt _
  | i64 =>
    exact separates_be (fun v w h => congrArg Int64.ofUInt64 (UInt64.toNat_inj.1 h))
      fun v => UInt64.toNat_lt _
  | u64 => exact separates_be (fun v w h => UInt64.toNat_inj.1 h) UInt64.toNat_lt
  | uuid => exact separates_uuid
  | bytes => exact separates_rawBytes
  | time => exact separates_rawTime

lemma separates_kind_raw (k : Kind) : Separates k.raw := by
  cases k with
  | value s => exact separates_raw s
  | option s => exact (separates_raw s).option (by decide)
  | strList => exact separates_rawLen_slice.counted separates_rawStr
  | uuidList => exact separates_rawLen_slice.counted separates_uuid
  | list => exact separates_rawLen

def scalars : List Scalar := [.str, .bool, .u8, .u32, .i32, .i64, .u64, .uuid, .bytes, .time]

/-- The kind a tag byte stands for; the list helpers share theirs. -/
def kindOf (tag : UInt8) : Option Kind :=
  (scalars.map Kind.value ++ scalars.map Kind.option ++ [Kind.list]).find? (·.tag = tag)

lemma kindOf_tag (k : Kind) : kindOf k.tag = some (if k.isList then .list else k) := by
  rcases k with s | s | _ | _ | _
  · cases s <;> rfl
  · cases s <;> rfl
  all_goals rfl

lemma kind_eq_of_tag_eq {k l : Kind} (h : k.tag = l.tag)
    (hlist : k.isList = true → l.isList = true → k = l) : k = l := by
  have hkl : kindOf k.tag = kindOf l.tag := by rw [h]
  rw [kindOf_tag, kindOf_tag, Option.some.injEq] at hkl
  cases hk : k.isList <;> cases hl : l.isList <;> simp only [hk, hl, if_true] at hkl
  · simpa using hkl
  · simp at hkl
    subst hkl
    simp [Kind.isList] at hk
  · simp at hkl
    subst hkl
    simp [Kind.isList] at hl
  · exact hlist hk hl

lemma frame_inj {c d : Declared} {x y : Bytes} (hsame : SameListHelper c d)
    (h : c.frame ++ x = d.frame ++ y) : c = d ∧ x = y := by
  obtain ⟨name, k, v⟩ := c
  obtain ⟨name', k', v'⟩ := d
  simp only [Declared.frame, List.append_assoc] at h
  obtain ⟨rfl, hrest⟩ := separates_rawStr h
  obtain ⟨htag, hraw⟩ := List.cons.inj hrest
  obtain rfl : k = k' := kind_eq_of_tag_eq htag (hsame rfl)
  obtain ⟨rfl, rfl⟩ := separates_kind_raw k hraw
  exact ⟨rfl, rfl⟩

lemma frame_ne_nil (d : Declared) : d.frame ≠ [] := by simp [Declared.frame]

lemma raw_ne_nil (s : Scalar) (v : s.Value) : s.raw v ≠ [] := by
  have hlen (w n : ℕ) : be (w + 1) n ≠ [] := by simp [be, digits]
  cases s <;> simp [Scalar.raw, rawStr, rawBytes, rawLen, rawBool, rawTime, hlen]

/-- A field declared in between makes a key longer, by its frame. -/
lemma length_payloadKey_insert (schemaId : Str) (schemaVersion : UInt32)
    (before after : List Call) (c : Call) :
    (payloadKey schemaId schemaVersion (before ++ c :: after)).length =
      (payloadKey schemaId schemaVersion (before ++ after)).length + c.declared.frame.length := by
  simp only [payloadKey_eq, List.map_append, List.map_cons, List.flatMap_append,
    List.flatMap_cons, List.length_append]
  omega

/-- Leaving an optional field out, declaring it absent and declaring it with a value. -/
def OptionKeysDiffer (schemaId : Str) (schemaVersion : UInt32) (before after : List Call)
    (name : Str) (p : Param) (v : p.Arg) : Prop :=
  [payloadKey schemaId schemaVersion (before ++ after),
    payloadKey schemaId schemaVersion (before ++ .fieldOption name p none :: after),
    payloadKey schemaId schemaVersion (before ++ .fieldOption name p (some v) :: after)].Nodup

lemma optionKeysDiffer (schemaId : Str) (schemaVersion : UInt32) (before after : List Call)
    (name : Str) (p : Param) (v : p.Arg) :
    OptionKeysDiffer schemaId schemaVersion before after name p v := by
  have hlen := length_payloadKey_insert schemaId schemaVersion before after
  have hnone := hlen (.fieldOption name p none)
  have hsome := hlen (.fieldOption name p (some v))
  have hpos := List.length_pos_iff.2 (raw_ne_nil p.scalar (p.read v))
  simp only [Call.declared, Declared.frame, Kind.raw, Option.map_none, Option.map_some,
    Option.elim_none, Option.elim_some, List.length_append, List.length_cons,
    List.length_nil] at hnone hsome
  simp only [OptionKeysDiffer, List.nodup_cons, List.mem_cons, List.not_mem_nil, or_false,
    not_or, not_false_eq_true, List.nodup_nil, and_true]
  refine ⟨⟨fun h => ?_, fun h => ?_⟩, fun h => ?_⟩ <;>
    · have := congrArg List.length h
      omega

/-- **A payload key is read back in one way**: keys are equal exactly when they declare the same
schema and the same fields with the same names, kinds and values in the same order, for calls
that use the same helper for the lists of one name; and an optional field left out, absent or
present gives three keys. -/
theorem payloadKey_eq_iff (schemaId schemaId' : Str) (schemaVersion schemaVersion' : UInt32)
    (calls calls' : List Call)
    (hsame : ∀ c ∈ calls, ∀ d ∈ calls', SameListHelper c.declared d.declared) :
    (payloadKey schemaId schemaVersion calls = payloadKey schemaId' schemaVersion' calls' ↔
      schemaId = schemaId' ∧ schemaVersion = schemaVersion' ∧
        calls.map Call.declared = calls'.map Call.declared) ∧
      ∀ before after name p v,
        OptionKeysDiffer schemaId schemaVersion before after name p v := by
  refine ⟨⟨fun h => ?_, ?_⟩, optionKeysDiffer schemaId schemaVersion⟩
  · rw [payloadKey_eq, payloadKey_eq, List.append_cancel_left_eq] at h
    obtain ⟨rfl, hrest⟩ := separates_rawStr h
    obtain ⟨rfl, hframes⟩ := separates_raw .u32 hrest
    refine ⟨rfl, rfl, flatMap_inj_of (R := SameListHelper) (fun c d x y => frame_inj)
      frame_ne_nil ?_ hframes⟩
    simpa using hsame
  · rintro ⟨rfl, rfl, hcalls⟩
    rw [payloadKey_eq, payloadKey_eq, hcalls]

theorem payloadKey_lists_differ :
    payloadKey ⟨"note", by decide⟩ 1 [.fieldStrList ⟨"tags", by decide⟩ ⟨[], by decide⟩] ≠
      payloadKey ⟨"note", by decide⟩ 1
        [.fieldStrList ⟨"tags", by decide⟩ ⟨[⟨"", by decide⟩], by decide⟩] := by
  intro h
  have hiff := (payloadKey_eq_iff _ _ _ _ _ _ (by simp [SameListHelper, Call.declared])).1.1 h
  cases hiff.2.2

-- The helpers share a tag, so that two of them write an empty list alike.
example : payloadKey ⟨"note", by decide⟩ 1 [.fieldStrList ⟨"tags", by decide⟩ ⟨[], by decide⟩] =
    payloadKey ⟨"note", by decide⟩ 1 [.list ⟨"tags", by decide⟩ 0] := rfl

end Proxiima.Identity
