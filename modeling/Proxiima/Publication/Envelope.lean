import Mathlib.Tactic.FinCases
import Proxiima.Goals.Declarations
import Proxiima.Identity.CanonicalJson
import Proxiima.Identity.PayloadKey
import Proxiima.Publication.Extensions

/-!
# Sealed envelopes

An event as it is stored and delivered: the attributes the substrate computes, in a fixed order,
then the host's extensions in the order of their names, then the data. The envelope names no
attribute twice, and the position of an event among those about one subject is written so that
it is read back in one spelling only and sorts as text.
-/

namespace Proxiima.Publication

open Codes Identity

/-! ### Positions -/

structure SubjectPosition where
  subject : Uuid
  sequence : ℕ
  nonZero : sequence ≠ 0
  fits : sequence < 2 ^ 64

inductive SubjectPositionError where
  | subject | sequence

def sequenceDigits : ℕ := 20

variable (ids : Goals.UuidText)

namespace SubjectPosition

def subjectAttribute (p : SubjectPosition) : String := ids.text p.subject

/-- Twenty decimal digits, enough for every `u64`. -/
def sequenceAttribute (p : SubjectPosition) : String :=
  String.ofList ((digits 10 sequenceDigits p.sequence).map Nat.digitChar)

def isAsciiDigit (b : UInt8) : Bool := 48 ≤ b && b ≤ 57

/-- The number a text of digits spells. -/
def parseU64 (text : String) : ℕ := value 10 ((utf8 text).map fun b => b.toNat - 48)

def parse (subject sequence : String) : Except SubjectPositionError SubjectPosition :=
  match ids.parse subject with
  | none => .error .subject
  | some uuid =>
    if ids.text uuid ≠ subject then .error .subject
    else if (utf8 sequence).length ≠ sequenceDigits ∨ !(utf8 sequence).all isAsciiDigit then
      .error .sequence
    else if h : parseU64 sequence ≠ 0 ∧ parseU64 sequence < 2 ^ 64 then
      .ok ⟨uuid, parseU64 sequence, h.1, h.2⟩
    else .error .sequence

end SubjectPosition

/-! ### Sealing -/

variable {N : Type}

/-- The formats of other crates: times in UTC, JSON, numbers, the digest. -/
structure Formats (N : Type) where
  rfc3339 : OffsetDateTime → Except String String
  toVec : Value N → Except String Bytes
  ofInt : Int32 → N
  blake3 : Bytes → Bytes

structure PublicationDraft (N : Type) where
  schemaId : String
  schemaVersion : ℕ
  eventType : String
  dataSchema : String
  source : String
  modelId : Option String
  owner : Uuid
  extensions : PublicationExtensions
  data : JsonValue N

structure PublicationPlan (N : Type) where
  draft : PublicationDraft N
  maxPayloadBytes : ℕ

structure SealedPublication where
  id : Uuid
  eventId : String
  bytes : Bytes
  digest : Bytes
  eventType : String
  schemaId : String
  schemaVersion : ℕ

inductive PublicationError where
  | payloadTooLarge (bytes max : ℕ)
  | exportFailed (message : String)

def dataSchemaUri (schemaId : String) (schemaVersion : ℕ) : String :=
  "proxiima://schema/" ++ schemaId ++ "/" ++ toString schemaVersion

def PublicationDraft.new (schemaId : String) (schemaVersion : ℕ) (source : String) (owner : Uuid)
    (modelId : Option String) (extensions : PublicationExtensions) (data : JsonValue N) :
    PublicationDraft N :=
  ⟨schemaId, schemaVersion, schemaId, dataSchemaUri schemaId schemaVersion, source, modelId, owner,
    extensions, data⟩

/-- The attributes the substrate writes before the extensions. -/
def substrateAttributes (draft : PublicationDraft N) (t : Uuid) (time : String)
    (position : SubjectPosition) : List (String × Value N) :=
  [("specversion", .string "1.0"), ("id", .string (ids.text t)), ("source", .string draft.source),
    ("type", .string draft.eventType), ("datacontenttype", .string "application/json"),
    ("dataschema", .string draft.dataSchema), ("time", .string time),
    ("subject", .string (position.subjectAttribute ids)),
    ("sequence", .string position.sequenceAttribute),
    ("proxiimaowner", .string (ids.text draft.owner))] ++
  draft.modelId.toList.map fun model => ("proxiimamodel", .string model)

def ExtensionValue.toValue (formats : Formats N) : ExtensionValue → Value N
  | .string text => .string text
  | .integer n => .number (formats.ofInt n)
  | .boolean b => .bool b

def extensionMembers (formats : Formats N) (x : PublicationExtensions) : List (String × Value N) :=
  x.entries.rows.map fun e => (e.1, e.2.toValue formats)

/-- `CloudEventEnvelope`, as the members it is serialized into. -/
def envelope (formats : Formats N) (draft : PublicationDraft N) (t : Uuid) (time : String)
    (position : SubjectPosition) : List (String × Value N) :=
  substrateAttributes ids draft t time position ++ extensionMembers formats draft.extensions ++
    [("data", draft.data.1)]

/-- `seal`. -/
def sealAt (formats : Formats N) (plan : PublicationPlan N) (t : Uuid) (occurredAt : OffsetDateTime)
    (position : SubjectPosition) : Except PublicationError SealedPublication :=
  match formats.rfc3339 occurredAt with
  | .error err =>
    .error (.exportFailed ("memory id " ++ ids.text t ++ " occurred_at: " ++ err))
  | .ok time =>
    match formats.toVec (.object (envelope ids formats plan.draft t time position)) with
    | .error err => .error (.exportFailed err)
    | .ok bytes =>
      if bytes.length > plan.maxPayloadBytes then
        .error (.payloadTooLarge bytes.length plan.maxPayloadBytes)
      else
        .ok ⟨t, ids.text t, bytes, formats.blake3 bytes, plan.draft.eventType, plan.draft.schemaId,
          plan.draft.schemaVersion⟩

/-- The bytes of an event once its extensions are bound, if they can be and it can be sealed. -/
def sealedBytes (formats : Formats N) (plan : PublicationPlan N) (t : Uuid)
    (occurredAt : OffsetDateTime) (position : SubjectPosition)
    (bound : Except PublicationExtensionsError PublicationExtensions) : Option Bytes := do
  let x ← bound.toOption
  let sealed ← (sealAt ids formats { plan with draft.extensions := x } t occurredAt
    position).toOption
  return sealed.bytes

/-! ### No attribute is written twice -/

variable {ids}

section Envelope

variable (formats : Formats N) (draft : PublicationDraft N) (t : Uuid) (time : String)
  (position : SubjectPosition)

lemma names_substrateAttributes (ids : Goals.UuidText) :
    ((substrateAttributes ids draft t time position).map Prod.fst).Nodup ∧
      "data" ∉ (substrateAttributes ids draft t time position).map Prod.fst ∧
      ∀ name ∈ (substrateAttributes ids draft t time position).map Prod.fst, Taken name := by
  rcases hmodel : draft.modelId with _ | model
  · simp only [substrateAttributes, hmodel]
    simp only [Option.toList, List.map_nil, List.map_cons, List.append_nil]
    decide +kernel
  · simp only [substrateAttributes, hmodel]
    simp only [Option.toList, List.map_nil, List.map_cons, List.cons_append, List.nil_append]
    decide +kernel

lemma nodup_envelope : ((envelope ids formats draft t time position).map Prod.fst).Nodup := by
  obtain ⟨hnodup, hdata, htaken⟩ := names_substrateAttributes draft t time position ids
  have hnames : (extensionMembers formats draft.extensions).map Prod.fst =
      draft.extensions.entries.rows.map Prod.fst := List.map_map
  have hfree : ∀ name ∈ draft.extensions.entries.rows.map Prod.fst, ¬ Taken name := by
    intro name hname
    obtain ⟨e, he, rfl⟩ := List.mem_map.1 hname
    exact (draft.extensions.checked e he).not_taken
  rw [envelope, List.map_append, List.map_append, hnames, List.nodup_append', List.nodup_append']
  refine ⟨⟨hnodup, draft.extensions.entries.nodup_keys,
    fun name hs he => hfree name he (htaken name hs)⟩, List.nodup_singleton _, ?_⟩
  rintro name hname hd
  obtain rfl := List.mem_singleton.1 hd
  rcases List.mem_append.1 hname with h | h
  · exact hdata h
  · exact hfree _ h (.inl (show "data" ∈ cloudeventsCoreAttributes by decide))

/-- What holds of texts, of the values of extensions and of the data holds of every member. -/
lemma forall_envelope {P : Value N → Prop} (hstring : ∀ text, P (.string text))
    (hvalue : ∀ v : ExtensionValue, P (v.toValue formats)) (hdata : P draft.data.1) :
    ∀ m ∈ envelope ids formats draft t time position, P m.2 := by
  intro m hm
  rcases List.mem_append.1 hm with hm | hm
  · rcases List.mem_append.1 hm with hm | hm
    · rcases List.mem_append.1 hm with hm | hm
      · fin_cases hm <;> exact hstring _
      · obtain ⟨model, -, rfl⟩ := List.mem_map.1 hm
        exact hstring model
    · obtain ⟨⟨name, value⟩, -, rfl⟩ := List.mem_map.1 hm
      exact hvalue value
  · rw [List.mem_singleton.1 hm]
    exact hdata

/-- The substrate's attributes, the extensions and the data of an event make one value without
repeated keys. -/
lemma keysOnce_envelope : (Value.object (envelope ids formats draft t time position)).KeysOnce := by
  refine ⟨nodup_envelope formats draft t time position, (membersKeysOnce_iff _).2 ?_⟩
  refine forall_envelope formats draft t time position (fun _ => trivial) ?_ draft.data.2
  rintro (_ | _ | _) <;> trivial

end Envelope

variable {formats : Formats N} {plan : PublicationPlan N} {t : Uuid} {occurredAt : OffsetDateTime}
  {position : SubjectPosition}

lemma sealAt_eq_ok {s : SealedPublication}
    (h : sealAt ids formats plan t occurredAt position = .ok s) :
    ∃ time, formats.rfc3339 occurredAt = .ok time ∧
      formats.toVec (.object (envelope ids formats plan.draft t time position)) = .ok s.bytes := by
  unfold sealAt at h
  split at h
  · cases h
  · next time htime =>
    split at h
    · cases h
    · next bytes hbytes =>
      split at h
      · cases h
      · cases h
        exact ⟨time, htime, hbytes⟩

/-- The bytes depend on what is bound alone. -/
lemma sealedBytes_congr {bound bound' : Except PublicationExtensionsError PublicationExtensions}
    (h : ∀ x, bound = .ok x ↔ bound' = .ok x) :
    sealedBytes ids formats plan t occurredAt position bound =
      sealedBytes ids formats plan t occurredAt position bound' := by
  have hsome : bound.toOption = bound'.toOption := by
    rcases bound with e | x
    · rcases bound' with e' | x'
      · rfl
      · cases (h x').2 rfl
    · rw [(h x).1 rfl]
  rw [sealedBytes, hsome, ← sealedBytes]

/-! ### Positions are read back in one spelling -/

namespace SubjectPosition

lemma utf8_digitChar {l : List ℕ} (hl : ∀ d ∈ l, d < 10) :
    utf8 (String.ofList (l.map Nat.digitChar)) = l.map fun d => UInt8.ofNat (48 + d) := by
  have hone : ∀ d < 10, utf8 (String.ofList [Nat.digitChar d]) = [UInt8.ofNat (48 + d)] := by
    decide +kernel
  induction l with
  | nil => rfl
  | cons d l ih =>
    obtain ⟨hd, hl⟩ := List.forall_mem_cons.1 hl
    have happend : utf8 (String.ofList ((d :: l).map Nat.digitChar)) =
        utf8 (String.ofList [Nat.digitChar d]) ++ utf8 (String.ofList (l.map Nat.digitChar)) := by
      rw [List.map_cons, ← List.singleton_append, String.ofList_append]
      simp only [utf8, String.toByteArray_append, ByteArray.data_append, Array.toList_append]
    rw [happend, hone d hd, ih hl]
    rfl

variable {p q : SubjectPosition}

lemma lt_pow_digits (p : SubjectPosition) : p.sequence < 10 ^ sequenceDigits :=
  p.fits.trans (by decide)

lemma digits_lt (p : SubjectPosition) : ∀ d ∈ digits 10 sequenceDigits p.sequence, d < 10 :=
  digits_lt_base (by decide)

lemma utf8_sequenceAttribute (p : SubjectPosition) : utf8 p.sequenceAttribute =
    (digits 10 sequenceDigits p.sequence).map fun d => UInt8.ofNat (48 + d) :=
  utf8_digitChar p.digits_lt

lemma toNat_digit {d : ℕ} (hd : d < 10) : (UInt8.ofNat (48 + d)).toNat = 48 + d := by
  rw [UInt8.toNat_ofNat', Nat.mod_eq_of_lt (by omega)]

lemma parseU64_sequenceAttribute (p : SubjectPosition) :
    parseU64 p.sequenceAttribute = p.sequence := by
  have hmap : (utf8 p.sequenceAttribute).map (fun b => b.toNat - 48) =
      digits 10 sequenceDigits p.sequence := by
    rw [utf8_sequenceAttribute, List.map_map]
    refine (List.map_congr_left fun d hd => ?_).trans (List.map_id _)
    rw [Function.comp_apply, toNat_digit (p.digits_lt d hd), Nat.add_sub_cancel_left, id]
  rw [parseU64, hmap, value_digits p.lt_pow_digits]

/-- Twenty digits are the spelling of the number they spell. -/
lemma digits_parseU64 {text : String} (hlen : (utf8 text).length = sequenceDigits)
    (hdigits : (utf8 text).all isAsciiDigit) :
    text = String.ofList ((digits 10 sequenceDigits (parseU64 text)).map Nat.digitChar) := by
  have hbyte (b : UInt8) (hb : b ∈ utf8 text) : 48 ≤ b.toNat ∧ b.toNat ≤ 57 := by
    have h := List.all_eq_true.1 hdigits b hb
    simpa [isAsciiDigit, UInt8.le_iff_toNat_le] using h
  have hlt : ∀ d ∈ (utf8 text).map (fun b => b.toNat - 48), d < 10 := by
    intro d hd
    obtain ⟨b, hb, rfl⟩ := List.mem_map.1 hd
    have := hbyte b hb
    omega
  have hvalue := digits_value hlt
  rw [List.length_map, hlen] at hvalue
  refine utf8_injective ?_
  rw [parseU64, hvalue, utf8_digitChar hlt, List.map_map]
  refine ((List.map_congr_left fun b hb => ?_).trans (List.map_id _)).symm
  rw [Function.comp_apply, Nat.add_sub_cancel' (hbyte b hb).1, UInt8.ofNat_toNat, id]

lemma parse_eq_ok {subject sequence : String} : parse ids subject sequence = .ok p ↔
    subject = p.subjectAttribute ids ∧ sequence = p.sequenceAttribute := by
  constructor
  · intro h
    unfold parse at h
    split at h
    · cases h
    · split_ifs at h with htext hdigits hfits
      cases h
      push Not at hdigits
      exact ⟨(not_not.1 htext).symm, digits_parseU64 hdigits.1 (by simpa using hdigits.2)⟩
  · rintro ⟨rfl, rfl⟩
    have hlen : (utf8 p.sequenceAttribute).length = sequenceDigits := by
      rw [utf8_sequenceAttribute, List.length_map, length_digits]
    have hall : (utf8 p.sequenceAttribute).all isAsciiDigit := by
      rw [utf8_sequenceAttribute, List.all_map, List.all_eq_true]
      intro d hd
      have h : ∀ d < 10, isAsciiDigit (UInt8.ofNat (48 + d)) := by decide
      exact h d (p.digits_lt d hd)
    simp only [parse, subjectAttribute, ids.parse_text, ne_eq, not_true, if_false, hlen, hall,
      Bool.not_true, Bool.false_eq_true, or_false, parseU64_sequenceAttribute]
    exact dif_pos ⟨p.nonZero, p.fits⟩

lemma rank_sequenceAttribute_lt :
    rank p.sequenceAttribute < rank q.sequenceAttribute ↔ p.sequence < q.sequence := by
  have hrank (p : SubjectPosition) :
      rank p.sequenceAttribute = (digits 10 sequenceDigits p.sequence).map (48 + ·) := by
    rw [rank, utf8_sequenceAttribute, List.map_map]
    exact List.map_congr_left fun d hd => toNat_digit (p.digits_lt d hd)
  rw [hrank, hrank, map_add_lt_map_add,
    digits_lt_digits p.lt_pow_digits q.lt_pow_digits (by decide)]

end SubjectPosition

/-! ### Envelopes -/

/-- **What an envelope says.** However the extensions are bound and merged, an event is sealed
into the same bytes; a bound name is never one of the substrate's; the envelope is an object
without repeated keys that has every attribute of the substrate with the value computed for it;
and a position is read from exactly the texts it is written as, which sort as their numbers. -/
theorem sealed_envelope (ids : Goals.UuidText) (formats : Formats N) :
    (∀ plan t occurredAt position (x : PublicationExtensions) l l', l.Perm l' →
      sealedBytes ids formats plan t occurredAt position (x.bindAll l) =
        sealedBytes ids formats plan t occurredAt position (x.bindAll l')) ∧
    (∀ plan t occurredAt position (x y : PublicationExtensions),
      sealedBytes ids formats plan t occurredAt position (x.merged y) =
        sealedBytes ids formats plan t occurredAt position (y.merged x)) ∧
    (∀ x : PublicationExtensions, ∀ e ∈ x.entries.rows, ¬ Taken e.1) ∧
    (∀ plan t occurredAt position s, sealAt ids formats plan t occurredAt position = .ok s →
      ∃ time members, formats.rfc3339 occurredAt = .ok time ∧
        formats.toVec (.object members) = .ok s.bytes ∧ (Value.object members).KeysOnce ∧
        ∀ a ∈ substrateAttributes ids plan.draft t time position,
          Taken a.1 ∧ ∀ v, (a.1, v) ∈ members ↔ v = a.2) ∧
    (∀ subject sequence p, SubjectPosition.parse ids subject sequence = .ok p ↔
      subject = p.subjectAttribute ids ∧ sequence = p.sequenceAttribute) ∧
    ∀ p q : SubjectPosition,
      rank p.sequenceAttribute < rank q.sequenceAttribute ↔ p.sequence < q.sequence := by
  refine ⟨fun plan t occurredAt position x l l' hperm => ?_,
    fun plan t occurredAt position x y => ?_, fun x e he h => ?_,
    fun plan t occurredAt position s hs => ?_, fun _ _ _ => SubjectPosition.parse_eq_ok,
    fun _ _ => SubjectPosition.rank_sequenceAttribute_lt⟩
  · exact sealedBytes_congr fun y => PublicationExtensions.bindAll_of_perm hperm
  · exact sealedBytes_congr fun z => PublicationExtensions.merged_comm
  · exact (x.checked e he).not_taken h
  · obtain ⟨time, htime, hbytes⟩ := sealAt_eq_ok hs
    refine ⟨time, _, htime, hbytes, keysOnce_envelope formats plan.draft t time position, ?_⟩
    intro a ha
    have hmem : a ∈ envelope ids formats plan.draft t time position := by
      rw [envelope, List.append_assoc]
      exact List.mem_append_left _ ha
    have htaken := (names_substrateAttributes plan.draft t time position ids).2.2
    refine ⟨htaken a.1 (List.mem_map_of_mem ha), fun v => ⟨fun hv => ?_, fun h => h ▸ hmem⟩⟩
    exact congrArg Prod.snd (List.inj_on_of_nodup_map
      (nodup_envelope formats plan.draft t time position) hv hmem rfl)

/-! ### A notice -/

/-- JSON with tally numbers, times by their nanoseconds, and the bytes as their own digest. -/
def tallyFormats : Formats ℕ where
  rfc3339 t := .ok (toString t.unixTimestampNanos)
  toVec v := .ok (jsonBytes escapedTokens v)
  ofInt n := n.toUInt32.toNat
  blake3 := id

/-- An event of a host that binds a region and a tier. -/
def notice : PublicationPlan ℕ where
  draft := .new "host/notice" 1 "proxiima://host" 2 none
    ⟨⟨[("region", .string "north"), ("tier", .integer 2)], by decide⟩, by
      unfold Checked
      decide +kernel, by decide⟩
    ⟨.object [("late", .bool true), ("days", .array [.number 3, .null])], by
      simp [Value.KeysOnce, membersKeysOnce, itemsKeysOnce]⟩
  maxPayloadBytes := 1024

/-- The first event about a subject. -/
def first : SubjectPosition := ⟨3, 1, by decide, by decide⟩

lemma sealed_notice : ∃ s, sealAt Goals.unary tallyFormats notice 4 ⟨0, 0, by decide⟩ first =
    .ok s := by
  have hok : (sealAt Goals.unary tallyFormats notice 4 ⟨0, 0, by decide⟩ first).isOk := by
    decide +kernel
  cases h : sealAt Goals.unary tallyFormats notice 4 ⟨0, 0, by decide⟩ first with
  | error e => simp [h, Except.isOk, Except.toBool] at hok
  | ok s => exact ⟨s, rfl⟩

/-- A sealed notice names its sequence once, and is the same however its extensions are bound. -/
theorem sealed_envelope_notice :
    (∃ s members, sealAt Goals.unary tallyFormats notice 4 ⟨0, 0, by decide⟩ first = .ok s ∧
      s.bytes = jsonBytes escapedTokens (.object members) ∧
      ∀ v, ("sequence", v) ∈ members ↔ v = .string "00000000000000000001") ∧
    sealedBytes Goals.unary tallyFormats notice 4 ⟨0, 0, by decide⟩ first
        (notice.draft.extensions.bindAll [("hot", .boolean true), ("line", .integer 5)]) =
      sealedBytes Goals.unary tallyFormats notice 4 ⟨0, 0, by decide⟩ first
        (notice.draft.extensions.bindAll [("line", .integer 5), ("hot", .boolean true)]) := by
  obtain ⟨hbound, -, -, hsealed, -⟩ := sealed_envelope Goals.unary tallyFormats
  refine ⟨?_, hbound notice 4 _ first _ _ _ (.swap _ _ [])⟩
  obtain ⟨s, hs⟩ := sealed_notice
  obtain ⟨time, members, -, hbytes, -, hmembers⟩ := hsealed notice 4 _ first s hs
  obtain ⟨-, hsequence⟩ :=
    hmembers ("sequence", .string first.sequenceAttribute) (by simp [substrateAttributes])
  exact ⟨s, members, hs, (Except.ok.inj hbytes).symm, hsequence⟩

end Proxiima.Publication
