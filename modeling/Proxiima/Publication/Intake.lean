import Proxiima.Publication.Envelope

/-!
# Received events

What a consumer reads from a record of the outbox: the attributes of the envelope by their names,
everything else as an extension, and the position of the event.
-/

namespace Proxiima.Publication

open Codes Identity

variable {N : Type}

mutual

/-- The numbers are among those in `Exact`, and no array or object is nested deeper than `depth`. -/
def ReadBack (Exact : N → Prop) (depth : ℕ) : Value N → Prop
  | .number n => Exact n
  | .array items => 0 < depth ∧ itemsReadBack Exact (depth - 1) items
  | .object map => 0 < depth ∧ membersReadBack Exact (depth - 1) map
  | _ => True

def itemsReadBack (Exact : N → Prop) (depth : ℕ) : List (Value N) → Prop
  | [] => True
  | item :: items => ReadBack Exact depth item ∧ itemsReadBack Exact depth items

def membersReadBack (Exact : N → Prop) (depth : ℕ) : List (String × Value N) → Prop
  | [] => True
  | (_, value) :: map => ReadBack Exact depth value ∧ membersReadBack Exact depth map

end

/-- The `remaining_depth` of a deserializer is 128, and an array or object that would use it up is
refused. -/
def maxNesting : ℕ := 127

/-- `serde_json::from_slice`. It reads what `to_vec` has written if the value is not nested too
deep and its numbers survive, which integers do and a float may not. -/
structure Reader (formats : Formats N) where
  fromSlice : Bytes → Option (Value N)
  Exact : N → Prop
  exact_ofInt : ∀ n, Exact (formats.ofInt n)
  fromSlice_toVec : ∀ v bytes, v.KeysOnce → ReadBack Exact maxNesting v →
    formats.toVec v = .ok bytes → fromSlice bytes = some v

structure ClaimedPublication where
  eventId : String
  ownerId : Uuid
  envelope : Bytes
  attempts : ℕ

structure CloudEventEnvelope (N : Type) where
  specversion : String
  id : String
  source : String
  eventType : String
  datacontenttype : Option String
  dataschema : Option String
  time : Option String
  subject : Option String
  sequence : Option String
  proxiimaowner : Option String
  proxiimamodel : Option String
  extensions : SortedMap String (Value N)
  data : Value N

structure ReceivedEvent (N : Type) where
  id : String
  owner : Uuid
  deliveredCount : ℕ
  raw : Bytes
  envelope : CloudEventEnvelope N
  position : SubjectPosition

/-- An error of the parser, or one with a text of its own. -/
inductive ReadError where
  | json
  | custom (message : String)

def SubjectPositionError.message : SubjectPositionError → String
  | .subject => "`subject` is not a lowercase hyphenated uuid"
  | .sequence => "`sequence` is not 20 decimal digits above zero"

/-! ### Reading -/

section Reading

variable (members : List (String × Value N)) (name : String)

def readString : Option String :=
  match members.lookup name with
  | some (.string text) => some text
  | _ => none

/-- A field that may be absent or null. -/
def readOption : Option (Option String) :=
  match members.lookup name with
  | none | some .null => some none
  | some (.string text) => some (some text)
  | some _ => none

def namedAttributes : List String :=
  ["specversion", "id", "source", "type", "datacontenttype", "dataschema", "time", "subject",
    "sequence", "proxiimaowner", "proxiimamodel", "data"]

/-- The members no field is named after. -/
def readExtensions : SortedMap String (Value N) :=
  (members.filter fun m => m.1 ∉ namedAttributes).foldl (fun x m => x.insert m.1 m.2) .empty

def readEnvelope : Option (CloudEventEnvelope N) := do
  -- a field given twice is refused, an extension given twice is not
  guard ((members.map Prod.fst).filter (· ∈ namedAttributes)).Nodup
  return {
    specversion := ← readString members "specversion"
    id := ← readString members "id"
    source := ← readString members "source"
    eventType := ← readString members "type"
    datacontenttype := ← readOption members "datacontenttype"
    dataschema := ← readOption members "dataschema"
    time := ← readOption members "time"
    subject := ← readOption members "subject"
    sequence := ← readOption members "sequence"
    proxiimaowner := ← readOption members "proxiimaowner"
    proxiimamodel := ← readOption members "proxiimamodel"
    extensions := readExtensions members
    data := ← members.lookup "data" }

end Reading

def fromSlice {formats : Formats N} (reader : Reader formats) (bytes : Bytes) :
    Option (CloudEventEnvelope N) :=
  match reader.fromSlice bytes with
  | some (.object members) => readEnvelope members
  | _ => none

def fromRecord (ids : Goals.UuidText) {formats : Formats N} (reader : Reader formats)
    (record : ClaimedPublication) : Except ReadError (ReceivedEvent N) :=
  match fromSlice reader record.envelope with
  | none => .error .json
  | some envelope =>
    match envelope.subject, envelope.sequence with
    | some subject, some sequence =>
      match SubjectPosition.parse ids subject sequence with
      | .error e => .error (.custom e.message)
      | .ok position =>
        .ok ⟨record.eventId, record.ownerId, record.attempts, record.envelope, envelope, position⟩
    | _, _ => .error (.custom "publication envelope is missing its subject/sequence position")

inductive EventIdentity where
  | fact (id : Uuid)
  | opaqueId (id : String)

def ReceivedEvent.identity (ids : Goals.UuidText) (event : ReceivedEvent N) : EventIdentity :=
  match ids.parse event.id with
  | some uuid => if ids.text uuid = event.id then .fact uuid else .opaqueId event.id
  | none => .opaqueId event.id

/-! ### What is read of a sealed envelope -/

section Sealed

variable {formats : Formats N} {draft : PublicationDraft N}

lemma not_named {m : String × Value N} (hm : m ∈ extensionMembers formats draft.extensions) :
    m.1 ∉ namedAttributes := by
  obtain ⟨e, he, rfl⟩ := List.mem_map.1 hm
  have htaken : ∀ name ∈ namedAttributes, Taken name := by decide +kernel
  exact fun h => (draft.extensions.checked e he).not_taken (htaken _ h)

variable (ids : Goals.UuidText) (t : Uuid) (time : String) (position : SubjectPosition)

lemma readExtensions_envelope : (readExtensions (envelope ids formats draft t time position)).rows =
    extensionMembers formats draft.extensions := by
  have hnamed : ∀ m ∈ substrateAttributes ids draft t time position, m.1 ∈ namedAttributes := by
    rcases hmodel : draft.modelId with _ | model <;>
      simp [substrateAttributes, namedAttributes, hmodel]
  let x : SortedMap String (Value N) :=
    ⟨extensionMembers formats draft.extensions, List.pairwise_map.2 draft.extensions.entries.sorted⟩
  have hfilter : (envelope ids formats draft t time position).filter
      (fun m => m.1 ∉ namedAttributes) = x.rows := by
    rw [envelope, List.filter_append, List.filter_append, List.filter_eq_nil_iff.2,
      List.filter_eq_self.2, List.filter_eq_nil_iff.2, List.nil_append, List.append_nil]
    · simp [namedAttributes]
    · exact fun m hm => decide_eq_true (not_named hm)
    · simpa using hnamed
  have hx : readExtensions (envelope ids formats draft t time position) = x := by
    refine SortedMap.ext_get? fun name => ?_
    rw [readExtensions, hfilter, SortedMap.get?_foldl_insert (fun _ v _ => v) x.nodup_keys,
      SortedMap.get?_empty, Option.or_none, Option.map_id', SortedMap.get?]
  rw [hx]

lemma readEnvelope_envelope : readEnvelope (envelope ids formats draft t time position) = some
    ⟨"1.0", ids.text t, draft.source, draft.eventType, some "application/json",
      some draft.dataSchema, some time, some (position.subjectAttribute ids),
      some position.sequenceAttribute, some (ids.text draft.owner), draft.modelId,
      readExtensions (envelope ids formats draft t time position), draft.data.1⟩ := by
  have hnodup : (((envelope ids formats draft t time position).map Prod.fst).filter
      (· ∈ namedAttributes)).Nodup := (nodup_envelope formats draft t time position).filter _
  have hnone : ∀ name ∈ namedAttributes,
      (extensionMembers formats draft.extensions).lookup name = none := by
    intro name hname
    refine List.lookup_eq_none_iff.2 fun m hm => bne_iff_ne.2 ?_
    rintro rfl
    exact not_named hm hname
  unfold readEnvelope
  rw [guard, if_pos hnodup]
  generalize readExtensions _ = x
  simp only [namedAttributes, List.forall_mem_cons] at hnone
  rcases hmodel : draft.modelId with _ | model <;>
    simp [readString, readOption, envelope, substrateAttributes, hmodel, List.lookup_append,
      List.lookup_cons, hnone]

lemma membersReadBack_iff {Exact : N → Prop} {depth : ℕ} (map : List (String × Value N)) :
    membersReadBack Exact depth map ↔ ∀ m ∈ map, ReadBack Exact depth m.2 := by
  induction map with
  | nil => simp [membersReadBack]
  | cons m map ih => rw [membersReadBack, ih, List.forall_mem_cons]

/-- The envelope is one level around its data. -/
lemma readBack_envelope (reader : Reader formats)
    (hdata : ReadBack reader.Exact (maxNesting - 1) draft.data.1) :
    ReadBack reader.Exact maxNesting
      (.object (envelope ids formats draft t time position)) := by
  refine ⟨by decide, (membersReadBack_iff _).2 ?_⟩
  refine forall_envelope formats draft t time position (fun _ => trivial) ?_ hdata
  rintro (_ | n | _)
  · trivial
  · exact reader.exact_ofInt n
  · trivial

end Sealed

/-- The id an identity is read from. -/
def EventIdentity.text (ids : Goals.UuidText) : EventIdentity → String
  | .fact id => ids.text id
  | .opaqueId id => id

lemma ReceivedEvent.text_identity {ids : Goals.UuidText} (event : ReceivedEvent N) :
    (event.identity ids).text ids = event.id := by
  unfold identity
  split
  · split
    · assumption
    · rfl
  · rfl

/-- **Delivery gives back what was sealed.** A record is accepted exactly when its bytes are an
envelope with a position in the producer's spelling. A sealed publication whose data survive is
read as its attributes, the extensions the host has bound, the data and the position it was sealed
at. Events have one identity exactly when they have one id. -/
theorem received_sealed (ids : Goals.UuidText) (formats : Formats N) (reader : Reader formats) :
    (∀ record event, fromRecord ids reader record = .ok event ↔
      fromSlice reader event.raw = some event.envelope ∧
      event.envelope.subject = some (event.position.subjectAttribute ids) ∧
      event.envelope.sequence = some event.position.sequenceAttribute ∧
      record = ⟨event.id, event.owner, event.raw, event.deliveredCount⟩) ∧
    (∀ plan t occurredAt position s, sealAt ids formats plan t occurredAt position = .ok s →
      ReadBack reader.Exact (maxNesting - 1) plan.draft.data.1 →
      ∃ time x, formats.rfc3339 occurredAt = .ok time ∧
        x.rows = extensionMembers formats plan.draft.extensions ∧
        ∀ eventId owner attempts, fromRecord ids reader ⟨eventId, owner, s.bytes, attempts⟩ =
          .ok ⟨eventId, owner, attempts, s.bytes,
            ⟨"1.0", ids.text t, plan.draft.source, plan.draft.eventType, some "application/json",
              some plan.draft.dataSchema, some time, some (position.subjectAttribute ids),
              some position.sequenceAttribute, some (ids.text plan.draft.owner),
              plan.draft.modelId, x, plan.draft.data.1⟩, position⟩) ∧
    (∀ a b : ReceivedEvent N, a.identity ids = b.identity ids ↔ a.id = b.id) ∧
    ∀ (a : ReceivedEvent N) t, a.identity ids = .fact t ↔ a.id = ids.text t := by
  refine ⟨fun record event => ⟨fun h => ?_, ?_⟩, fun plan t occurredAt position s hs hdata => ?_,
    fun a b => ?_, fun a t => ?_⟩
  · unfold fromRecord at h
    split at h
    · cases h
    · next envelope henvelope =>
      split at h
      · next subject sequence hsubject hsequence =>
        split at h
        · cases h
        · next position hposition =>
          cases h
          obtain ⟨rfl, rfl⟩ := SubjectPosition.parse_eq_ok.1 hposition
          exact ⟨henvelope, hsubject, hsequence, rfl⟩
      · cases h
  · rintro ⟨hslice, hsubject, hsequence, rfl⟩
    simp only [fromRecord, hslice, hsubject, hsequence, SubjectPosition.parse_eq_ok.2 ⟨rfl, rfl⟩]
  · obtain ⟨time, htime, hbytes⟩ := sealAt_eq_ok hs
    refine ⟨time, _, htime, readExtensions_envelope ids t time position, fun _ _ _ => ?_⟩
    have hread := reader.fromSlice_toVec _ _ (keysOnce_envelope ..)
      (readBack_envelope ids t time position reader hdata) hbytes
    simp only [fromRecord, fromSlice, hread, readEnvelope_envelope,
      SubjectPosition.parse_eq_ok.2 ⟨rfl, rfl⟩]
  · refine ⟨fun h => ?_, fun h => by rw [ReceivedEvent.identity, h, ← ReceivedEvent.identity]⟩
    rw [← a.text_identity, h, b.text_identity]
  · refine ⟨fun h => ?_, fun h => by simp [ReceivedEvent.identity, h, ids.parse_text]⟩
    rw [← a.text_identity, h, EventIdentity.text]

/-- What reads tallies. -/
noncomputable def tallyReader : Reader tallyFormats where
  fromSlice := Function.partialInv (jsonBytes escapedTokens)
  Exact _ := True
  exact_ofInt _ := trivial
  fromSlice_toVec v bytes _ _ h := by
    obtain rfl := Except.ok.inj h
    exact Function.partialInv_left (jsonBytes_injective escapedTokens) v

/-- A notice is delivered with its data and its position, and identified by the text of its id. -/
theorem received_sealed_notice : ∃ bytes event,
    fromRecord Goals.unary tallyReader ⟨"1111", 2, bytes, 7⟩ = .ok event ∧
      event.raw = bytes ∧ event.deliveredCount = 7 ∧ event.envelope.eventType = "host/notice" ∧
      event.envelope.extensions.rows = [("region", .string "north"), ("tier", .number 2)] ∧
      event.envelope.data =
        .object [("late", .bool true), ("days", .array [.number 3, .null])] ∧
      event.position = first ∧ event.identity Goals.unary = .fact 4 := by
  obtain ⟨-, hsealed, -, hidentity⟩ := received_sealed Goals.unary tallyFormats tallyReader
  obtain ⟨s, hs⟩ := sealed_notice
  have hdata : ReadBack tallyReader.Exact (maxNesting - 1) notice.draft.data.1 := by
    simp [notice, PublicationDraft.new, ReadBack, membersReadBack, itemsReadBack, maxNesting,
      tallyReader]
  obtain ⟨time, x, -, hx, hread⟩ := hsealed notice 4 _ first s hs hdata
  exact ⟨s.bytes, _, hread "1111" 2 7, rfl, rfl, rfl, hx, rfl, rfl, (hidentity _ 4).2 rfl⟩

end Proxiima.Publication
