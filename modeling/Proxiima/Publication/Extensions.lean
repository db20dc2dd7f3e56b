import Proxiima.Ordered.SortedMap
import Proxiima.Codes.Frames
import Proxiima.Serde.Json
import Mathlib.Data.String.Basic

/-!
# Publication extensions

The attributes a host binds to every event it publishes. A name is checked when it is bound and
never bound twice, and the set is kept in the order of the names, so it does not matter in which
order attributes were bound, one by one or in sets that were merged.
-/

namespace Proxiima.Publication

open Codes

def maxPublicationExtensions : ℕ := 8

def maxExtensionNameChars : ℕ := 20

def maxExtensionValueBytes : ℕ := 256

def cloudeventsCoreAttributes : List String :=
  ["specversion", "id", "source", "type", "datacontenttype", "dataschema", "subject", "time",
    "data", "data_base64"]

def proxiimaReserved : String := "proxiima"

def substrateExtensionAttributes : List String := ["sequence"]

inductive ExtensionValue where
  | string (text : String)
  | integer (n : Int32)
  | boolean (b : Bool)
  deriving DecidableEq

inductive PublicationExtensionsError where
  | emptyName
  | illegalNameCharacter (name : String)
  | nameTooLong (name : String) (chars max : ℕ)
  | coreAttributeName (name : String)
  | reservedName (name reserved : String)
  | substrateAttributeName (name : String)
  | emptyValue (name : String)
  | illegalValueCharacter (name : String)
  | valueTooLong (name : String) (bytes max : ℕ)
  | duplicateName (name : String)
  | tooMany (name : String) (max : ℕ)
  deriving DecidableEq

def isAsciiLowercaseOrDigit (c : Char) : Bool := ('a' ≤ c && c ≤ 'z') || ('0' ≤ c && c ≤ '9')

/-- `char::is_control`: the category Cc. -/
def isControl (c : Char) : Bool := c.toNat < 32 || (127 ≤ c.toNat && c.toNat < 160)

def validateExtensionName (name : String) : Except PublicationExtensionsError Unit :=
  if name = "" then .error .emptyName
  else if !name.toList.all isAsciiLowercaseOrDigit then .error (.illegalNameCharacter name)
  else if (utf8 name).length > maxExtensionNameChars then
    .error (.nameTooLong name (utf8 name).length maxExtensionNameChars)
  else if name ∈ cloudeventsCoreAttributes then .error (.coreAttributeName name)
  else if name ∈ substrateExtensionAttributes then .error (.substrateAttributeName name)
  else if proxiimaReserved.toList.isPrefixOf name.toList then
    .error (.reservedName name proxiimaReserved)
  else .ok ()

def validateExtensionValue (name : String) : ExtensionValue → Except PublicationExtensionsError Unit
  | .integer _ | .boolean _ => .ok ()
  | .string text =>
    if text = "" then .error (.emptyValue name)
    else if text.toList.any isControl then .error (.illegalValueCharacter name)
    else if (utf8 text).length > maxExtensionValueBytes then
      .error (.valueTooLong name (utf8 text).length maxExtensionValueBytes)
    else .ok ()

/-- An attribute that passes both checks. -/
def Checked (e : String × ExtensionValue) : Prop :=
  validateExtensionName e.1 = .ok () ∧ validateExtensionValue e.1 e.2 = .ok ()

/-- The bound attributes by name. -/
structure PublicationExtensions where
  entries : SortedMap String ExtensionValue
  checked : ∀ e ∈ entries.rows, Checked e
  bounded : entries.rows.length ≤ maxPublicationExtensions

/-- A name the envelope writes itself, or keeps for itself. -/
abbrev Taken (name : String) : Prop :=
  name ∈ cloudeventsCoreAttributes ∨ name ∈ substrateExtensionAttributes ∨
    proxiimaReserved.toList <+: name.toList

variable {e : String × ExtensionValue}

lemma Checked.not_taken (h : Checked e) : ¬ Taken e.1 := by
  have hname := h.1
  unfold validateExtensionName at hname
  split_ifs at hname with h1 h2 h3 hcore hsubstrate hreserved
  rintro (h | h | h)
  · exact hcore h
  · exact hsubstrate h
  · exact hreserved (List.isPrefixOf_iff_prefix.2 h)

namespace PublicationExtensions

def new : PublicationExtensions := ⟨.empty, by simp [SortedMap.empty], by decide⟩

lemma checked_insert (x : PublicationExtensions) (he : Checked e) :
    ∀ r ∈ (x.entries.insert e.1 e.2).rows, Checked r := by
  intro r hr
  rcases SortedMap.mem_insert.1 hr with rfl | ⟨hr, -⟩
  · exact he
  · exact x.checked r hr

def bind (x : PublicationExtensions) (e : String × ExtensionValue) :
    Except PublicationExtensionsError PublicationExtensions :=
  match hname : validateExtensionName e.1 with
  | .error err => .error err
  | .ok () =>
    match hvalue : validateExtensionValue e.1 e.2 with
    | .error err => .error err
    | .ok () =>
      if hfree : x.entries.get? e.1 = none then
        if hlen : x.entries.rows.length < maxPublicationExtensions then
          .ok ⟨x.entries.insert e.1 e.2, x.checked_insert ⟨hname, hvalue⟩,
            by rw [SortedMap.length_insert hfree]; exact hlen⟩
        else .error (.tooMany e.1 maxPublicationExtensions)
      else .error (.duplicateName e.1)

/-- `with`, for each of some attributes in turn. -/
def bindAll (x : PublicationExtensions) (l : List (String × ExtensionValue)) :
    Except PublicationExtensionsError PublicationExtensions := l.foldlM bind x

def merged (x other : PublicationExtensions) :
    Except PublicationExtensionsError PublicationExtensions := x.bindAll other.entries.rows

/-! ### Binding in any order -/

variable {x y : PublicationExtensions}

lemma ext_entries (h : x.entries = y.entries) : x = y := by
  cases x
  cases y
  cases h
  rfl

lemma bind_eq_ok :
    x.bind e = .ok y ↔ Checked e ∧ x.entries.get? e.1 = none ∧
      x.entries.rows.length < maxPublicationExtensions ∧
      y.entries = x.entries.insert e.1 e.2 := by
  constructor
  · intro h
    unfold bind at h
    split at h
    · cases h
    · next hname =>
      split at h
      · cases h
      · next hvalue =>
        split at h
        · next hfree =>
          split at h
          · next hlen =>
            cases h
            exact ⟨⟨hname, hvalue⟩, hfree, hlen, rfl⟩
          · cases h
        · cases h
  · rintro ⟨⟨hname, hvalue⟩, hfree, hlen, hy⟩
    unfold bind
    split
    · next err herr =>
      rw [hname] at herr
      cases herr
    · split
      · next err herr =>
        rw [hvalue] at herr
        cases herr
      · rw [dif_pos hfree, dif_pos hlen, Except.ok.injEq]
        exact (ext_entries hy).symm

/-- Attributes can be bound when all pass their checks, no name comes twice and there is room;
the result holds them all. -/
lemma bindAll_eq_ok {l : List (String × ExtensionValue)} :
    x.bindAll l = .ok y ↔ (∀ e ∈ l, Checked e) ∧ (l.map Prod.fst).Nodup ∧
      (∀ e ∈ l, x.entries.get? e.1 = none) ∧
      x.entries.rows.length + l.length ≤ maxPublicationExtensions ∧
      ∀ r, r ∈ y.entries.rows ↔ r ∈ l ∨ r ∈ x.entries.rows := by
  induction l generalizing x with
  | nil =>
    have hrows : x = y ↔ ∀ r, r ∈ y.entries.rows ↔ r ∈ x.entries.rows :=
      ⟨fun h r => by rw [h], fun h => ext_entries (SortedMap.ext_mem fun r => (h r).symm)⟩
    have hnil : x.bindAll [] = .ok x := rfl
    rw [hnil, Except.ok.injEq, hrows]
    simp only [List.not_mem_nil, false_imp_iff, implies_true, List.map_nil, List.nodup_nil,
      List.length_nil, Nat.add_zero, x.bounded, true_and, false_or]
  | cons e l ih =>
    have hcons : x.bindAll (e :: l) = x.bind e >>= fun x' => x'.bindAll l := List.foldlM_cons
    rw [hcons, Serde.bind_eq_ok]
    constructor
    · rintro ⟨x', hx', hrest⟩
      obtain ⟨he, hfree, -, hins⟩ := bind_eq_ok.1 hx'
      obtain ⟨hl, hnodup, hfreel, hlen, hmem⟩ := ih.1 hrest
      rw [hins, SortedMap.length_insert hfree] at hlen
      -- Once `e` is bound, its name is taken.
      have hnew (r : String × ExtensionValue) (hr : r ∈ l) :
          r.1 ≠ e.1 ∧ x.entries.get? r.1 = none := by
        have hr := hfreel r hr
        rw [hins, SortedMap.get?_insert] at hr
        split at hr
        · cases hr
        · next hne => exact ⟨hne, hr⟩
      refine ⟨List.forall_mem_cons.2 ⟨he, hl⟩, List.nodup_cons.2 ⟨?_, hnodup⟩,
        List.forall_mem_cons.2 ⟨hfree, fun r hr => (hnew r hr).2⟩, ?_, fun r => ?_⟩
      · intro hname
        obtain ⟨r, hr, heq⟩ := List.mem_map.1 hname
        exact (hnew r hr).1 heq
      · rw [List.length_cons]
        omega
      · rw [hmem r, hins, SortedMap.mem_insert_of_none hfree, List.mem_cons]
        tauto
    · rintro ⟨hc, hnodup, hfreel, hlen, hmem⟩
      obtain ⟨he, hl⟩ := List.forall_mem_cons.1 hc
      obtain ⟨hfree, hfreel⟩ := List.forall_mem_cons.1 hfreel
      obtain ⟨hname, hnodup⟩ := List.nodup_cons.1 hnodup
      rw [List.length_cons] at hlen
      have hlength := SortedMap.length_insert (v := e.2) hfree
      refine ⟨⟨x.entries.insert e.1 e.2, x.checked_insert he, by omega⟩,
        bind_eq_ok.2 ⟨he, hfree, by omega, rfl⟩,
        ih.2 ⟨hl, hnodup, fun r hr => ?_, by dsimp only; omega, fun r => ?_⟩⟩
      · have hne : r.1 ≠ e.1 := fun heq => hname (heq ▸ List.mem_map_of_mem hr)
        rw [SortedMap.get?_insert, if_neg hne, hfreel r hr]
      · rw [hmem r, SortedMap.mem_insert_of_none hfree, List.mem_cons]
        tauto

lemma bindAll_of_perm {l l' : List (String × ExtensionValue)} (h : l.Perm l') :
    x.bindAll l = .ok y ↔ x.bindAll l' = .ok y := by
  simp only [bindAll_eq_ok, h.mem_iff, (h.map Prod.fst).nodup_iff, h.length_eq]

/-- Sets merge into the same set from either side. -/
lemma merged_comm {z : PublicationExtensions} : x.merged y = .ok z ↔ y.merged x = .ok z := by
  have hfree {x y : PublicationExtensions} : (∀ e ∈ y.entries.rows, x.entries.get? e.1 = none) ↔
      ∀ k v w, (k, v) ∈ x.entries.rows → (k, w) ∈ y.entries.rows → False := by
    simp only [SortedMap.get?_eq_none, Prod.forall]
    exact ⟨fun h k v w hv hw => h k w hw v hv, fun h k w hw v hv => h k v w hv hw⟩
  simp only [merged, bindAll_eq_ok, hfree]
  refine and_congr ⟨fun _ => x.checked, fun _ => y.checked⟩ (and_congr ?_ (and_congr ?_ ?_))
  · exact ⟨fun _ => x.entries.nodup_keys, fun _ => y.entries.nodup_keys⟩
  · exact ⟨fun h k v w hv hw => h k w v hw hv, fun h k v w hv hw => h k w v hw hv⟩
  · simp only [Nat.add_comm, or_comm]

end PublicationExtensions

end Proxiima.Publication
