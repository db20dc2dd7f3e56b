import Mathlib.Data.List.Perm.Basic
import Mathlib.Data.List.Sort
import Proxiima.Codes.Frames

/-!
# Canonical JSON

The bytes a JSON value is identified by: objects are written with their members in the order of
the keys, everything else as it stands. Two values have the same bytes exactly when they are
equal up to the order of the members of their objects, at every depth.
-/

namespace Proxiima.Identity

open Codes

/-- A JSON value over numbers `N`, the members of an object in the order its map gives them. -/
inductive Value (N : Type) where
  | null
  | bool (b : Bool)
  | number (n : N)
  | string (text : String)
  | array (items : List (Value N))
  | object (map : List (String × Value N))

def isNumberByte (b : UInt8) : Bool := b ∈ utf8 "+-.0123456789Ee"

/-- How `serde_json` writes numbers and strings: different ones as different tokens, a number
with the characters of numbers, a string between quotes, which close it. -/
structure Tokens (N : Type) where
  number : N → Bytes
  string : String → Bytes
  number_injective : Function.Injective number
  number_ne_nil : ∀ n, number n ≠ []
  number_bytes : ∀ n, ∀ b ∈ number n, isNumberByte b = true
  string_separates : Separates string
  string_opens : ∀ text, (string text).head? = some 34

variable {N : Type}

/-! ### The writer -/

abbrev KeyLe {α : Type} (a b : String × α) : Prop := rank a.1 ≤ rank b.1

/-- A member: its key, a colon and its value. -/
def member (tokens : Tokens N) (m : String × Bytes) : Bytes := tokens.string m.1 ++ 58 :: m.2

section Writing

variable (tokens : Tokens N) (arrange : List (String × Bytes) → List (String × Bytes))

mutual

/-- JSON without blanks, the members of an object put in order by `arrange`. -/
def written : Value N → Bytes
  | .null => utf8 "null"
  | .bool true => utf8 "true"
  | .bool false => utf8 "false"
  | .number n => tokens.number n
  | .string text => tokens.string text
  | .array items => 91 :: joined 44 (itemBytes items) ++ [93]
  | .object map => 123 :: joined 44 ((arrange (memberBytes map)).map (member tokens)) ++ [125]

def itemBytes : List (Value N) → List Bytes
  | [] => []
  | item :: items => written item :: itemBytes items

def memberBytes : List (String × Value N) → List (String × Bytes)
  | [] => []
  | (key, value) :: map => (key, written value) :: memberBytes map

end

lemma itemBytes_eq_map (items : List (Value N)) :
    itemBytes tokens arrange items = items.map (written tokens arrange) := by
  induction items with
  | nil => rfl
  | cons item items ih => rw [itemBytes, ih, List.map_cons]

lemma memberBytes_eq_map (map : List (String × Value N)) :
    memberBytes tokens arrange map = map.map (Prod.map id (written tokens arrange)) := by
  induction map with
  | nil => rfl
  | cons m map ih => rw [memberBytes, ih, List.map_cons]; rfl

end Writing

/-- The keys are sorted; each is written with the value the map has for it. -/
def canonicalJsonBytes (tokens : Tokens N) : Value N → Bytes :=
  written tokens (List.insertionSort KeyLe)

/-- `serde_json::to_vec`, which writes the members in the order of the map. -/
def jsonBytes (tokens : Tokens N) : Value N → Bytes := written tokens id

/-! ### Equality up to the order of members -/

mutual

/-- No object has a key twice. -/
def Value.KeysOnce : Value N → Prop
  | .array items => itemsKeysOnce items
  | .object map => (map.map Prod.fst).Nodup ∧ membersKeysOnce map
  | _ => True

def itemsKeysOnce : List (Value N) → Prop
  | [] => True
  | item :: items => item.KeysOnce ∧ itemsKeysOnce items

def membersKeysOnce : List (String × Value N) → Prop
  | [] => True
  | (_, value) :: map => value.KeysOnce ∧ membersKeysOnce map

end

/-- What `serde_json::Value` holds: the keys of a map are different. -/
abbrev JsonValue (N : Type) := {v : Value N // v.KeysOnce}

mutual

/-- Equal up to the order of the members of objects. -/
def Same : Value N → Value N → Prop
  | .null, .null => True
  | .bool b, .bool b' => b = b'
  | .number n, .number n' => n = n'
  | .string text, .string text' => text = text'
  | .array items, .array items' => sameItems items items'
  | .object map, .object map' => ∃ permuted, permuted.Perm map' ∧ sameMembers map permuted
  | _, _ => False

def sameItems : List (Value N) → List (Value N) → Prop
  | [], [] => True
  | item :: items, item' :: items' => Same item item' ∧ sameItems items items'
  | _, _ => False

def sameMembers : List (String × Value N) → List (String × Value N) → Prop
  | [], [] => True
  | (key, value) :: map, (key', value') :: map' =>
    key = key' ∧ Same value value' ∧ sameMembers map map'
  | _, _ => False

end

lemma itemsKeysOnce_iff (items : List (Value N)) :
    itemsKeysOnce items ↔ ∀ v ∈ items, v.KeysOnce := by
  induction items with
  | nil => simp [itemsKeysOnce]
  | cons item items ih => simp [itemsKeysOnce, ih]

lemma membersKeysOnce_iff (map : List (String × Value N)) :
    membersKeysOnce map ↔ ∀ m ∈ map, m.2.KeysOnce := by
  induction map with
  | nil => simp [membersKeysOnce]
  | cons m map ih => rw [membersKeysOnce, ih, List.forall_mem_cons]

lemma sameItems_iff (items items' : List (Value N)) :
    sameItems items items' ↔ items.Forall₂ Same items' := by
  induction items generalizing items' with
  | nil => cases items' <;> simp [sameItems]
  | cons item items ih => cases items' <;> simp [sameItems, ih]

/-- The members of two objects, pair by pair. -/
abbrev SameMember (m m' : String × Value N) : Prop := m.1 = m'.1 ∧ Same m.2 m'.2

lemma sameMembers_iff (map map' : List (String × Value N)) :
    sameMembers map map' ↔ map.Forall₂ SameMember map' := by
  induction map generalizing map' with
  | nil => cases map' <;> simp [sameMembers]
  | cons m map ih => cases map' <;> simp [sameMembers, ih, and_assoc]

/-- Induction over values: a fact that passes from the items and members to the whole. -/
lemma Value.induct {P : Value N → Prop} (null : P .null) (bool : ∀ b, P (.bool b))
    (number : ∀ n, P (.number n)) (string : ∀ text, P (.string text))
    (array : ∀ items, (∀ v ∈ items, P v) → P (.array items))
    (object : ∀ map, (∀ m ∈ map, P m.2) → P (.object map)) (v : Value N) : P v :=
  @Value.rec N P (fun items => ∀ v ∈ items, P v) (fun map => ∀ m ∈ map, P m.2)
    (fun m => P m.2) null bool number string array object (by simp)
    (fun _ _ hitem hitems => List.forall_mem_cons.2 ⟨hitem, hitems⟩) (by simp)
    (fun _ _ hm hmap => List.forall_mem_cons.2 ⟨hm, hmap⟩) (fun _ _ h => h) v

/-! ### Equal values have equal bytes -/

variable {α : Type}

lemma map_insertionSort_key {β : Type} (f : α → β) (l : List (String × α)) :
    (l.insertionSort KeyLe).map (Prod.map id f) =
      (l.map (Prod.map id f)).insertionSort KeyLe :=
  List.map_insertionSort KeyLe KeyLe _ l fun _ _ _ _ => Iff.rfl

/-- Members with different keys are sorted alike whatever their order. -/
lemma insertionSort_eq_of_perm {l m : List (String × α)} (hl : (l.map Prod.fst).Nodup)
    (h : l.Perm m) : l.insertionSort KeyLe = m.insertionSort KeyLe := by
  have hperm := (List.perm_insertionSort KeyLe l).trans
    (h.trans (List.perm_insertionSort KeyLe m).symm)
  refine List.Perm.eq_of_pairwise (fun a b ha hb hab hba => ?_)
    (List.pairwise_insertionSort KeyLe l) (List.pairwise_insertionSort KeyLe m) hperm
  have hkey : a.1 = b.1 := rank_injective (le_antisymm hab hba)
  exact List.inj_on_of_nodup_map hl ((List.mem_insertionSort _).1 ha)
    (h.mem_iff.2 ((List.mem_insertionSort _).1 hb)) hkey

lemma map_eq_of_forall₂ {β : Type} {R : α → α → Prop} {f : α → β} {l m : List α} (h : l.Forall₂ R m)
    (hf : ∀ a ∈ l, ∀ b, R a b → f a = f b) : l.map f = m.map f := by
  induction h with
  | nil => rfl
  | cons hab _ ih =>
    rw [List.map_cons, List.map_cons, hf _ (by simp) _ hab,
      ih fun a ha => hf a (List.mem_cons_of_mem _ ha)]

lemma canonicalJsonBytes_of_same (tokens : Tokens N) (v : Value N) :
    ∀ w, v.KeysOnce → Same v w → canonicalJsonBytes tokens v = canonicalJsonBytes tokens w := by
  induction v using Value.induct with
  | null | bool | number | string =>
    intro w _ hsame
    cases w <;> simp_all [Same]
  | array items ih =>
    intro w honce hsame
    obtain _ | _ | _ | _ | items' | _ := w <;> simp only [Same, sameItems_iff] at hsame
    have honce := (itemsKeysOnce_iff items).1 honce
    have hmap := map_eq_of_forall₂ hsame fun v hv w hvw => ih v hv w (honce v hv) hvw
    simp only [canonicalJsonBytes] at hmap
    simp only [canonicalJsonBytes, written, itemBytes_eq_map, hmap]
  | object map ih =>
    intro w honce hsame
    obtain _ | _ | _ | _ | _ | map' := w <;> simp only [Same, sameMembers_iff] at hsame
    obtain ⟨permuted, hperm, hsame⟩ := hsame
    obtain ⟨hkeys, honce⟩ := honce
    have honce := (membersKeysOnce_iff map).1 honce
    have hmap := map_eq_of_forall₂ hsame (f := Prod.map id (canonicalJsonBytes tokens))
      fun m hm m' hmm => Prod.ext hmm.1 (ih m hm m'.2 (honce m hm) hmm.2)
    have hnodup : ((memberBytes tokens (List.insertionSort KeyLe) map).map Prod.fst).Nodup := by
      simpa [memberBytes_eq_map, Function.comp_def] using hkeys
    have hbytes : (memberBytes tokens (List.insertionSort KeyLe) map).Perm
        (memberBytes tokens (List.insertionSort KeyLe) map') := by
      rw [memberBytes_eq_map, memberBytes_eq_map]
      exact hmap ▸ hperm.map _
    simp only [canonicalJsonBytes, written, insertionSort_eq_of_perm hnodup hbytes]

/-! ### Equal bytes come from equal values -/

/-- Nothing follows, or something that is not part of a number. -/
def Ends (x : Bytes) : Prop := ∀ b ∈ x.head?, isNumberByte b = false

lemma ends_cons {b : UInt8} (h : isNumberByte b = false) (x : Bytes) : Ends (b :: x) := by
  intro c hc
  obtain rfl : b = c := by simpa using hc
  exact h

inductive Form where
  | null | bool | number | string | array | object

def Value.form : Value N → Form
  | .null => .null
  | .bool _ => .bool
  | .number _ => .number
  | .string _ => .string
  | .array _ => .array
  | .object _ => .object

/-- The form of a value by its first byte. -/
def formOf (b : UInt8) : Option Form :=
  if isNumberByte b then some .number
  else if b = 110 then some .null
  else if b = 116 ∨ b = 102 then some .bool
  else if b = 34 then some .string
  else if b = 91 then some .array
  else if b = 123 then some .object
  else none

section Reading

variable {tokens : Tokens N} {arrange : List (String × Bytes) → List (String × Bytes)}

lemma exists_first (v : Value N) :
    ∃ b rest, written tokens arrange v = b :: rest ∧ formOf b = some v.form := by
  cases v with
  | null => exact ⟨_, _, rfl, rfl⟩
  | bool b => cases b <;> exact ⟨_, _, rfl, rfl⟩
  | number n =>
    obtain ⟨b, rest, hb⟩ := List.exists_cons_of_ne_nil (tokens.number_ne_nil n)
    have := tokens.number_bytes n b (by simp [hb])
    exact ⟨b, rest, hb, by simp [formOf, this, Value.form]⟩
  | string text =>
    obtain ⟨rest, hrest⟩ := List.head?_eq_some_iff.1 (tokens.string_opens text)
    exact ⟨34, rest, hrest, rfl⟩
  | array items => exact ⟨91, _, rfl, rfl⟩
  | object map => exact ⟨123, _, rfl, rfl⟩

variable {x y : Bytes}

lemma form_eq_of_append {v w : Value N}
    (h : written tokens arrange v ++ x = written tokens arrange w ++ y) : v.form = w.form := by
  obtain ⟨b, rest, hb, hv⟩ := @exists_first _ tokens arrange v
  obtain ⟨b', rest', hb', hw⟩ := @exists_first _ tokens arrange w
  rw [hb, hb', List.cons_append, List.cons_append, List.cons.injEq] at h
  rw [h.1, hw] at hv
  exact (Option.some.inj hv).symm

variable {R : Value N → Value N → Prop}

variable (tokens arrange R) in
/-- The bytes of a value are told apart from those of others, up to `R` and up to where it ends. -/
def Told (v : Value N) : Prop := ∀ w x y, Ends x → Ends y →
  written tokens arrange v ++ x = written tokens arrange w ++ y → R v w ∧ x = y

/-- Items are told apart up to their closing bracket when each is. -/
lemma forall₂_of_items {items items' : List (Value N)}
    (hitems : ∀ v ∈ items, Told tokens arrange R v)
    (h : joined 44 (items.map (written tokens arrange)) ++ 93 :: x =
      joined 44 (items'.map (written tokens arrange)) ++ 93 :: y) :
    items.Forall₂ R items' ∧ x = y := by
  refine forall₂_of_joined (ends_cons rfl) (ends_cons rfl) (by decide) ?_ ?_ hitems h
  · rintro v c hc rfl
    obtain ⟨b, rest, hb, hform⟩ := @exists_first _ tokens arrange v
    obtain rfl : b = 93 := by simpa [hb] using hc
    cases hform
  · intro v
    obtain ⟨b, rest, hb, -⟩ := @exists_first _ tokens arrange v
    simp [hb]

/-- Members are told apart up to their closing brace when the values are. -/
lemma forall₂_of_members {map map' : List (String × Value N)}
    (hmap : ∀ m ∈ map, Told tokens arrange R m.2)
    (h : joined 44 (map.map fun m => member tokens (m.1, written tokens arrange m.2)) ++ 125 :: x =
      joined 44 (map'.map fun m => member tokens (m.1, written tokens arrange m.2)) ++ 125 :: y) :
    map.Forall₂ (fun m m' => m.1 = m'.1 ∧ R m.2 m'.2) map' ∧ x = y := by
  have hopens (m : String × Bytes) : (member tokens m).head? = some 34 := by
    simp [member, List.head?_append, tokens.string_opens]
  refine forall₂_of_joined (ends_cons rfl) (ends_cons rfl) (by decide) ?_ ?_ ?_ h
  · rintro m c hc rfl
    rw [hopens] at hc
    cases hc
  · intro m hm
    simpa [hm] using hopens (m.1, written tokens arrange m.2)
  · intro m hm m' x y hx hy hmm
    simp only [member, List.append_assoc] at hmm
    obtain ⟨hkey, hrest⟩ := tokens.string_separates hmm
    obtain ⟨hvalue, hxy⟩ := hmap m hm m'.2 x y hx hy (List.cons.inj hrest).2
    exact ⟨⟨hkey, hvalue⟩, hxy⟩

/-- A value is read back up to a relation that passes from the items, and from the members as they
are arranged, to the whole. -/
lemma told {arranged : List (String × Value N) → List (String × Value N)}
    (harranged : ∀ map, arrange (map.map (Prod.map id (written tokens arrange))) =
      (arranged map).map (Prod.map id (written tokens arrange)))
    (hmem : ∀ map, arranged map ⊆ map)
    (hleaf : ∀ v : Value N, (∀ items, v ≠ .array items) → (∀ map, v ≠ .object map) → R v v)
    (harray : ∀ items items', items.Forall₂ R items' → R (.array items) (.array items'))
    (hobject : ∀ map map', (arranged map).Forall₂ (fun m m' => m.1 = m'.1 ∧ R m.2 m'.2)
      (arranged map') → R (.object map) (.object map')) (v : Value N) :
        Told tokens arrange R v := by
  induction v using Value.induct with
  | null =>
    intro w x y _ _ h
    cases w <;> cases form_eq_of_append h
    exact ⟨hleaf _ (by simp) (by simp), List.append_cancel_left h⟩
  | bool b =>
    intro w x y _ _ h
    obtain _ | b' | _ | _ | _ | _ := w <;> cases form_eq_of_append h
    have hbool := hleaf (.bool b) (by simp) (by simp)
    cases b <;> cases b'
    · exact ⟨hbool, List.append_cancel_left h⟩
    · exact absurd (List.cons.inj h).1 (by decide)
    · exact absurd (List.cons.inj h).1 (by decide)
    · exact ⟨hbool, List.append_cancel_left h⟩
  | number n =>
    intro w x y hx hy h
    obtain _ | _ | n' | _ | _ | _ := w <;> cases form_eq_of_append h
    obtain ⟨hn, hxy⟩ := append_inj_of_stop (tokens.number_bytes n) (tokens.number_bytes n') hx hy h
    obtain rfl := tokens.number_injective hn
    exact ⟨hleaf _ (by simp) (by simp), hxy⟩
  | string text =>
    intro w x y _ _ h
    obtain _ | _ | _ | text' | _ | _ := w <;> cases form_eq_of_append h
    obtain ⟨rfl, hxy⟩ := tokens.string_separates h
    exact ⟨hleaf _ (by simp) (by simp), hxy⟩
  | array items ih =>
    intro w x y _ _ h
    obtain _ | _ | _ | _ | items' | _ := w <;> cases form_eq_of_append h
    simp only [written, itemBytes_eq_map, List.cons_append, List.append_assoc,
      List.cons.injEq, true_and, List.nil_append] at h
    obtain ⟨hitems, hxy⟩ := forall₂_of_items ih h
    exact ⟨harray _ _ hitems, hxy⟩
  | object map ih =>
    intro w x y _ _ h
    obtain _ | _ | _ | _ | _ | map' := w <;> cases form_eq_of_append h
    simp only [written, memberBytes_eq_map, harranged, List.map_map, List.cons_append,
      List.append_assoc, List.cons.injEq, true_and, List.nil_append] at h
    obtain ⟨hmembers, hxy⟩ := forall₂_of_members (fun m hm => ih m (hmem map hm)) h
    exact ⟨hobject _ _ hmembers, hxy⟩

end Reading

/-- A value is read back up to the order of members. -/
lemma same_of_canonicalJsonBytes (tokens : Tokens N) {v w : Value N}
    (h : canonicalJsonBytes tokens v = canonicalJsonBytes tokens w) : Same v w := by
  have htold : Told tokens (List.insertionSort KeyLe) Same v := by
    refine told (fun map => (map_insertionSort_key _ map).symm)
      (fun map m hm => (List.mem_insertionSort _).1 hm) ?_ ?_ ?_ v
    · intro v harray hobject
      cases v <;> simp_all [Same]
    · intro items items' hitems
      exact (sameItems_iff items items').2 hitems
    · intro map map' hsorted
      -- The sorted members match one by one, so the unsorted ones do in some order.
      obtain ⟨permuted, hsame, hperm⟩ :=
        List.perm_comp_forall₂ (List.perm_insertionSort KeyLe map).symm hsorted
      exact ⟨permuted, hperm.trans (List.perm_insertionSort KeyLe map'),
        (sameMembers_iff map permuted).2 hsame⟩
  exact (htold w [] [] nofun nofun (congrArg (· ++ []) h)).1

lemma jsonBytes_injective (tokens : Tokens N) : Function.Injective (jsonBytes tokens) := by
  intro v w h
  have htold : Told tokens id Eq v := by
    refine told (fun map => rfl) (fun map => List.Subset.refl map) (fun _ _ _ => rfl) ?_ ?_ v
    · intro items items' hitems
      rw [List.forall₂_eq_eq_eq.le _ _ hitems]
    · intro map map' hmembers
      rw [List.forall₂_eq_eq_eq.le _ _ (hmembers.imp fun m m' => Prod.ext_iff.2)]
  exact (htold w [] [] nofun nofun (congrArg (· ++ []) h)).1

/-- **Canonical bytes identify a JSON value up to the order of members**: they are equal exactly
when the values are equal up to the order of the members of objects, at every depth. -/
theorem canonicalJsonBytes_eq_iff (tokens : Tokens N) (v w : JsonValue N) :
    canonicalJsonBytes tokens v = canonicalJsonBytes tokens w ↔ Same v.1 w.1 := by
  exact ⟨same_of_canonicalJsonBytes tokens, canonicalJsonBytes_of_same tokens v.1 w.1 v.2⟩

/-! ### Tokens with escapes -/

def escape (b : UInt8) : Bytes := if b = 34 ∨ b = 92 then [92, b] else [b]

lemma escaped_inj : ∀ {l m x y : Bytes},
    l.flatMap escape ++ 34 :: x = m.flatMap escape ++ 34 :: y → l = m ∧ x = y
  | [], [], x, y, h => ⟨rfl, by simpa using h⟩
  | [], b :: m, x, y, h => by
    by_cases hb : b = 34 ∨ b = 92 <;> simp_all [escape, eq_comm]
  | b :: l, [], x, y, h => by
    by_cases hb : b = 34 ∨ b = 92 <;> simp_all [escape]
  | b :: l, c :: m, x, y, h => by
    have hbc : b = c ∧ l.flatMap escape ++ 34 :: x = m.flatMap escape ++ 34 :: y := by
      by_cases hb : b = 34 ∨ b = 92 <;> by_cases hc : c = 34 ∨ c = 92 <;> simp_all [escape]
    obtain ⟨rfl, hrest⟩ := hbc
    obtain ⟨rfl, rfl⟩ := escaped_inj hrest
    exact ⟨rfl, rfl⟩

/-- Tally numbers, and strings with their quotes and backslashes escaped. -/
def escapedTokens : Tokens ℕ where
  number n := List.replicate (n + 1) 49
  string text := 34 :: (utf8 text).flatMap escape ++ [34]
  number_injective m n h := by simpa using congrArg List.length h
  number_ne_nil n := by simp
  number_bytes n b hb := by
    obtain rfl := List.eq_of_mem_replicate hb
    rfl
  string_separates text text' x y h := by
    obtain ⟨htext, hxy⟩ := escaped_inj (by simpa using h)
    exact ⟨utf8_injective htext, hxy⟩
  string_opens text := rfl

/-- Members may change places, items may not. -/
theorem canonicalJsonBytes_eq_iff_moved :
    canonicalJsonBytes escapedTokens
        (.object [("b", .array [.number 0, .null]), ("a", .string "x\"")]) =
      canonicalJsonBytes escapedTokens
        (.object [("a", .string "x\""), ("b", .array [.number 0, .null])]) ∧
    canonicalJsonBytes escapedTokens (.array [.number 0, .null]) ≠
      canonicalJsonBytes escapedTokens (.array [.null, .number 0]) := by
  constructor
  · refine (canonicalJsonBytes_eq_iff escapedTokens ⟨_, ?_⟩ ⟨_, ?_⟩).2 ⟨_, .swap _ _ [], ?_⟩
    · simp [Value.KeysOnce, membersKeysOnce, itemsKeysOnce]
    · simp [Value.KeysOnce, membersKeysOnce, itemsKeysOnce]
    · simp [sameMembers, Same, sameItems]
  · refine (canonicalJsonBytes_eq_iff escapedTokens ⟨_, ?_⟩ ⟨_, ?_⟩).not.2 ?_
    · simp [Value.KeysOnce, itemsKeysOnce]
    · simp [Value.KeysOnce, itemsKeysOnce]
    · simp [Same, sameItems]

example : canonicalJsonBytes escapedTokens
    (.object [("b", .array [.number 0, .null]), ("a", .string "x\"")]) =
      utf8 "\x7b\"a\":\"x\\\"\",\"b\":[1,null]\x7d" := by decide +kernel

end Proxiima.Identity
