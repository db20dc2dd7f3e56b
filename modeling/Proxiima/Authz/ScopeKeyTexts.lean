import Proxiima.Authz.ScopeKeys
import Proxiima.Codes.Frames

/-!
# The texts of scope keys

How a key is printed and how keys are ordered. Tools, actions and resources share one language
of texts; the head `resource` is kept for resources. A text parses exactly when some key prints
it, to that key and to no other, and the order of keys is the order of the bytes of their texts.
-/

namespace Proxiima.Authz

open Codes

namespace ScopeKey

def parts : ScopeKey → List (List Char)
  | .tool t => [t.text, [], []]
  | .action t a => [t.text, [':'], a.text]
  | .resource name => [resourceText ++ [':'], name.text, []]

/-- `Display`. -/
def display (k : ScopeKey) : List Char := k.parts.flatten

def strBytes (text : List Char) : Bytes := utf8 (String.ofList text)

def canonicalBytes (k : ScopeKey) : Bytes := k.parts.flatMap strBytes

/-- `Iterator::cmp` on bytes. -/
def cmpBytes : Bytes → Bytes → Ordering
  | [], [] => .eq
  | [], _ :: _ => .lt
  | _ :: _, [] => .gt
  | a :: x, b :: y => (compare a.toNat b.toNat).then (cmpBytes x y)

def cmp (k k' : ScopeKey) : Ordering := cmpBytes k.canonicalBytes k'.canonicalBytes

/-- The keys that can be built: a component of its own, or what `ScopeKey::action` returns. -/
def Built : ScopeKey → Prop
  | .tool _ | .resource _ => True
  | .action t a => ofAction t a = .ok (.action t a)

variable {k : ScopeKey} {text : List Char} {action : ActionName} {part : ScopeKeyPart}

lemma built_of_ofAction {tool : ToolName} (h : ofAction tool action = .ok k) :
    k = .action tool action ∧ k.Built := by
  unfold ofAction at h
  split at h
  · cases h
  · next hne =>
    cases h
    exact ⟨rfl, if_neg hne⟩

lemma tool_ne_of_built {tool : ToolName} (h : (ScopeKey.action tool action).Built) :
    tool.text ≠ resourceText := by
  intro htool
  rw [Built, ofAction, if_pos htool] at h
  cases h

/-! ### Names -/

lemma separator_notMem (n : Name part) : ':' ∉ n.text := by
  intro hmem
  have h := n.valid
  rw [validateName, if_neg (List.ne_nil_of_mem hmem), if_pos hmem] at h
  cases h

lemma parse_name (n : Name part) : Name.parse part n.text = .ok n := by
  unfold Name.parse
  split
  · rfl
  · next e he =>
    rw [n.valid] at he
    cases he

/-! ### Splitting at the first separator -/

lemma splitOnce_append {a b : List Char} (ha : ':' ∉ a) :
    splitOnce (a ++ ':' :: b) = some (a, b) := by
  induction a with
  | nil => simp [splitOnce]
  | cons c a ih =>
    simp only [List.mem_cons, not_or] at ha
    rw [List.cons_append, splitOnce, if_neg (Ne.symm ha.1), ih ha.2, Option.map_some]

lemma splitOnce_eq_none (h : ':' ∉ text) : splitOnce text = none := by
  induction text with
  | nil => rfl
  | cons c text ih =>
    simp only [List.mem_cons, not_or] at h
    rw [splitOnce, if_neg (Ne.symm h.1), ih h.2, Option.map_none]

lemma splitOnce_eq_some {a b : List Char} (h : splitOnce text = some (a, b)) :
    text = a ++ ':' :: b := by
  induction text generalizing a with
  | nil => cases h
  | cons c text ih =>
    unfold splitOnce at h
    split at h
    · next hc =>
      cases h
      rw [hc, List.nil_append]
    · obtain ⟨⟨a', b'⟩, hsplit, hab⟩ := Option.map_eq_some_iff.1 h
      cases hab
      rw [ih hsplit, List.cons_append]

/-! ### Parsing and printing -/

lemma display_tool (tool : ToolName) : (ScopeKey.tool tool).display = tool.text := by
  simp [display, parts]

lemma display_action (tool : ToolName) (action : ActionName) :
    (ScopeKey.action tool action).display = tool.text ++ ':' :: action.text := by
  simp [display, parts]

lemma display_resource (name : ResourceKey) :
    (ScopeKey.resource name).display = resourceText ++ ':' :: name.text := by
  simp [display, parts]

/-- What a key prints parses to it. -/
lemma parse_display (h : k.Built) : parse k.display = .ok k := by
  cases k with
  | tool tool =>
    rw [display_tool, parse, splitOnce_eq_none (separator_notMem tool)]
    simp [parse_name, Except.map]
  | action tool action =>
    rw [display_action, parse, splitOnce_append (separator_notMem tool)]
    simp only [if_neg (tool_ne_of_built h), if_neg (separator_notMem action), parse_name]
    exact h
  | resource name =>
    rw [display_resource, parse, splitOnce_append (by decide)]
    simp [parse_name, Except.map]

/-- What parses is a key that prints it. -/
lemma display_of_parse (h : parse text = .ok k) : k.Built ∧ k.display = text := by
  unfold parse at h
  cases hsplit : splitOnce text with
  | none =>
    rw [hsplit] at h
    cases hname : Name.parse .tool text <;> rw [hname] at h <;> cases h
    exact ⟨trivial, (display_tool _).trans (Name.parse_text hname)⟩
  | some p =>
    obtain ⟨before, rest⟩ := p
    rw [hsplit] at h
    rw [splitOnce_eq_some hsplit]
    simp only at h
    split at h
    · next hbefore =>
      cases hname : Name.parse .resource rest <;> rw [hname] at h <;> cases h
      exact ⟨trivial, by rw [display_resource, Name.parse_text hname, hbefore]⟩
    · split at h
      · cases h
      · cases htool : Name.parse .tool before <;> rw [htool] at h
        · cases h
        · cases haction : Name.parse .action rest <;> rw [haction] at h
          · cases h
          · obtain ⟨rfl, hbuilt⟩ := built_of_ofAction h
            refine ⟨hbuilt, ?_⟩
            rw [display_action, Name.parse_text htool, Name.parse_text haction]

/-! ### The order of keys -/

lemma cmpBytes_eq_lt_iff : ∀ x y : Bytes,
    cmpBytes x y = .lt ↔ x.map UInt8.toNat < y.map UInt8.toNat
  | [], [] => by simp [cmpBytes]
  | [], _ :: _ => by simp [cmpBytes]
  | _ :: _, [] => by simp [cmpBytes]
  | a :: x, b :: y => by
    rw [cmpBytes, Ordering.then_eq_lt, cmpBytes_eq_lt_iff x y, compare_lt_iff_lt,
      compare_eq_iff_eq, List.map_cons, List.map_cons, List.cons_lt_cons_iff]

lemma cmpBytes_eq_eq_iff : ∀ x y : Bytes, cmpBytes x y = .eq ↔ x = y
  | [], [] => by simp [cmpBytes]
  | [], _ :: _ => by simp [cmpBytes]
  | _ :: _, [] => by simp [cmpBytes]
  | a :: x, b :: y => by
    rw [cmpBytes, Ordering.then_eq_eq, cmpBytes_eq_eq_iff x y, compare_eq_iff_eq,
      UInt8.toNat_inj, List.cons.injEq]

lemma strBytes_append (a b : List Char) : strBytes (a ++ b) = strBytes a ++ strBytes b := by
  simp [strBytes, utf8, String.ofList_append]

/-- The bytes that are compared are those of the printed text. -/
lemma canonicalBytes_eq (k : ScopeKey) : k.canonicalBytes = strBytes k.display := by
  have hflatten (l : List (List Char)) : l.flatMap strBytes = strBytes l.flatten := by
    induction l with
    | nil => rfl
    | cons part l ih => rw [List.flatMap_cons, ih, List.flatten_cons, strBytes_append]
  exact hflatten k.parts

lemma strBytes_injective : Function.Injective strBytes := fun _ _ h =>
  String.ofList_injective (utf8_injective h)

/-- **A scope key and its text determine each other**: a text parses exactly when a key prints
it, to a key that does; different keys print differently; keys compare as the bytes of their
texts do, equal only to themselves; and no tool and no action that `ScopeKey::action` makes is
printed like a resource. -/
theorem scopeKey_texts :
    (∀ text, (∃ k, parse text = .ok k) ↔ ∃ k : ScopeKey, k.Built ∧ k.display = text) ∧
    (∀ text k, parse text = .ok k → k.Built ∧ k.display = text) ∧
    (∀ k k' : ScopeKey, k.Built → k'.Built →
      (k.display = k'.display ↔ k = k') ∧ (cmp k k' = .eq ↔ k = k') ∧
      (cmp k k' = .lt ↔
        (strBytes k.display).map UInt8.toNat < (strBytes k'.display).map UInt8.toNat)) ∧
    (∀ tool name, (ScopeKey.tool tool).display ≠ (ScopeKey.resource name).display) ∧
    ∀ tool action k name, ofAction tool action = .ok k →
      k.display ≠ (ScopeKey.resource name).display := by
  have hinj {k k' : ScopeKey} (hk : k.Built) (hk' : k'.Built) (h : k.display = k'.display) :
      k = k' := by
    have hparse := parse_display hk
    rw [h, parse_display hk'] at hparse
    exact (Except.ok.inj hparse).symm
  refine ⟨fun text => ⟨?_, ?_⟩, fun text k => display_of_parse, fun k k' hk hk' => ⟨?_, ?_, ?_⟩,
    fun tool name h => ?_, fun tool action k name hk h => ?_⟩
  · rintro ⟨k, hk⟩
    exact ⟨k, display_of_parse hk⟩
  · rintro ⟨k, hk, rfl⟩
    exact ⟨k, parse_display hk⟩
  · exact ⟨hinj hk hk', congrArg display⟩
  · rw [cmp, cmpBytes_eq_eq_iff, canonicalBytes_eq, canonicalBytes_eq, strBytes_injective.eq_iff]
    exact ⟨hinj hk hk', congrArg display⟩
  · rw [cmp, cmpBytes_eq_lt_iff, canonicalBytes_eq, canonicalBytes_eq]
  · cases @hinj (.tool tool) (.resource name) trivial trivial h
  · obtain ⟨rfl, hbuilt⟩ := built_of_ofAction hk
    cases @hinj _ (.resource name) hbuilt trivial h

end ScopeKey

end Proxiima.Authz
