import Proxiima.Access
import Proxiima.MemoryUuid

/-!
# Tool scopes

The keys of a tool scope: a flat tool, one action of a dispatcher, or a resource. Names are
checked where they are made, so none contains the separator, and a key is printed and parsed
in one way. A scope is everything or a palette of keys; a deployment serves a surface of its
own, and every declared read.
-/

namespace Proxiima.Authz

/-! ### Names -/

inductive ScopeKeyPart where
  | tool | action | resource
  deriving DecidableEq

inductive ScopeKeyError where
  | empty (part : ScopeKeyPart)
  | delimiter (part : ScopeKeyPart)
  | notProviderSafe (part : ScopeKeyPart)
  | tooManyParts
  | reservedToolName
  deriving DecidableEq

def isAsciiAlphanumeric (c : Char) : Bool :=
  ('a' ≤ c && c ≤ 'z') || ('A' ≤ c && c ≤ 'Z') || ('0' ≤ c && c ≤ '9')

/-- Unsafe characters and the second of two dots become underscores. -/
def providerSafe : Bool → List Char → List Char
  | _, [] => []
  | previousDot, c :: cs =>
    let mapped := if isAsciiAlphanumeric c || c == '_' || c == '-' || c == '.' then c else '_'
    if mapped = '.' then
      if previousDot then '_' :: providerSafe false cs else '.' :: providerSafe true cs
    else mapped :: providerSafe false cs

def validateName (part : ScopeKeyPart) (text : List Char) : Except ScopeKeyError Unit :=
  if text = [] then .error (.empty part)
  else if ':' ∈ text then .error (.delimiter part)
  else if providerSafe false text ≠ text then .error (.notProviderSafe part)
  else .ok ()

/-- A checked name. -/
structure Name (part : ScopeKeyPart) where
  text : List Char
  valid : validateName part text = .ok ()
  deriving DecidableEq

abbrev ToolName := Name .tool
abbrev ActionName := Name .action
abbrev ResourceKey := Name .resource

def Name.parse (part : ScopeKeyPart) (text : List Char) : Except ScopeKeyError (Name part) :=
  match h : validateName part text with
  | .ok () => .ok ⟨text, h⟩
  | .error e => .error e

variable {part : ScopeKeyPart}

lemma Name.ext {a b : Name part} (h : a.text = b.text) : a = b := by
  cases a
  cases b
  cases h
  rfl

/-- Parsing keeps the text. -/
lemma Name.parse_text {text : List Char} {n : Name part} (h : Name.parse part text = .ok n) :
    n.text = text := by
  unfold Name.parse at h
  split at h
  · rw [← Except.ok.inj h]
  · cases h

/-! ### Keys -/

def resourceText : List Char := ['r', 'e', 's', 'o', 'u', 'r', 'c', 'e']

/-- `ScopeKey`; an action's tool is never called `resource`. -/
inductive ScopeKey where
  | tool (tool : ToolName)
  | action (tool : ToolName) (action : ActionName)
  | resource (name : ResourceKey)
  deriving DecidableEq

namespace ScopeKey

def ofAction (tool : ToolName) (action : ActionName) : Except ScopeKeyError ScopeKey :=
  if tool.text = resourceText then .error .reservedToolName else .ok (.action tool action)

/-- The text before and after the first separator. -/
def splitOnce : List Char → Option (List Char × List Char)
  | [] => none
  | c :: cs =>
    if c = ':' then some ([], cs) else (splitOnce cs).map fun p => (c :: p.1, p.2)

def parse (text : List Char) : Except ScopeKeyError ScopeKey :=
  match splitOnce text with
  | none => (Name.parse .tool text).map .tool
  | some (before, rest) =>
    if before = resourceText then (Name.parse .resource rest).map .resource
    else if ':' ∈ rest then .error .tooManyParts
    else do
      let tool ← Name.parse .tool before
      let action ← Name.parse .action rest
      ofAction tool action

end ScopeKey

/-! ### Scopes -/

inductive ToolEffect where
  | readOnly
  | additive
  | destructive
  deriving DecidableEq

inductive McpToolAudience where
  | owner | shared
  deriving DecidableEq

structure KeyDeclaration where
  effect : Option ToolEffect
  audience : McpToolAudience
  deriving DecidableEq

def KeyDeclaration.isRead (d : KeyDeclaration) : Bool := d.effect = some .readOnly

inductive ToolScope where
  | all
  | palette (keys : List ScopeKey)
  deriving DecidableEq

def ToolScope.allows : ToolScope → ScopeKey → Bool
  | all, _ => true
  | palette keys, key => key ∈ keys

inductive ServedSurface where
  | all
  | palette (keys : List ScopeKey)
  deriving DecidableEq

namespace ServedSurface

def admits (s : ServedSurface) (key : ScopeKey) (declared : KeyDeclaration) : Bool :=
  declared.isRead || match s with
    | all => true
    | palette keys => key ∈ keys

def intersect : ServedSurface → ServedSurface → ServedSurface
  | all, s => s
  | s, all => s
  | palette left, palette right => palette (left.filter (· ∈ right))

/-- An intersection admits no more than either side. -/
lemma admits_of_intersect {s s' : ServedSurface} {key : ScopeKey} {d : KeyDeclaration}
    (h : (s.intersect s').admits key d = true) :
    s.admits key d = true ∧ s'.admits key d = true := by
  cases s <;> cases s' <;> simp_all [admits, intersect]; tauto

end ServedSurface

structure CapabilitySet where
  toolScope : ToolScope
  servedSurface : ServedSurface
  deriving DecidableEq

namespace CapabilitySet

def all : CapabilitySet := ⟨.all, .all⟩

def admits (c : CapabilitySet) (key : ScopeKey) (declared : KeyDeclaration) : Bool :=
  c.toolScope.allows key && c.servedSurface.admits key declared

end CapabilitySet

end Proxiima.Authz
