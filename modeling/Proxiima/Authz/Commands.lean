import Proxiima.Authz.ScopeKeys

/-!
# Delegated commands

A delegated command is one flat tool or one action of a dispatcher. Its text is parsed
against the registry of the running deployment; its two names are what a grant stores.
-/

namespace Proxiima.Authz

/-! ### Trimmed texts -/

/-- `char::is_whitespace`. -/
def isWhitespace (c : Char) : Bool :=
  (9 ≤ c.toNat && c.toNat ≤ 13) || (0x2000 ≤ c.toNat && c.toNat ≤ 0x200a) ||
    c.toNat ∈ [0x20, 0x85, 0xa0, 0x1680, 0x2028, 0x2029, 0x202f, 0x205f, 0x3000]

def trim (text : List Char) : List Char :=
  ((text.dropWhile isWhitespace).reverse.dropWhile isWhitespace).reverse

inductive TrimmedLenViolation where
  | blank
  | tooLong (max got : ℕ)
  deriving DecidableEq

def TrimmedLenViolation.reason (field : String) : TrimmedLenViolation → String
  | blank => field ++ " must not be blank; it is empty after trimming whitespace"
  | tooLong max got =>
    field ++ " must be at most " ++ toString max ++ " chars after trimming; got " ++ toString got

def checkTrimmedLen (value : List Char) (max : ℕ) : Except TrimmedLenViolation (List Char) :=
  let value := trim value
  if value = [] then .error .blank
  else if max < value.length then .error (.tooLong max value.length)
  else .ok value

/-! ### The registry -/

structure McpActionSpec where
  action : List Char
  effect : ToolEffect
  audience : McpToolAudience
  deriving DecidableEq

structure McpToolDescriptor where
  name : List Char
  actionArgSpecs : List McpActionSpec
  argvActionSpecs : List McpActionSpec
  effect : Option ToolEffect
  audience : McpToolAudience
  deriving DecidableEq

namespace McpToolDescriptor

/-- Every action of either vocabulary. -/
def actions (d : McpToolDescriptor) : List McpActionSpec := d.actionArgSpecs ++ d.argvActionSpecs

/-- What one key of the tool declares. -/
def declaration (d : McpToolDescriptor) (action : Option (List Char)) : KeyDeclaration :=
  if d.actionArgSpecs = [] ∧ d.argvActionSpecs = [] then ⟨d.effect, d.audience⟩
  else
    match action.bind fun a => d.actions.find? (·.action = a) with
    | some spec =>
      ⟨some spec.effect, match d.audience with
        | .owner => .owner
        | .shared => spec.audience⟩
    | none => ⟨none, d.audience⟩

end McpToolDescriptor

/-- The tools of `SpiiceRegistryFrozen`. -/
abbrev Registry := List McpToolDescriptor

def Registry.mcpTool (r : Registry) (name : List Char) : Option McpToolDescriptor :=
  r.find? (·.name = name)

/-- The message of `ProtocolError::invalid_argument`. -/
def invalidArgument (field reason : String) : String :=
  "invalid argument " ++ field ++ ": " ++ reason

/-- The registered tool or leaf that a text names. -/
def registeredToolKey (value : List Char) (registry : Registry) : Except String ScopeKey :=
  let invalid (reason : String) : Except String ScopeKey :=
    .error (invalidArgument "tool_id" reason)
  let notCanonical := "tool id must be provider-safe canonical id"
  let leafRegistered := "leaf action scope required and must be registered"
  if '/' ∈ value then invalid notCanonical
  else
    match ScopeKey.parse value with
    | .error _ => invalid (if ':' ∈ value then leafRegistered else notCanonical)
    | .ok (.action tool action) =>
      if (registry.mcpTool tool.text).any fun d => d.actions.any (·.action = action.text) then
        .ok (.action tool action)
      else invalid leafRegistered
    | .ok (.tool tool) =>
      match registry.mcpTool tool.text with
      | some d =>
        if d.actionArgSpecs ≠ [] ∨ d.argvActionSpecs ≠ [] then
          invalid "leaf action scope required for grouped tools"
        else .ok (.tool tool)
      | none => invalid "tool id is not registered"
    | .ok (.resource _) => invalid leafRegistered

/-! ### Commands -/

/-- One registered flat tool or one dispatcher action. -/
structure DelegatedCommand where
  tool : ToolName
  action : Option ActionName
  deriving DecidableEq

namespace DelegatedCommand

def maxToolIdChars : ℕ := 200

/-- `none` for a resource key, which names no command. -/
def fromKey : ScopeKey → Option DelegatedCommand
  | .tool tool => some ⟨tool, none⟩
  | .action tool action => some ⟨tool, some action⟩
  | .resource _ => none

def parse (raw : List Char) (registry : Registry) : Except String DelegatedCommand :=
  match checkTrimmedLen raw maxToolIdChars with
  | .error violation => .error (invalidArgument "tool_id" (violation.reason "tool id"))
  | .ok value =>
    match registeredToolKey value registry with
    | .error e => .error e
    | .ok key =>
      match fromKey key with
      | some command => .ok command
      | none => .error (invalidArgument "tool_id" "tool id must name a tool or a leaf action")

/-- The command's text, `tool` or `tool:action`. -/
def text (c : DelegatedCommand) : List Char :=
  match c.action with
  | none => c.tool.text
  | some action => c.tool.text ++ ':' :: action.text

/-- The one key a redeemed phase runs under. -/
def scopeKey (c : DelegatedCommand) : Except ScopeKeyError ScopeKey :=
  match c.action with
  | none => .ok (.tool c.tool)
  | some action => ScopeKey.ofAction c.tool action

def toolScope (c : DelegatedCommand) : Except ScopeKeyError ToolScope :=
  c.scopeKey.map fun key => .palette [key]

def notCanonical : String := "stored delegation command is not canonical"

/-- The key that two stored columns name. -/
def storedKey (tool : List Char) (action : Option (List Char)) : Except ScopeKeyError ScopeKey := do
  let tool ← Name.parse .tool tool
  match action with
  | none => .ok (.tool tool)
  | some action => ScopeKey.ofAction tool (← Name.parse .action action)

/-- The command of the two stored columns. -/
def fromStorageParts (tool : List Char) (action : Option (List Char)) :
    Except String DelegatedCommand :=
  match storedKey tool action with
  | .error _ => .error notCanonical
  | .ok key =>
    match fromKey key with
    | none => .error notCanonical
    | some command =>
      if maxToolIdChars < command.text.length then .error notCanonical else .ok command

lemma ofAction_eq {tool : ToolName} {action : ActionName} {key : ScopeKey}
    (h : ScopeKey.ofAction tool action = .ok key) : key = .action tool action := by
  unfold ScopeKey.ofAction at h
  split at h
  · cases h
  · exact (Except.ok.inj h).symm

/-- What is read back from the two columns of a command is that command. -/
lemma fromStorageParts_eq {c c' : DelegatedCommand}
    (h : fromStorageParts c.tool.text (c.action.map Name.text) = .ok c') : c' = c := by
  obtain ⟨tool, action⟩ := c
  unfold fromStorageParts at h
  split at h
  · cases h
  rename_i key hkey
  split at h
  · cases h
  rename_i command hcommand
  split at h
  · cases h
  obtain rfl := Except.ok.inj h
  unfold storedKey at hkey
  cases htool : Name.parse .tool tool.text with
  | error e =>
    rw [htool] at hkey
    cases hkey
  | ok tool' =>
    rw [htool] at hkey
    obtain rfl : tool' = tool := Name.ext (Name.parse_text htool)
    cases action with
    | none =>
      obtain rfl := Except.ok.inj hkey
      exact (Option.some.inj hcommand).symm
    | some action =>
      cases haction : Name.parse .action action.text with
      | error e =>
        simp only [Option.map_some, haction] at hkey
        cases hkey
      | ok action' =>
        simp only [Option.map_some, haction] at hkey
        obtain rfl : action' = action := Name.ext (Name.parse_text haction)
        obtain rfl := ofAction_eq hkey
        exact (Option.some.inj hcommand).symm

end DelegatedCommand

end Proxiima.Authz
