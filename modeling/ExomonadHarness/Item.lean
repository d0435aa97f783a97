import ExomonadHarness.Json.Value
import ExomonadHarness.Support.Checked

/-! The tool calls among conversation items. -/

namespace ExomonadHarness.Item

open Json Checked

inductive ToolExecution where
  | synchronous | asynchronous
  deriving DecidableEq

inductive ToolInput where
  | function (arguments : Value)
  | custom (input : String)
  deriving DecidableEq

inductive ToolKind where
  | function | custom
  deriving DecidableEq

def ToolInput.kind : ToolInput → ToolKind
  | function _ => .function
  | custom _ => .custom

structure ToolCall where
  callId : String
  name : String
  input : ToolInput
  execution : ToolExecution
  deriving DecidableEq

section

variable (fromStr : String → Except String Document)

def toolInput (kind : String) (object : Map) : Except String ToolInput :=
  if kind = "custom_tool_call" then do
    let input ← okOr ((object.lookup "input").bind Value.asStr) "invalid custom input"
    return .custom input
  else
    match object.lookup "arguments" with
    | none => .error "missing function arguments"
    | some (.string text) =>
      match fromStr text with
      | .ok arguments => .ok (.function arguments.value)
      | .error _ => .error "invalid function arguments"
    | some (.object arguments) => .ok (.function (.object arguments))
    | some _ => .error "invalid function arguments"

def toolExecution (object : Map) : Except String ToolExecution :=
  match object.lookup "async" with
  | none | some (.bool false) => .ok .synchronous
  | some (.bool true) => .ok .asynchronous
  | some _ => .error "invalid tool async mode"

def toolNamespace (object : Map) : Except String PUnit :=
  match object.lookup "namespace" with
  | none | some .null => .ok ⟨⟩
  | some (.string "functions") => .ok ⟨⟩
  | some _ => .error "unsupported tool namespace"

/-- The call of an item, if it is one. -/
def toolCall (item : Value) : Except String (Option ToolCall) :=
  match (item.get? "type").bind Value.asStr with
  | none => .ok none
  | some kind =>
    if kind ≠ "function_call" ∧ kind ≠ "custom_tool_call" then .ok none
    else do
      let object ← okOr item.asObject "malformed tool call"
      toolNamespace object
      let execution ← toolExecution object
      let callId ← okOr ((object.lookup "call_id").bind Value.asStr) "missing call_id"
      let name ← okOr ((object.lookup "name").bind Value.asStr) "missing tool name"
      let input ← toolInput fromStr kind object
      return some { callId, name, input, execution }

end

end ExomonadHarness.Item
