import ExomonadHarness.Finalize
import ExomonadHarness.Item

/-! Installed wire encodings of the tools of a host. -/

namespace ExomonadHarness.Embedding

open Json Schema Checked OrderedMap Item
open Finalize (finalizeToolName)

inductive ToolScheduling where
  | async | beforeNextInference
  deriving DecidableEq

inductive ToolEncodingProfile where
  | native | functionOnlyExplicitDelivery
  deriving DecidableEq

inductive EmbeddedError where
  | surface (message : String)
  | invalidParameters (error : SchemaError)
  deriving DecidableEq

inductive ProviderError where
  | tool (message : String)
  deriving DecidableEq

/-- Validated declarations of a host. -/
structure EmbeddedToolManifest where
  tools : List Value
  kinds : List (String × ToolKind)
  scheduling : List (String × ToolScheduling)
  textFields : List (String × String)

def isHarnessTool (name : String) : Bool :=
  name ∈ ["spawn_agent", "send_message", "followup_task", "wait_agent", "checkpoint", "set_effort",
    "list_agents", "interrupt_agent"]

/-- The scheduling of a tool without a policy is asynchronous. -/
def schedulingOf (scheduling : List (String × ToolScheduling)) (name : String) : ToolScheduling :=
  (scheduling.lookup name).getD .async

def declaredKind (tool : Value) (name : String) : Except EmbeddedError ToolKind :=
  if tool.index "type" = .string "function" ∧ tool.index "strict" = .bool true then .ok .function
  else if tool.index "type" = .string "custom" then .ok .custom
  else .error (.surface s!"unsupported declaration for {name}")

/-- Admit one more declaration to the kinds of a manifest. -/
def admitKind (kinds : List (String × ToolKind)) (tool : Value) :
    Except EmbeddedError (List (String × ToolKind)) := do
  let name ← okOr ((tool.index "name").asStr.filter fun name => !name.isEmpty)
    (.surface "missing tool name")
  let kind ← declaredKind tool name
  require (!(isHarnessTool name || name = finalizeToolName))
    (.surface s!"reserved standalone tool name {name}")
  require (kinds.lookup name).isNone (.surface s!"duplicate tool {name}")
  return kinds ++ [(name, kind)]

/-- Mark a declaration with whether its calls may run in the background. -/
def declareAsync (scheduling : List (String × ToolScheduling)) (tool : Value) : Value :=
  let name := (tool.index "name").asStr.getD ""
  .object (insert "async" (.bool (schedulingOf scheduling name = .async)) tool.entries)

/-- Every function of a manifest is strict and has admitted parameters. -/
def strictTools (tools : List Value) : Except EmbeddedError PUnit :=
  forM tools fun tool =>
    if tool.index "type" = .string "function" then do
      require (tool.index "strict" = .bool true) (.surface "all function tools must be strict")
      (validateFunctionParameters (tool.index "parameters")).mapError .invalidParameters
    else .ok ⟨⟩

def EmbeddedToolManifest.withScheduling (tools : List Value)
    (scheduling : List (String × ToolScheduling)) : Except EmbeddedError EmbeddedToolManifest := do
  let kinds ← tools.foldlM admitKind []
  require (scheduling.all fun policy => (kinds.lookup policy.1).isSome)
    (.surface "scheduling policy names an undeclared tool")
  let tools := tools.map (declareAsync scheduling)
  strictTools tools
  return { tools, kinds, scheduling, textFields := [] }

/-- The names of the text fields of custom tools are supplied by the host. -/
def EmbeddedToolManifest.withTextFields (tools : List Value)
    (scheduling : List (String × ToolScheduling)) (textFields : List (String × String)) :
    Except EmbeddedError EmbeddedToolManifest := do
  let manifest ← withScheduling tools scheduling
  forM textFields fun field =>
    require (manifest.kinds.lookup field.1 = some .custom && !field.2.isEmpty &&
      field.2 != "delivery") (.surface s!"invalid custom text field for {field.1}")
  return { manifest with textFields }

inductive Encoding where
  | identity
  | text (field : String) (delivery : Bool)
  | arguments
  deriving DecidableEq

structure EncodingMap where
  profile : ToolEncodingProfile
  rows : List (String × Encoding)

def flatName (name : String) : Bool :=
  name.utf8ByteSize ≤ 128 && name.toList.all fun char => char.isAlphanum || char = '_' || char = '-'

def encodingOf (manifest : EmbeddedToolManifest) (name : String) : Encoding :=
  let delivery := schedulingOf manifest.scheduling name = .async
  if manifest.kinds.lookup name = some .custom then
    .text ((manifest.textFields.lookup name).getD "input") delivery
  else if delivery then .arguments
  else .identity

def stringSchema : Value :=
  .object [("type", .string "string")]

def deliverySchema : Value :=
  .object [("enum", .array [.string "wait", .string "background"]), ("type", .string "string")]

/-- The parameters of an envelope with one field and, if offered, the delivery. -/
def envelopeParameters (field : String) (schema : Value) (delivery : Bool) : Value :=
  let properties := insert field schema []
  let properties := if delivery then insert "delivery" deliverySchema properties else properties
  let required := if delivery then [.string field, .string "delivery"] else [.string field]
  .object [
    ("additionalProperties", .bool false),
    ("properties", .object properties),
    ("required", .array required),
    ("type", .string "object")]

def envelopeTool (name : String) (tool parameters : Value) : Value :=
  .object [
    ("description", .string ((tool.index "description").asStr.getD "")),
    ("name", .string name),
    ("parameters", parameters),
    ("strict", .bool true),
    ("type", .string "function")]

def encodeTool (name : String) (tool : Value) : Encoding → Value
  | .identity => tool
  | .text field delivery =>
    envelopeTool name tool (envelopeParameters field stringSchema delivery)
  | .arguments =>
    envelopeTool name tool (envelopeParameters "arguments" (tool.index "parameters") true)

def removeAsync (tool : Value) : Value :=
  .object (remove "async" tool.entries)

def projectTool (manifest : EmbeddedToolManifest) (profile : ToolEncodingProfile) (tool : Value) :
    Except EmbeddedError (Value × String × Encoding) :=
  let name := (tool.index "name").asStr.getD ""
  if profile = .native then .ok (tool, name, .identity)
  else do
    require (flatName name) (.surface s!"unsupported flat tool name {name}")
    require ((tool.get? "namespace").all (· = .null))
      (.surface s!"tool namespace is not flat: {name}")
    let encoding := encodingOf manifest name
    return (removeAsync (encodeTool name tool encoding), name, encoding)

def EncodingMap.project (manifest : EmbeddedToolManifest) (profile : ToolEncodingProfile) :
    Except EmbeddedError (EmbeddedToolManifest × EncodingMap) := do
  let rows ← manifest.tools.mapM (projectTool manifest profile)
  let projected ← EmbeddedToolManifest.withScheduling (rows.map (·.1)) manifest.scheduling
  let tools := if profile = .native then projected.tools else projected.tools.map removeAsync
  return ({ projected with tools }, { profile, rows := rows.map (·.2) })

/-- The failure of every envelope that does not decode. -/
def invalidEnvelope (name : String) : ProviderError :=
  .tool s!"invalid installed tool envelope for {name}"

def decodeDelivery (name : String) (arguments : Map) : Except ProviderError ToolExecution :=
  match (arguments.lookup "delivery").bind Value.asStr with
  | some "wait" => .ok .synchronous
  | some "background" => .ok .asynchronous
  | _ => .error (invalidEnvelope name)

/-- Take the one remaining field of an envelope. -/
def decodeField (name field : String) (custom : Bool) (arguments : Map) :
    Except ProviderError ToolInput := do
  let value ← okOr (arguments.lookup field) (invalidEnvelope name)
  require (remove field arguments).isEmpty (invalidEnvelope name)
  if custom then
    let text ← okOr value.asStr (invalidEnvelope name)
    return .custom text
  else
    require value.asObject.isSome (invalidEnvelope name)
    return .function value

def decodeEnvelope (name field : String) (custom delivery : Bool) (input : ToolInput) :
    Except ProviderError (ToolInput × Option ToolExecution) :=
  match input with
  | .function (.object arguments) => do
    let execution ← (if delivery then decodeDelivery name arguments else .ok .synchronous)
    let arguments := if delivery then remove "delivery" arguments else arguments
    let input ← decodeField name field custom arguments
    return (input, some execution)
  | _ => .error (invalidEnvelope name)

def EncodingMap.decode (map : EncodingMap) (name : String) (input : ToolInput) :
    Except ProviderError (ToolInput × Option ToolExecution) :=
  match map.rows.lookup name with
  | none => .error (invalidEnvelope name)
  | some .identity => .ok (input, none)
  | some (.text field delivery) => decodeEnvelope name field true delivery input
  | some .arguments => decodeEnvelope name "arguments" false true input

def EncodingMap.execution (map : EncodingMap) (call : ToolCall) :
    Except ProviderError ToolExecution := do
  let (_, execution) ← map.decode call.name call.input
  return execution.getD (if map.profile = .native then call.execution else .synchronous)

end ExomonadHarness.Embedding
