import ExomonadHarness.Support.Checked
import ExomonadHarness.Transport.Diagnostic

/-! The assembly of a response from its events. Completed output items are carried
by `response.output_item.done`; the terminal event may leave its output empty. -/

namespace ExomonadHarness.Transport

open Json Checked

structure ResponseAssembly where
  items : List (ℕ × Value) := []
  toolNames : List (String × String) := []
  completed : Option (String × Usage) := none
  responseId : Option String := none
  deriving DecidableEq

def deltaChannel : String → Option OutputChannel
  | "response.output_text.delta" => some .assistant
  | "response.reasoning_summary_text.delta" => some .reasoningSummary
  | "response.reasoning_text.delta" => some .reasoning
  | "response.function_call_arguments.delta" => some .toolArguments
  | "response.custom_tool_call_input.delta" => some .toolInput
  | "response.refusal.delta" => some .refusal
  | _ => none

namespace ResponseAssembly

/-- What accepting an event answers, and the assembly it leaves. -/
abbrev Accepted := Except TransportError (Option StreamEvent) × ResponseAssembly

/-- The identity of a response cannot change. -/
def checkIdentity (assembly : ResponseAssembly) (id : String) : Except TransportError Unit :=
  require (assembly.responseId.all (· == id)) (.stream "response identity changed")

/-- The response of a terminal event and its identity. -/
def terminalResponse (assembly : ResponseAssembly) (event : Value) :
    Except TransportError (Value × String) := do
  let response ← okOr (event.get? "response") (.stream "missing response")
  let id ← okOr ((response.get? "id").bind Value.asStr) (.stream "missing response id")
  assembly.checkIdentity id
  return (response, id)

def created (assembly : ResponseAssembly) (event : Value) : Accepted :=
  let checked : Except TransportError String := do
    let id ← okOr (((event.get? "response").bind (·.get? "id")).bind Value.asStr)
      (.stream "created response missing id")
    assembly.checkIdentity id
    return id
  match checked with
  | .error error => (.error error, assembly)
  | .ok id => (.ok none, { assembly with responseId := some id })

def added (assembly : ResponseAssembly) (event : Value) : Accepted :=
  let item := event.index "item"
  let kind := (item.index "type").asStr
  let toolNames :=
    if kind = some "function_call" ∨ kind = some "custom_tool_call" then
      match (item.index "name").asStr with
      | none => assembly.toolNames
      | some name =>
        [(item.index "id").asStr, (item.index "call_id").asStr].reduceOption.foldl
          (fun names id => OrderedMap.insert id name names) assembly.toolNames
    else assembly.toolNames
  (.ok none, { assembly with toolNames })

def doneItem (event : Value) : Except TransportError CompletedOutputItem := do
  let item ← okOr (event.get? "item") (.stream "missing done item")
  let outputIndex ← okOr ((event.get? "output_index").bind Value.asU64) .missingOutputIndex
  return { item, outputIndex, sequenceNumber := (event.get? "sequence_number").bind Value.asU64 }

def done (assembly : ResponseAssembly) (event : Value) : Accepted :=
  match doneItem event with
  | .error error => (.error error, assembly)
  | .ok done =>
    match assembly.items.lookup done.outputIndex with
    | some previous =>
      if previous = done.item then (.ok (some (.completedItem done)), assembly)
      else (.error (.conflictingOutputIndex done.outputIndex), assembly)
    | none =>
      (.ok (some (.completedItem done)),
        { assembly with items := OrderedMap.insert done.outputIndex done.item assembly.items })

def delta (assembly : ResponseAssembly) (kind : String) (channel : OutputChannel)
    (event : Value) : Except TransportError (Option StreamEvent) := do
  let itemId ← okOr
    (((event.get? "item_id").bind Value.asStr).or
      (if kind = "response.custom_tool_call_input.delta" then
        (event.get? "call_id").bind Value.asStr else none))
    (.stream "delta missing item_id")
  let index := (((event.get? "content_index").or (event.get? "summary_index")).bind
    Value.asU64).getD 0
  let toolName :=
    if kind = "response.function_call_arguments.delta" ∨
        kind = "response.custom_tool_call_input.delta" then
      assembly.toolNames.lookup itemId
    else none
  return ((event.get? "delta").bind Value.asStr).map fun text =>
    .delta itemId channel index text toolName

/-- The loop over a terminal output array. Items before a conflict stay recorded. -/
def mergeOutput (items : List (ℕ × Value)) :
    ℕ → List Value → Except TransportError Unit × List (ℕ × Value)
  | _, [] => (.ok (), items)
  | index, item :: rest =>
    if (items.lookup index).any (· != item) then (.error (.conflictingOutputIndex index), items)
    else mergeOutput (OrderedMap.insert index item items) (index + 1) rest

/-- A nonempty terminal output array carries authoritative output positions,
including items whose streamed events were absent. -/
def terminalOutput (assembly : ResponseAssembly) (output : List Value) :
    Except TransportError Unit × List (ℕ × Value) :=
  if output.isEmpty then (.ok (), assembly.items)
  else
    match mergeOutput assembly.items 0 output with
    | (.error error, items) => (.error error, items)
    | (.ok (), items) =>
      if items.length = output.length then (.ok (), items)
      else (.error (.incompleteOutputIndices output.length), items)

def complete (assembly : ResponseAssembly) (event : Value) : Accepted :=
  match assembly.terminalResponse event with
  | .error error => (.error error, assembly)
  | .ok (response, id) =>
    match assembly.terminalOutput (((response.get? "output").bind Value.asArray).getD []) with
    | (.error error, items) => (.error error, { assembly with items })
    | (.ok (), items) =>
      (.ok none,
        { assembly with items, completed := some (id, Usage.fromResponseUsage response) })

def incomplete (assembly : ResponseAssembly) (event : Value) (token account : String) :
    TransportError :=
  match assembly.terminalResponse event with
  | .error error => error
  | .ok (response, id) =>
    let reason := (((response.get? "incomplete_details").bind (·.get? "reason")).bind
      Value.asStr).map IncompleteReason.fromProvider
    .responseIncomplete (metadata id token account).1 reason

/-- The failure of a `response.failed` or `error` event. Only the latter states
fields of its own. -/
def providerFailure (failure : ProviderStreamFailureEvent) (event : Value)
    (token account : String) : TransportError :=
  let nested :=
    match failure with
    | .responseFailed => (event.get? "response").bind (·.get? "error")
    | .error => (event.get? "error").filter (·.asObject.isSome)
  let nestedField (name : String) : Option String :=
    (nested.bind (·.get? name)).bind Value.asStr
  let field (name : String) : Option String :=
    (nestedField name).or <|
      match failure with
      | .responseFailed => none
      | .error => (event.get? name).bind Value.asStr
  .providerStreamFailure failure <|
    diagnostic (field "code") ((nestedField "type").or (field "error_type")) (field "param")
      (field "message") token account

/-- One parsed event, by its `type`. -/
def acceptEvent (assembly : ResponseAssembly) (event : Value) (token account : String) :
    Accepted :=
  match (event.get? "type").bind Value.asStr with
  | some "response.created" => assembly.created event
  | some "response.output_item.added" => assembly.added event
  | some "response.output_item.done" => assembly.done event
  | some "response.completed" => assembly.complete event
  | some "response.incomplete" => (.error (assembly.incomplete event token account), assembly)
  | some "response.failed" => (.error (providerFailure .responseFailed event token account), assembly)
  | some "error" => (.error (providerFailure .error event token account), assembly)
  | some kind =>
    match deltaChannel kind with
    | some channel => (assembly.delta kind channel event, assembly)
    | none => (.ok none, assembly)
  | none => (.ok none, assembly)

/-- `accept_observed`. The text is parsed by `serde_json::from_str`. -/
def accept (fromStr : String → Except String Document) (assembly : ResponseAssembly)
    (data token account : String) : Accepted :=
  match fromStr data with
  | .error _ => (.error (.stream "invalid SSE JSON"), assembly)
  | .ok event => assembly.acceptEvent event.value token account

def isComplete (assembly : ResponseAssembly) : Bool := assembly.completed.isSome

/-- The recorded indices have to be `0, 1, 2, …`. -/
def contiguous : ℕ → List (ℕ × Value) → Except TransportError (List Value)
  | _, [] => .ok []
  | expected, (index, item) :: rest => do
    require (index == expected) (.incompleteOutputIndices expected)
    return item :: (← contiguous (expected + 1) rest)

def finish (assembly : ResponseAssembly) : Except TransportError ResponsesTurn := do
  let (responseId, usage) ← okOr assembly.completed (.incompleteResponse .missingCompletion)
  let items ← contiguous 0 assembly.items
  return { responseId, items, usage }

end ResponseAssembly

end ExomonadHarness.Transport
