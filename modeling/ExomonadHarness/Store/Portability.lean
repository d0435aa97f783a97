import ExomonadHarness.Store.Document
import ExomonadHarness.Store.Terminal

/-! Notes for another model. The visible items of a response group are rendered into one
assistant message; what only its provider can read is left out or refused. -/

namespace ExomonadHarness.Store

open Json Checked

/-- Printing and the parts of text handling that rest on Unicode tables. -/
structure NotePrinter (Hash : Type) where
  compact : Value → String
  pretty : Value → String
  hashText : Hash → String
  reference : ContextReference Hash → String
  isBlank : String → Bool

def invalidField (item field : String) : ContextError :=
  .portability (.invalidField item field)

def validateFields (object : Map) (allowed : List String) (item : String) :
    Except ContextError PUnit :=
  refuseFirst (OrderedMap.keys object) (fun key => decide (key ∉ allowed)) fun field =>
    .portability (.unsupportedField item field)

def requiredNonemptyString (object : Map) (key : String) : Except ContextError String :=
  okOr (((object.lookup key).bind Value.asStr).filter (!·.isEmpty)) (invalidField "tool" key)

def nullableArray (object : Map) (key location : String) : Except ContextError (List Value) :=
  match object.lookup key with
  | none | some .null => .ok []
  | some (.array values) => .ok values
  | some _ => .error (invalidField location key)

def stripMetadata (object : Map) : Map :=
  OrderedMap.remove "status" (OrderedMap.remove "id" object)

def rejectEncrypted (value : Value) : Except ContextError PUnit :=
  require (!encryptedPayload value) (.portability .encryptedPayload)

/-! Token probabilities. -/

def logprobObject (allowed : List String) (value : Value) : Except ContextError Map := do
  let object ← okOr value.asObject (invalidField "message.logprobs" "object")
  validateFields object allowed "message.logprobs"
  let _ ← okOr ((object.lookup "token").bind Value.asStr) (invalidField "message.logprobs" "token")
  let _ ← okOr ((object.lookup "logprob").bind Value.asNumber)
    (invalidField "message.logprobs" "logprob")
  let bytes ← okOr ((object.lookup "bytes").bind Value.asArray)
    (invalidField "message.logprobs" "bytes")
  require (bytes.all fun byte => byte.asU64.any (· ≤ 255)) (invalidField "message.logprobs" "bytes")
  return object

def validateInnerLogprob (value : Value) : Except ContextError PUnit := do
  let _ ← logprobObject ["token", "bytes", "logprob"] value

def validateLogprob (value : Value) : Except ContextError PUnit := do
  let object ← logprobObject ["token", "bytes", "logprob", "top_logprobs"] value
  let values ← okOr ((object.lookup "top_logprobs").bind Value.asArray)
    (invalidField "message.logprobs" "top_logprobs")
  values.forM validateInnerLogprob

/-! Items. -/

section

variable (isBlank : String → Bool)

/-- The field that holds the text of a part of the given kind. -/
def partTextField (part : Map) (kind : String) : Except ContextError String :=
  if kind = "input_text" then do
    validateFields part ["type", "text", "annotations"] "message.input_text"
    return "text"
  else if kind = "output_text" then do
    validateFields part ["type", "text", "annotations", "logprobs"] "message.output_text"
    let logprobs ← nullableArray part "logprobs" "message.output_text"
    logprobs.forM validateLogprob
    return "text"
  else if kind = "refusal" then do
    validateFields part ["type", "refusal", "annotations"] "message.refusal"
    return "refusal"
  else throw (invalidField "message.content" "type")

def rejectAnnotations (part : Map) : Except ContextError PUnit :=
  match part.lookup "annotations" with
  | some annotations => rejectEncrypted annotations
  | none => .ok ⟨⟩

def projectPart (value : Value) : Except ContextError (Value × Bool) := do
  let part ← okOr value.asObject (invalidField "message.content" "object")
  let kind ← okOr ((part.lookup "type").bind Value.asStr) (invalidField "message.content" "type")
  let field ← partTextField part kind
  let text ← okOr ((part.lookup field).bind Value.asStr) (invalidField "message.content" field)
  rejectAnnotations part
  return (.object (OrderedMap.remove "logprobs" part), !isBlank text)

def projectContent (object : Map) (content : Value) : Except ContextError (Map × Bool) :=
  match content with
  | .string text => .ok (object, !isBlank text)
  | .array parts => do
    let projected ← parts.mapM (projectPart isBlank)
    return (OrderedMap.insert "content" (.array (projected.map Prod.fst)) object,
      projected.any Prod.snd)
  | _ => .error (invalidField "message" "content")

def removeNullPhase (object : Map) : Map :=
  if object.lookup "phase" = some .null then OrderedMap.remove "phase" object else object

def projectMessage (object : Map) : Except ContextError (Value × Bool) := do
  validateFields object ["type", "role", "content", "phase", "id", "status"] "message"
  require ((object.lookup "phase").all fun phase =>
      decide (phase = .null) || decide (phase = .string "commentary") ||
        decide (phase = .string "final_answer"))
    (invalidField "message" "phase")
  require (decide (object.lookup "role" = some (.string "user")) ||
      decide (object.lookup "role" = some (.string "assistant")))
    (invalidField "message" "role")
  let content ← okOr (object.lookup "content") (invalidField "message" "content")
  let (projected, visible) ← projectContent isBlank object content
  let projected := removeNullPhase (stripMetadata projected)
  rejectEncrypted (.object projected)
  return (.object projected, visible)

def validateToolInput (object : Map) (custom : Bool) : Except ContextError PUnit :=
  if custom then do
    let _ ← okOr ((object.lookup "input").bind Value.asStr) (invalidField "tool_call" "input")
  else do
    let arguments ← okOr (object.lookup "arguments") (invalidField "tool_call" "arguments")
    require (arguments.asStr.isSome || arguments.asObject.isSome)
      (invalidField "tool_call" "arguments")

def projectToolCall (object : Map) (custom : Bool) : Except ContextError (Value × Bool) := do
  validateFields object (["type", "call_id", "name", "id", "status", "namespace", "async"] ++
    [if custom then "input" else "arguments"]) "tool_call"
  let _ ← requiredNonemptyString object "call_id"
  let name ← requiredNonemptyString object "name"
  validateToolInput object custom
  require ((object.lookup "namespace").all fun value =>
      decide (value = .null) || decide (value = .string "functions"))
    (invalidField "tool_call" "namespace")
  require ((object.lookup "async").all fun value =>
      decide (value = .bool true) || decide (value = .bool false))
    (invalidField "tool_call" "async")
  rejectEncrypted (.object object)
  return (.object (stripMetadata object), !isBlank name)

def outputVisible : Value → Bool
  | .null | .bool false => false
  | .string text => !isBlank text
  | _ => true

def projectToolOutput (object : Map) : Except ContextError (Value × Bool) := do
  validateFields object ["type", "call_id", "output", "output_format", "id", "status"] "tool_output"
  require ((object.lookup "output_format").all fun format => (OutputFormat.fromValue format).isSome)
    (invalidField "tool_output" "output_format")
  let _ ← requiredNonemptyString object "call_id"
  let output ← okOr (object.lookup "output") (invalidField "tool_output" "output")
  rejectEncrypted output
  return (.object (OrderedMap.remove "output_format" (stripMetadata object)),
    outputVisible isBlank output)

def validateReasoningText (kind location : String) (value : Value) : Except ContextError String := do
  let object ← okOr value.asObject (invalidField location "object")
  validateFields object ["type", "text"] location
  require (decide (object.lookup "type" = some (.string kind))) (invalidField location "type")
  okOr ((object.lookup "text").bind Value.asStr) (invalidField location "text")

def summaryTexts (object : Map) : Except ContextError (List String) :=
  match object.lookup "summary" with
  | none => .ok []
  | some summary => do
    let blocks ← okOr summary.asArray (invalidField "reasoning" "summary")
    blocks.mapM (validateReasoningText "summary_text" "reasoning.summary")

def projectReasoning (object : Map) : Except ContextError (Value × Bool) := do
  validateFields object ["type", "summary", "content", "encrypted_content", "id", "status"]
    "reasoning"
  require ((object.lookup "encrypted_content").all fun value =>
      decide (value = .null) || value.asStr.isSome)
    (invalidField "reasoning" "encrypted_content")
  let content ← nullableArray object "content" "reasoning"
  content.forM fun block => do
    let _ ← validateReasoningText "reasoning_text" "reasoning.content" block
  let texts ← summaryTexts object
  return (.object (OrderedMap.remove "content"
      (OrderedMap.remove "encrypted_content" (stripMetadata object))),
    texts.any (!isBlank ·))

def projectItem (item : Value) : Except ContextError (Value × Bool) := do
  let object ← okOr item.asObject (invalidField "item" "object")
  let kind ← okOr ((object.lookup "type").bind Value.asStr) (invalidField "item" "type")
  if kind = "message" then projectMessage isBlank object
  else if kind = "function_call" then projectToolCall isBlank object false
  else if kind = "custom_tool_call" then projectToolCall isBlank object true
  else if kind = "function_call_output" ∨ kind = "custom_tool_call_output" then
    projectToolOutput isBlank object
  else if kind = "reasoning" then projectReasoning isBlank object
  else throw (.portability .unsupportedItem)

end

/-! The note. -/

variable {Hash : Type} (printer : NotePrinter Hash)

def originValue (origin : Origin Hash) : Value :=
  .object [("hash", .string (printer.hashText origin.hash)),
    ("position", .number (.posInt (Fin.ofNat (2 ^ 64) origin.position))),
    ("request", .string origin.request)]

/-- One item of the note: where it came from, what is shown, and whether that says anything. -/
def renderItem (occurrence : Occurrence Hash) : Except ContextError (Value × Value × Bool) := do
  require (decide ((occurrence.item.get? "type").bind Value.asStr ≠ some "compaction")) .opaqueModel
  let (item, visible) ← projectItem printer.isBlank occurrence.item
  return (originValue printer occurrence.origin, item, visible)

def noteText (sources : ContextReference Hash) (rendered : List (Value × Value)) : String :=
  "[Store-generated model portability note; sources: " ++ printer.reference sources ++ "]" ++
    String.join (rendered.map fun entry =>
      "\n\nSource origin/hash " ++ printer.compact entry.1 ++ ":\n" ++ printer.pretty entry.2)

/-- The origins and the projected items a note shows. -/
def renderedItems (items : List (Occurrence Hash)) : Except ContextError (List (Value × Value)) := do
  let rendered ← items.mapM (renderItem printer)
  require (rendered.any (·.2.2)) (.portability .noVisibleContent)
  return rendered.map fun entry => (entry.1, entry.2.1)

/-- The message that carries a note. -/
def noteMessage (text : String) : Value :=
  .object [("content", .string text), ("role", .string "assistant"), ("type", .string "message")]

def render (items : List (Occurrence Hash)) : Except ContextError Value := do
  let rendered ← renderedItems printer items
  return noteMessage (noteText printer (referenceOf items) rendered)

end ExomonadHarness.Store
