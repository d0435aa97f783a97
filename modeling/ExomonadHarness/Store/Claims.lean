import ExomonadHarness.Store.History
import ExomonadHarness.Store.ProviderResponse
import ExomonadHarness.Store.Terminal
import ExomonadHarness.Support.Agreement

/-! The claims of operations: their admission, settlement and interruption. -/

namespace ExomonadHarness.Store

open Json Checked Transaction
open Item (ToolCall ToolKind toolCall)
open Provider (ToolFailure)
open Scheduler (ConversationIdentity JobOutput OperationId)

variable {Hash Window : Type} [DecidableEq Hash] {toText : Value → String}

/-- What the settled claims of an operation say: its output item, outcome and format. -/
abbrev Settlement (Hash : Type) (toText : Value → String) :=
  Hash × TerminalOutcome toText × OutputFormat

/-- The output item of a call, as `Item::tool_output`. -/
def toolOutput (call : String) (kind : ToolKind) (output : JobOutput (ToolFailure toText)) : Value :=
  let value : Value := match output with
    | .completed (.ok value) => value
    | .completed (.error failed) => failed.outputValue
    | .cancelled => .object [("error", .string "job cancelled")]
    | .cancelledWithReceipt (.ok receipt) =>
      .object [("error", .string "job cancelled"), ("receipt", receipt)]
    | .cancelledWithReceipt (.error failed) =>
      .object [("error", .string "job cancelled"), ("receipt", failed.outputValue)]
    | .interrupted => .object [("error", .string "job interrupted")]
    | .cancellationUnconfirmed detail =>
      .object (OrderedMap.insertSome "result" detail.resultReceipt
        [("detail", .string detail.message), ("error", .string "cancellation unconfirmed")])
  match kind with
  | .function =>
    .object [("call_id", .string call), ("output", .string (toText value)),
      ("type", .string "function_call_output")]
  | .custom =>
    let text := match output with
      | .completed (.ok (.string text)) => text
      | _ => toText value
    .object [("call_id", .string call), ("output", .string text),
      ("type", .string "custom_tool_call_output")]

/-- The default format leaves the item as it is. -/
def toolOutputWithFormat (call : String) (kind : ToolKind)
    (output : JobOutput (ToolFailure toText)) (format : OutputFormat) : Value :=
  .object (OrderedMap.insertSome "output_format" format.written
    (toolOutput call kind output).entries)

/-- The format an item states. -/
def outputFormat (item : Value) : Except StoreError OutputFormat :=
  OutputFormat.read (item.get? "output_format")

/-- The format as the database extracts it: `null` is no format, and only text is one. -/
def extractedFormat (item : Value) : Except StoreError OutputFormat :=
  match item.get? "output_format" with
  | none | some .null => .ok .legacyOpaque
  | some value => okOr (OutputFormat.fromValue value) .storage

def validateReplayOutput (call : String) (kind : ToolKind) (output : Value) :
    Except StoreError PUnit :=
  let expected := match kind with
    | .function => "function_call_output"
    | .custom => "custom_tool_call_output"
  require (decide (output.index "type" = .string expected) &&
      decide (output.index "call_id" = .string call))
    (.replayOutputKindMismatch call kind)

/-- The item is a call under the given name. -/
def isInvocation (call : String) (item : Value) : Bool :=
  decide (item.index "call_id" = .string call) &&
    (decide (item.index "type" = .string "function_call") ||
      decide (item.index "type" = .string "custom_tool_call"))

omit [DecidableEq Hash] in
theorem ClaimRow.key_ite {row written : ClaimRow Hash} {condition : Prop} [Decidable condition]
    (keeps : written.key = row.key) : (if condition then written else row).key = row.key := by
  split
  case isTrue => exact keeps
  case isFalse => rfl

namespace Archive

/-- The conversation that issues the requests of a branch. -/
def identityForBranch (archive : Archive Hash Window) (branch : AgentPath) : ConversationIdentity :=
  match archive.bindings.find? branch with
  | some binding => .embedded binding.run branch binding.incarnation
  | none => .standalone archive.storeId branch

/-- The rows of a request that hold a call under the given name. -/
def invocations (archive : Archive Hash Window) (request : RequestId) (call : String) :
    List (Occurrence Hash) :=
  (archive.occurrencesOf request).filter (isInvocation call ·.item)

section

variable (fromStr : String → Except String Document)

/-- The one call a request holds under the given name. -/
def invocationItem (archive : Archive Hash Window) (request : RequestId) (call : String) :
    Except StoreError (Option ToolCall) :=
  (archive.invocations request call).foldlM
    (fun found occurrence => do
      let parsed ← (toolCall fromStr occurrence.item).mapError (.malformedReplayCall request call)
      let parsed ← okOr parsed (.malformedReplayCall request call "missing invocation")
      require found.isNone (.ambiguousReplayCall call)
      return some parsed) none

/-- The settled claims of an operation, by request. -/
def settledClaims (archive : Archive Hash Window) (operation : OperationId) : List (ClaimRow Hash) :=
  (archive.claims.rows.filter fun row =>
    decide (row.operation = operation) && decide (row.state = .settled)).insertionSort fun left right =>
      left.request ≤ right.request

/-- What one settled claim says: the output, the outcome and its format. -/
def settledOutcome (archive : Archive Hash Window) (operation : OperationId) (row : ClaimRow Hash) :
    Except StoreError (Settlement Hash toText) := do
  let hash ← okOr row.output (.unsupportedReplayOutcome operation)
  let text ← okOr row.terminal (.unsupportedReplayOutcome operation)
  let (terminal, format) ← decodeTerminal fromStr text
  let item ← okOr (archive.items hash) .missingReplayItem
  let itemFormat ← extractedFormat item
  require (itemFormat = format) (.conflictingReplayOutcome operation)
  return (hash, terminal, format)

/-- The outcome all settled claims of an operation agree on. -/
def exactTerminal (archive : Archive Hash Window) (operation : OperationId) :
    Except StoreError (Option (Settlement Hash toText)) :=
  agreed (archive.settledOutcome fromStr operation) (.conflictingReplayOutcome operation)
    (archive.settledClaims operation)

end

/-- Write the state of the pending claims that are selected. -/
def writePending (archive : Archive Hash Window) (select : ClaimRow Hash → Bool)
    (write : ClaimRow Hash → ClaimRow Hash)
    (keeps : ∀ row, (write row).key = row.key) : Archive Hash Window :=
  { archive with
    claims := archive.claims.update
      (fun row => if row.state = .pending ∧ select row = true then write row else row)
      fun row => ClaimRow.key_ite (keeps row) }

def pendingCount (archive : Archive Hash Window) (select : ClaimRow Hash → Bool) : ℕ :=
  archive.claims.rows.countP fun row => decide (row.state = .pending) && select row

/-- Settle every pending claim of an operation. -/
def settlePending (archive : Archive Hash Window) (operation : OperationId) (output : Hash)
    (terminal : String) : Archive Hash Window :=
  archive.writePending (fun row => decide (row.operation = operation))
    (fun row => { row with state := .settled, output := some output, terminal := some terminal })
    fun _ => rfl

end Archive

section

variable (hash : Value → Hash) (fromStr : String → Except String Document)

/-- Settle the pending claims with an outcome that does not contradict a settled one. -/
def settle (operation : OperationId) (output : Hash) (terminal : TerminalOutcome toText)
    (format : OutputFormat) :
    Tx (Archive Hash Window) StoreError (Option (Settlement Hash toText) × ℕ) := do
  let archive ← get
  let previous ← answer (archive.exactTerminal fromStr operation)
  answer (require (previous.all (· = (output, terminal, format)))
    (.conflictingReplayOutcome operation))
  set (archive.settlePending operation output (encodeTerminal terminal format))
  return (previous, archive.pendingCount fun row => decide (row.operation = operation))

def settleClaimsWithFormat (operation : OperationId) (output : Value)
    (terminal : TerminalOutcome toText) (format : OutputFormat) :
    Tx (Archive Hash Window) StoreError ℕ := do
  let stated ← answer (outputFormat output)
  answer (require (stated = format) (.conflictingReplayOutcome operation))
  let call ← observe fun archive =>
    archive.invocationItem fromStr operation.request operation.call
  let call ← answer (okOr call (.missingCheckpointCall operation.request operation.call))
  answer (validateReplayOutput operation.call call.input.kind output)
  let itemHash ← putItem hash output
  let settled ← settle fromStr operation itemHash terminal format
  return settled.2

def writeJobOutputWithFormat (operation : OperationId) (kind : ToolKind)
    (output : JobOutput (ToolFailure toText)) (format : OutputFormat) :
    Tx (Archive Hash Window) StoreError ℕ :=
  settleClaimsWithFormat hash fromStr operation
    (toolOutputWithFormat operation.call kind output format) (.ofOutput output) format

end

end ExomonadHarness.Store
