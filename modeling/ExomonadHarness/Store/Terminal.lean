import ExomonadHarness.Provider.Failure
import ExomonadHarness.Store.Types

/-! The terminal outcome of an operation and the text it is retained as. -/

namespace ExomonadHarness.Store

open Json Checked
open Provider (ToolFailure)
open Scheduler (JobOutput)

inductive OutputFormat where
  | legacyOpaque | nativeReceiptV1
  deriving DecidableEq

def OutputFormat.toValue : OutputFormat → Value
  | legacyOpaque => .string "legacy_opaque"
  | nativeReceiptV1 => .string "native_receipt_v1"

def OutputFormat.fromValue : Value → Option OutputFormat
  | .string "legacy_opaque" => some legacyOpaque
  | .string "native_receipt_v1" => some nativeReceiptV1
  | _ => none

/-- The default format is left out wherever a format is written. -/
def OutputFormat.written : OutputFormat → Option Value
  | legacyOpaque => none
  | nativeReceiptV1 => some nativeReceiptV1.toValue

/-- A format that is left out is the default one. -/
def OutputFormat.read : Option Value → Except StoreError OutputFormat
  | none => .ok legacyOpaque
  | some value => okOr (fromValue value) .storage

@[simp] theorem OutputFormat.read_written (format : OutputFormat) :
    read format.written = .ok format := by
  cases format <;> rfl

variable {toText : Value → String}

inductive TerminalOutcome (toText : Value → String) where
  | notStarted
  | success
  | failure (failure : ToolFailure toText)
  | cancelled
  | cancelledWithReceipt (receipt : Except (ToolFailure toText) Value)
  | cancelledWithValueReceipt
  | interrupted
  | cancellationUnconfirmed (detail : ToolFailure toText)
  deriving DecidableEq

namespace TerminalOutcome

/-- Receipts stay with the canonical output item. -/
def ofOutput : JobOutput (ToolFailure toText) → TerminalOutcome toText
  | .completed (.ok _) => success
  | .completed (.error failed) => failure failed.withoutResultReceipt
  | .cancelled => cancelled
  | .cancelledWithReceipt (.ok _) => cancelledWithValueReceipt
  | .cancelledWithReceipt (.error failed) => cancelledWithReceipt (.error failed.withoutResultReceipt)
  | .interrupted => interrupted
  | .cancellationUnconfirmed detail => cancellationUnconfirmed detail.withoutResultReceipt

def state : TerminalOutcome toText → String
  | notStarted => "not_started"
  | success => "success"
  | failure _ => "failure"
  | cancelled => "cancelled"
  | cancelledWithReceipt _ => "cancelled_with_receipt"
  | cancelledWithValueReceipt => "cancelled_with_value_receipt"
  | interrupted => "interrupted"
  | cancellationUnconfirmed _ => "cancellation_unconfirmed"

def receiptToValue : Except (ToolFailure toText) Value → Value
  | .ok value => .object [("Ok", value)]
  | .error failed => .object [("Err", failed.toValue)]

def receiptFromValue : Value → Option (Except (ToolFailure toText) Value)
  | .object [("Ok", value)] => some (.ok value)
  | .object [("Err", failed)] => (ToolFailure.fromValue failed).map .error
  | _ => none

def detail : TerminalOutcome toText → Option Value
  | failure failed | cancellationUnconfirmed failed => some failed.toValue
  | cancelledWithReceipt receipt => some (receiptToValue receipt)
  | _ => none

def entries (terminal : TerminalOutcome toText) : Map :=
  OrderedMap.insertSome "detail" terminal.detail [("state", .string terminal.state)]

/-- A variant without content takes none, or `null`. -/
def bare (detail : Option Value) (terminal : TerminalOutcome toText) :
    Option (TerminalOutcome toText) :=
  match detail with
  | none | some .null => some terminal
  | some _ => none

def ofState (state : String) (detail : Option Value) : Option (TerminalOutcome toText) :=
  match state with
  | "not_started" => bare detail notStarted
  | "success" => bare detail success
  | "failure" => (detail.bind ToolFailure.fromValue).map failure
  | "cancelled" => bare detail cancelled
  | "cancelled_with_receipt" => (detail.bind receiptFromValue).map cancelledWithReceipt
  | "cancelled_with_value_receipt" => bare detail cancelledWithValueReceipt
  | "interrupted" => bare detail interrupted
  | "cancellation_unconfirmed" => (detail.bind ToolFailure.fromValue).map cancellationUnconfirmed
  | _ => none

def fromValue (value : Value) : Option (TerminalOutcome toText) := do
  let entries ← value.asObject
  let state ← (entries.lookup "state").bind Value.asStr
  ofState state (entries.lookup "detail")

/-- The outcome as its encoding is read back. -/
def reread (back : F64 → F64) : TerminalOutcome toText → TerminalOutcome toText
  | failure failed => failure (failed.reread back)
  | cancelledWithReceipt (.error failed) => cancelledWithReceipt (.error (failed.reread back))
  | cancelledWithReceipt (.ok value) => cancelledWithReceipt (.ok (value.reread back))
  | cancellationUnconfirmed failed => cancellationUnconfirmed (failed.reread back)
  | other => other

theorem ofState_detail (back : F64 → F64) (terminal : TerminalOutcome toText) :
    ofState terminal.state (terminal.detail.map (·.reread back)) = some (terminal.reread back) := by
  cases terminal with
  | failure failed => simp [state, detail, ofState, reread, ToolFailure.fromValue_toValue]
  | cancellationUnconfirmed failed =>
    simp [state, detail, ofState, reread, ToolFailure.fromValue_toValue]
  | cancelledWithReceipt receipt =>
    cases receipt with
    | ok value => rfl
    | error failed =>
      simp [state, detail, ofState, reread, receiptToValue, receiptFromValue, Value.reread,
        Value.rereadEntries, ToolFailure.fromValue_toValue]
  | _ => rfl

end TerminalOutcome

/-- The document whose text is retained for an outcome. -/
def terminalDocument (terminal : TerminalOutcome toText) (format : OutputFormat) : Value :=
  .object (OrderedMap.insertSome "output_format" format.written terminal.entries)

def encodeTerminal (terminal : TerminalOutcome toText) (format : OutputFormat) : String :=
  toText (terminalDocument terminal format)

def decodeTerminal (fromStr : String → Except String Document) (raw : String) :
    Except StoreError (TerminalOutcome toText × OutputFormat) := do
  let document ← (fromStr raw).mapError fun _ => StoreError.storage
  let format ← OutputFormat.read (document.value.get? "output_format")
  let terminal ← okOr (TerminalOutcome.fromValue document.value) .storage
  return (terminal, format)

/-- Every outcome is read back, with its format, as the document says. -/
theorem decodeTerminal_encodeTerminal {fromStr : String → Except String Document}
    {terminal : TerminalOutcome toText} {format : OutputFormat} {document : Document}
    {back : F64 → F64} (parsed : fromStr (encodeTerminal terminal format) = .ok document)
    (same : document.value = (terminalDocument terminal format).reread back) :
    decodeTerminal fromStr (encodeTerminal terminal format) =
      .ok (terminal.reread back, format) := by
  have only (key : String) (other : key ≠ "state") :
      List.lookup key [("state", Value.string terminal.state)] = none :=
    OrderedMap.lookup_cons_of_ne other _ _
  have state : terminal.entries.lookup "state" = some (.string terminal.state) := by
    simp [TerminalOutcome.entries]
  have detail : terminal.entries.lookup "detail" = terminal.detail := by
    simp [TerminalOutcome.entries, only]
  have plain : terminal.entries.lookup "output_format" = none := by
    simp [TerminalOutcome.entries, only]
  have read : TerminalOutcome.fromValue ((terminalDocument terminal format).reread back) =
      some (terminal.reread back) := by
    simp only [TerminalOutcome.fromValue, terminalDocument, Value.reread, Value.asObject,
      Option.bind_eq_bind, Option.bind_some, Value.lookup_rereadEntries,
      OrderedMap.lookup_insertSome, String.reduceEq, if_false, state, detail, Option.map_some,
      Value.asStr]
    exact terminal.ofState_detail back
  have written : ((terminalDocument terminal format).reread back).get? "output_format" =
      format.written := by
    simp only [terminalDocument, Value.reread, Value.get?_object, Value.lookup_rereadEntries,
      OrderedMap.lookup_insertSome, if_true, plain]
    cases format <;> rfl
  simp [decodeTerminal, parsed, same, read, written, Except.mapError]

/-- The failure an output ends with, if any. -/
def outputFailure : JobOutput (ToolFailure toText) → Option (ToolFailure toText)
  | .completed (.error failed) | .cancelledWithReceipt (.error failed)
  | .cancellationUnconfirmed failed => some failed
  | _ => none

/-- The metadata of an output's failure is not `null`, and its doubles are read back as
themselves. -/
def Restored (back : F64 → F64) (output : JobOutput (ToolFailure toText)) : Prop :=
  ∀ failed ∈ outputFailure output, ∀ metadata ∈ failed.metadata,
    metadata ≠ .null ∧ metadata.reread back = metadata

/-- Exactly then the outcome is read back as it was. -/
theorem TerminalOutcome.reread_ofOutput {back : F64 → F64}
    (output : JobOutput (ToolFailure toText)) :
    (ofOutput output).reread back = ofOutput output ↔ Restored back output := by
  have kept (failed : ToolFailure toText) :
      failed.withoutResultReceipt.reread back = failed.withoutResultReceipt ↔
        ∀ metadata ∈ failed.metadata, metadata ≠ .null ∧ metadata.reread back = metadata := by
    rw [ToolFailure.reread_eq, ToolFailure.present_eq]
    exact and_iff_left rfl
  cases output with
  | completed result =>
    cases result with
    | ok value => simp [ofOutput, reread, Restored, outputFailure]
    | error failed => simp [ofOutput, reread, Restored, outputFailure, kept]
  | cancelled => simp [ofOutput, reread, Restored, outputFailure]
  | cancelledWithReceipt receipt =>
    cases receipt with
    | ok value => simp [ofOutput, reread, Restored, outputFailure]
    | error failed => simp [ofOutput, reread, Restored, outputFailure, kept]
  | interrupted => simp [ofOutput, reread, Restored, outputFailure]
  | cancellationUnconfirmed failed => simp [ofOutput, reread, Restored, outputFailure, kept]

end ExomonadHarness.Store
