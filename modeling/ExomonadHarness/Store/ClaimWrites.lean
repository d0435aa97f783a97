import ExomonadHarness.Store.Claims

/-! What the settlement of an operation reads and writes, and that repeating it is safe. -/

namespace ExomonadHarness.Store

open Json Checked Transaction
open Item (ToolCall ToolKind toolCall)
open Provider (ToolFailure)
open Scheduler (JobOutput OperationId)

variable {Hash Window : Type} {toText : Value → String}

/-- The type of the items that hold the outputs of a kind of call. -/
def outputType : ToolKind → String
  | .function => "function_call_output"
  | .custom => "custom_tool_call_output"

section

variable {call : String} {kind : ToolKind} {output : JobOutput (ToolFailure toText)}
  {format : OutputFormat}

theorem toolOutput_eq (call : String) (kind : ToolKind) (output : JobOutput (ToolFailure toText)) :
    ∃ text, toolOutput call kind output =
      .object [("call_id", .string call), ("output", .string text),
        ("type", .string (outputType kind))] := by
  cases kind with
  | function => exact ⟨_, rfl⟩
  | custom => exact ⟨_, rfl⟩

theorem get?_toolOutputWithFormat {key : String} (other : key ≠ "output_format") :
    (toolOutputWithFormat call kind output format).get? key =
      (toolOutput call kind output).get? key := by
  obtain ⟨text, same⟩ := toolOutput_eq call kind output
  simp [toolOutputWithFormat, same, other]

@[simp] theorem index_type_toolOutputWithFormat :
    (toolOutputWithFormat call kind output format).index "type" = .string (outputType kind) := by
  obtain ⟨text, same⟩ := toolOutput_eq call kind output
  rw [Value.index, get?_toolOutputWithFormat (by decide), same]
  rfl

@[simp] theorem index_call_toolOutputWithFormat :
    (toolOutputWithFormat call kind output format).index "call_id" = .string call := by
  obtain ⟨text, same⟩ := toolOutput_eq call kind output
  rw [Value.index, get?_toolOutputWithFormat (by decide), same]
  rfl

theorem get?_format_toolOutputWithFormat :
    (toolOutputWithFormat call kind output format).get? "output_format" = format.written := by
  obtain ⟨text, same⟩ := toolOutput_eq call kind output
  have plain : List.lookup "output_format" [("call_id", Value.string call),
      ("output", Value.string text), ("type", Value.string (outputType kind))] = none := rfl
  simp [toolOutputWithFormat, same, plain]

@[simp] theorem outputFormat_toolOutputWithFormat :
    outputFormat (toolOutputWithFormat call kind output format) = .ok format := by
  rw [outputFormat, get?_format_toolOutputWithFormat, OutputFormat.read_written]

@[simp] theorem extractedFormat_toolOutputWithFormat :
    extractedFormat (toolOutputWithFormat call kind output format) = .ok format := by
  rw [extractedFormat, get?_format_toolOutputWithFormat]
  cases format <;> rfl

theorem validateReplayOutput_toolOutput {expected : ToolKind} {done : PUnit} :
    validateReplayOutput call expected (toolOutputWithFormat call kind output format) = .ok done ↔
      expected = kind := by
  cases expected with
  | function => cases kind <;> simp [validateReplayOutput, outputType]
  | custom => cases kind <;> simp [validateReplayOutput, outputType]

/-- An output is not taken for a call. -/
theorem isInvocation_toolOutput {other : String} :
    isInvocation other (toolOutputWithFormat call kind output format) = false := by
  cases kind <;> simp [isInvocation, outputType]

end

/-- The text of a document is read back as that document, with the doubles that it gives. -/
def Printed (toText : Value → String) (fromStr : String → Except String Document)
    (back : F64 → F64) (value : Value) : Prop :=
  ∃ document, fromStr (toText value) = .ok document ∧ document.value = value.reread back

section

variable {hash : Value → Hash} {fromStr : String → Except String Document} {back : F64 → F64}
  {archive next : Archive Hash Window} {operation : OperationId} {output : Hash}
  {terminal : TerminalOutcome toText} {format : OutputFormat}

theorem Printed.decode (printed : Printed toText fromStr back (terminalDocument terminal format)) :
    decodeTerminal fromStr (encodeTerminal terminal format) = .ok (terminal.reread back, format) := by
  obtain ⟨document, parsed, same⟩ := printed
  exact decodeTerminal_encodeTerminal parsed same

theorem Archive.mem_settledClaims {row : ClaimRow Hash} :
    row ∈ archive.settledClaims operation ↔
      row ∈ archive.claims.rows ∧ row.operation = operation ∧ row.state = .settled := by
  simp [settledClaims, List.mem_insertionSort]

theorem Archive.settledOutcome_eq_ok {row : ClaimRow Hash} {said : Settlement Hash toText} :
    archive.settledOutcome fromStr operation row = .ok said ↔
      row.output = some said.1 ∧ (∃ text, row.terminal = some text ∧
        decodeTerminal fromStr text = .ok said.2) ∧
      ∃ item, archive.items said.1 = some item ∧ extractedFormat item = .ok said.2.2 := by
  simp only [settledOutcome, bind_eq_ok, okOr_eq_ok, require_eq_ok, pure_eq_ok, decide_eq_true_eq]
  constructor
  · intro ran
    obtain ⟨_, written, text, kept, ⟨terminal, format⟩, decoded, item, stored, _, stated, _, same,
      rfl⟩ := ran
    subst same
    exact ⟨written, ⟨text, kept, decoded⟩, item, stored, stated⟩
  · intro ran
    obtain ⟨written, ⟨text, kept, decoded⟩, item, stored, stated⟩ := ran
    exact ⟨_, written, text, kept, _, decoded, item, stored, _, stated, ⟨⟩, rfl, rfl⟩

/-- A settled claim says the same as long as its item is retained. -/
theorem Archive.settledOutcome_keeps {later : Archive Hash Window} {row : ClaimRow Hash}
    {said : Settlement Hash toText}
    (kept : ∀ hash item, archive.items hash = some item → later.items hash = some item)
    (read : archive.settledOutcome fromStr operation row = .ok said) :
    later.settledOutcome fromStr operation row = .ok said := by
  obtain ⟨written, text, item, stored, stated⟩ := settledOutcome_eq_ok.mp read
  exact settledOutcome_eq_ok.mpr ⟨written, text, item, kept _ _ stored, stated⟩

theorem Archive.mem_settlePending {text : String} {row : ClaimRow Hash} :
    row ∈ (archive.settlePending operation output text).claims.rows ↔
      (row ∈ archive.claims.rows ∧ ¬ (row.state = .pending ∧ row.operation = operation)) ∨
        ∃ old ∈ archive.claims.rows, old.state = .pending ∧ old.operation = operation ∧
          row = { old with state := .settled, output := some output, terminal := some text } := by
  simp only [settlePending, writePending, Table.update, List.mem_map, decide_eq_true_eq]
  constructor
  · intro member
    obtain ⟨old, member, written⟩ := member
    split at written
    case isTrue chosen => exact .inr ⟨old, member, chosen.1, chosen.2, written.symm⟩
    case isFalse other => exact .inl (written ▸ ⟨member, other⟩)
  · intro member
    rcases member with ⟨member, other⟩ | ⟨old, member, waiting, mine, same⟩
    · exact ⟨row, member, if_neg other⟩
    · exact ⟨old, member, (if_pos ⟨waiting, mine⟩).trans same.symm⟩

/-- Settling twice writes nothing the second time. -/
theorem Archive.settlePending_settled {text : String}
    (closed : ∀ row ∈ archive.claims.rows, row.operation = operation → row.state ≠ .pending) :
    archive.settlePending operation output text = archive := by
  have same : (archive.settlePending operation output text).claims = archive.claims := by
    apply Table.ext
    refine (List.map_congr_left fun row member => if_neg ?_).trans (List.map_id _)
    intro chosen
    exact closed row member (of_decide_eq_true chosen.2) chosen.1
  calc archive.settlePending operation output text
      = { archive with claims := (archive.settlePending operation output text).claims } := rfl
    _ = archive := by rw [same]

/-- After a settlement no claim of the operation is pending. -/
theorem Archive.settlePending_closed {text : String} {row : ClaimRow Hash}
    (member : row ∈ (archive.settlePending operation output text).claims.rows)
    (mine : row.operation = operation) : row.state ≠ .pending := by
  intro waiting
  rcases mem_settlePending.mp member with ⟨_, other⟩ | ⟨_, _, _, _, rfl⟩
  · exact other ⟨waiting, mine⟩
  · cases waiting

variable [DecidableEq Hash]

theorem answers_settle {result : Option (Settlement Hash toText) × ℕ} :
    Answers (settle fromStr operation output terminal format) archive result next ↔
      archive.exactTerminal fromStr operation = .ok result.1 ∧
      (∀ previous ∈ result.1, previous = (output, terminal, format)) ∧
      result.2 = archive.pendingCount (fun row => decide (row.operation = operation)) ∧
      next = archive.settlePending operation output (encodeTerminal terminal format) := by
  simp only [settle, answers_bind, answers_get, answers_answer, answers_set, answers_pure,
    require_eq_ok]
  constructor
  · intro ran
    obtain ⟨_, _, ⟨rfl, rfl⟩, previous, _, ⟨read, rfl⟩, _, _, ⟨same, rfl⟩, _, _, rfl, rfl, rfl⟩ := ran
    refine ⟨read, ?_, rfl, rfl⟩
    intro kept found
    cases found
    simpa using same
  · intro ran
    obtain ⟨read, same, count, rfl⟩ := ran
    refine ⟨_, _, ⟨rfl, rfl⟩, _, _, ⟨read, rfl⟩, ⟨⟩, _, ⟨?_, rfl⟩, ⟨⟩, _, rfl, ?_, rfl⟩
    · cases found : result.1 with
      | none => rfl
      | some previous => simpa using same previous found
    · exact Prod.ext rfl count

/-- The output of an operation is written under the kind of its recorded call. -/
def Archive.Invoked (archive : Archive Hash Window) (fromStr : String → Except String Document)
    (operation : OperationId) (kind : ToolKind) : Prop :=
  ∃ call, archive.invocationItem fromStr operation.request operation.call = .ok (some call) ∧
    call.input.kind = kind

theorem answers_writeJobOutput {kind : ToolKind} {written : JobOutput (ToolFailure toText)}
    {count : ℕ} :
    Answers (writeJobOutputWithFormat hash fromStr operation kind written format) archive count
      next ↔
      archive.Invoked fromStr operation kind ∧
      ∃ previous,
        Answers (settle fromStr operation
            (hash (toolOutputWithFormat operation.call kind written format))
            (.ofOutput written) format)
          (archive.put (hash (toolOutputWithFormat operation.call kind written format))
            (toolOutputWithFormat operation.call kind written format))
          (previous, count) next := by
  simp only [writeJobOutputWithFormat, settleClaimsWithFormat, putItem, answers_bind,
    answers_answer, answers_observe, answers_modify, answers_pure, require_eq_ok, okOr_eq_ok,
    outputFormat_toolOutputWithFormat, validateReplayOutput_toolOutput, Archive.Invoked]
  constructor
  · intro ran
    obtain ⟨_, _, ⟨_, rfl⟩, _, _, ⟨_, rfl⟩, _, _, ⟨found, rfl⟩, call, _, ⟨rfl, rfl⟩, _, _,
      ⟨same, rfl⟩, _, _, ⟨_, _, rfl, rfl, rfl⟩, settled, _, ran, rfl, rfl⟩ := ran
    exact ⟨⟨call, found, same⟩, settled.1, ran⟩
  · intro ran
    obtain ⟨⟨call, found, same⟩, previous, ran⟩ := ran
    exact ⟨format, _, ⟨rfl, rfl⟩, ⟨⟩, _, ⟨by simp, rfl⟩, some call, _, ⟨found, rfl⟩, call, _,
      ⟨rfl, rfl⟩, ⟨⟩, _, ⟨same, rfl⟩, _, _, ⟨⟨⟩, _, rfl, rfl, rfl⟩, (previous, count), _, ran,
      rfl, rfl⟩

/-- Retaining an item that is no call leaves the calls as they are. -/
theorem Archive.invocations_put {item : Value} {request : RequestId} {call : String}
    (other : isInvocation call item = false) :
    (archive.put output item).invocations request call = archive.invocations request call := by
  simp only [invocations, occurrencesOf, List.filter_filterMap]
  refine List.filterMap_congr fun row _ => ?_
  rw [items_put]
  split
  case isFalse => rfl
  case isTrue same =>
    rw [same]
    cases archive.items output with
    | some kept => rfl
    | none => simp [RequestItem.occurrence, other, Option.filter]

theorem Archive.invoked_put {item : Value} {kind : ToolKind}
    (other : isInvocation operation.call item = false) :
    (archive.put output item).Invoked fromStr operation kind ↔
      archive.Invoked fromStr operation kind := by
  simp only [Invoked, invocationItem, invocations_put other]

/-- What an operation is settled with after one of its outputs is written: the claims that were
settled before say what was written, and those settled now say it as it is read back. -/
theorem Archive.settledOutcome_write {item : Value} {previous : Option (Settlement Hash toText)}
    {count : ℕ} (printed : Printed toText fromStr back (terminalDocument terminal format))
    (stored : archive.items output = some item) (stated : extractedFormat item = .ok format)
    (ran : Answers (settle fromStr operation output terminal format) archive (previous, count) next) :
    (count = 0 ∨ terminal.reread back = terminal → ∀ row ∈ next.settledClaims operation,
      next.settledOutcome fromStr operation row = .ok (output, terminal, format)) ∧
    (count ≠ 0 → ∃ row ∈ next.settledClaims operation,
      next.settledOutcome fromStr operation row = .ok (output, terminal.reread back, format)) := by
  obtain ⟨read, agrees, counted, rfl⟩ := answers_settle.mp ran
  dsimp only at counted
  have fresh (old : ClaimRow Hash) : (archive.settlePending operation output
      (encodeTerminal terminal format)).settledOutcome fromStr operation { old with
        state := .settled, output := some output, terminal := some (encodeTerminal terminal format) } =
      .ok (output, terminal.reread back, format) :=
    settledOutcome_eq_ok.mpr ⟨rfl, ⟨_, rfl, printed.decode⟩, item, stored, stated⟩
  refine ⟨?_, ?_⟩
  · intro steady row member
    obtain ⟨member, mine, settled⟩ := mem_settledClaims.mp member
    rcases mem_settlePending.mp member with ⟨old, _⟩ | ⟨old, inside, waiting, own, rfl⟩
    · have listed : row ∈ archive.settledClaims operation :=
        mem_settledClaims.mpr ⟨old, mine, settled⟩
      cases previous with
      | none =>
        rw [agreed_eq_none.mp read] at listed
        cases listed
      | some said =>
        have same := agrees said rfl
        subst same
        exact (agreed_eq_some.mp read).2 row listed
    · rcases steady with none | same
      · rw [none, eq_comm, pendingCount, List.countP_eq_zero] at counted
        exact absurd (by simp [waiting, own]) (counted old inside)
      · rw [fresh old, same]
  · intro some
    rw [ne_eq, counted, pendingCount, List.countP_eq_zero] at some
    simp only [not_forall, Bool.and_eq_true, decide_eq_true_eq, not_not] at some
    obtain ⟨old, inside, waiting, own⟩ := some
    exact ⟨_, mem_settledClaims.mpr ⟨mem_settlePending.mpr (.inr ⟨old, inside, waiting, own, rfl⟩),
      own, rfl⟩, fresh old⟩

end

section

variable [DecidableEq Hash] {hash : Value → Hash} {fromStr : String → Except String Document}
  {back : F64 → F64} {archive next : Archive Hash Window} {operation : OperationId}
  {kind : ToolKind} {output : JobOutput (ToolFailure toText)} {format : OutputFormat} {count : ℕ}

/-- The state after an output was written, where this settled `count` claims. -/
structure Archive.Written (hash : Value → Hash) (fromStr : String → Except String Document)
    (back : F64 → F64) (operation : OperationId) (kind : ToolKind)
    (output : JobOutput (ToolFailure toText)) (format : OutputFormat) (count : ℕ)
    (archive : Archive Hash Window) : Prop where
  invoked : archive.Invoked fromStr operation kind
  stored : archive.items (hash (toolOutputWithFormat operation.call kind output format)) =
    some (toolOutputWithFormat operation.call kind output format)
  closed : ∀ row ∈ archive.claims.rows, row.operation = operation → row.state ≠ .pending
  steady : count = 0 ∨ Restored back output → ∀ row ∈ archive.settledClaims operation,
    archive.settledOutcome fromStr operation row =
      .ok (hash (toolOutputWithFormat operation.call kind output format), .ofOutput output, format)
  reread : count ≠ 0 → ∃ row ∈ archive.settledClaims operation,
    archive.settledOutcome fromStr operation row =
      .ok (hash (toolOutputWithFormat operation.call kind output format),
        (TerminalOutcome.ofOutput output).reread back, format)

theorem Archive.written_of_answers (distinct : Function.Injective hash)
    (content : ∀ {itemHash item}, archive.items itemHash = some item → hash item = itemHash)
    (printed : Printed toText fromStr back (terminalDocument (.ofOutput output) format))
    (ran : Answers (writeJobOutputWithFormat hash fromStr operation kind output format) archive
      count next) : next.Written hash fromStr back operation kind output format count := by
  obtain ⟨invoked, previous, ran⟩ := answers_writeJobOutput.mp ran
  have stored : (archive.put (hash (toolOutputWithFormat operation.call kind output format))
      (toolOutputWithFormat operation.call kind output format)).items _ = some _ :=
    items_hash distinct content
  obtain ⟨_, _, _, moved⟩ := answers_settle.mp ran
  obtain ⟨steady, reread⟩ :=
    settledOutcome_write printed stored extractedFormat_toolOutputWithFormat ran
  rw [TerminalOutcome.reread_ofOutput] at steady
  refine ⟨?_, ?_, ?_, steady, reread⟩
  · rw [moved]
    exact (invoked_put isInvocation_toolOutput).mpr invoked
  · rw [moved]
    exact stored
  · rw [moved]
    exact fun row member mine => settlePending_closed member mine

namespace Archive.Written

variable (written : next.Written hash fromStr back operation kind output format count)

include written

/-- Writing the same output again is accepted when it settled nothing or the outcome reads as
it was written. -/
theorem again : (∃ again,
    commit (writeJobOutputWithFormat hash fromStr operation kind output format) next =
      (.ok again, next)) ↔ count = 0 ∨ Restored back output := by
  have unchanged (text : String) : next.settlePending operation
      (hash (toolOutputWithFormat operation.call kind output format)) text = next :=
    settlePending_settled written.closed
  simp only [commit_eq_ok, answers_writeJobOutput, put_of_stored written.stored, answers_settle,
    unchanged]
  constructor
  · intro ran
    obtain ⟨_, _, previous, read, agrees, _⟩ := ran
    by_cases none : count = 0
    · exact .inl none
    · obtain ⟨row, member, reads⟩ := written.reread none
      cases previous with
      | none =>
        rw [agreed_eq_none.mp read] at member
        cases member
      | some said =>
        have equal := reads.symm.trans ((agreed_eq_some.mp read).2 row member)
        rw [agrees said rfl, Except.ok.injEq, Prod.mk.injEq, Prod.mk.injEq] at equal
        exact .inr ((TerminalOutcome.reread_ofOutput output).mp equal.2.1)
  · intro steady
    by_cases empty : next.settledClaims operation = []
    · exact ⟨_, written.invoked, none, agreed_eq_none.mpr empty, by simp, rfl, trivial⟩
    · exact ⟨_, written.invoked, some _, agreed_eq_some.mpr ⟨empty, written.steady steady⟩,
        fun previous found => (Option.some.inj found).symm, rfl, trivial⟩

/-- A settled outcome that reads as it was written refuses every other one. -/
theorem refuses {other : ToolKind} {differs : JobOutput (ToolFailure toText)}
    {otherFormat : OutputFormat} (settled : next.settledClaims operation ≠ [])
    (steady : count = 0 ∨ Restored back output)
    (different : TerminalOutcome.ofOutput differs ≠ TerminalOutcome.ofOutput output ∨
      otherFormat ≠ format) :
    ∃ failure, commit (writeJobOutputWithFormat hash fromStr operation other differs otherFormat)
      next = (.error failure, next) := by
  apply commit_refused
  intro count later ran
  obtain ⟨_, previous, ran⟩ := answers_writeJobOutput.mp ran
  obtain ⟨read, agrees, _⟩ := answers_settle.mp ran
  have said : (next.put (hash (toolOutputWithFormat operation.call other differs otherFormat))
      (toolOutputWithFormat operation.call other differs otherFormat)).exactTerminal fromStr
        operation = .ok (some (hash (toolOutputWithFormat operation.call kind output format),
          TerminalOutcome.ofOutput output, format)) := by
    refine agreed_eq_some.mpr ⟨settled, fun row member => ?_⟩
    exact settledOutcome_keeps (fun _ _ found => items_put_of_some found)
      (written.steady steady row member)
  rw [said] at read
  cases read
  have equal := agrees _ rfl
  rw [Prod.mk.injEq, Prod.mk.injEq] at equal
  rcases different with outcome | stated
  · exact outcome equal.2.1.symm
  · exact stated equal.2.2.symm

end Archive.Written

/-- A terminal write that settled a claim may be repeated exactly when the failure it ends with
has no `null` metadata and none whose doubles are read back as others: only then is the outcome
read back as it was written. -/
theorem terminal_write_idempotent (distinct : Function.Injective hash)
    (content : ∀ {itemHash item}, archive.items itemHash = some item → hash item = itemHash)
    (printed : Printed toText fromStr back (terminalDocument (.ofOutput output) format)) :
    (decodeTerminal fromStr (encodeTerminal (.ofOutput output) format) =
        .ok (TerminalOutcome.ofOutput output, format) ↔ Restored back output) ∧
    ∀ operation kind count next,
      commit (writeJobOutputWithFormat hash fromStr operation kind output format) archive =
        (.ok count, next) →
      ((∃ again, commit (writeJobOutputWithFormat hash fromStr operation kind output format) next =
          (.ok again, next)) ↔ count = 0 ∨ Restored back output) ∧
      (next.settledClaims operation ≠ [] → count = 0 ∨ Restored back output →
        ∀ other (differs : JobOutput (ToolFailure toText)) otherFormat,
          TerminalOutcome.ofOutput differs ≠ TerminalOutcome.ofOutput output ∨
            otherFormat ≠ format →
          ∃ failure,
            commit (writeJobOutputWithFormat hash fromStr operation other differs otherFormat) next =
              (.error failure, next)) := by
  refine ⟨?_, ?_⟩
  · rw [printed.decode, Except.ok.injEq, Prod.mk.injEq, ← TerminalOutcome.reread_ofOutput]
    exact and_iff_left rfl
  · intro operation kind count next ran
    have written := Archive.written_of_answers distinct content printed (commit_eq_ok.mp ran)
    refine ⟨written.again, ?_⟩
    intro settled steady other differs otherFormat different
    exact written.refuses settled steady different

end

/-! One pending call of a request, with items as their own hashes. -/

def statusOperation : OperationId :=
  ⟨.standalone "store" "agent", "request", "call"⟩

def statusCall : Value :=
  .object [("arguments", .object []), ("call_id", .string "call"), ("name", .string "status"),
    ("type", .string "function_call")]

def statusArchive : Archive Value Unit where
  storeId := "store"
  bindings := .empty
  items itemHash := if itemHash = statusCall then some itemHash else none
  requests := .single ⟨"request", none, "agent", none, none, none⟩
  placed := .single { request := "request", position := 0, hash := statusCall }
  issued := .empty
  owned := .empty
  events := []
  envelopes := .empty
  claims := .single { operation := statusOperation, request := "request", state := .pending }
  compacted := fun _ => false

theorem statusArchive_content {itemHash item : Value}
    (found : statusArchive.items itemHash = some item) : id item = itemHash := by
  simp only [statusArchive] at found
  split at found
  case isTrue => exact (Option.some.inj found).symm
  case isFalse => cases found

/-- The documents that the two outputs below are retained as. -/
def successDocument : Value :=
  .object [("state", .string "success")]

def nullDocument : Value :=
  .object [("detail", .object [("message", .string "refused"), ("metadata", .null)]),
    ("state", .string "failure")]

def printText (value : Value) : String :=
  if value = successDocument then "\x7b\"state\":\"success\"\x7d"
  else if value = nullDocument then
    "\x7b\"detail\":\x7b\"message\":\"refused\",\"metadata\":null\x7d,\"state\":\"failure\"\x7d"
  else ""

theorem successDocument_formed : successDocument.wellFormed = true := by decide +kernel

theorem nullDocument_formed : nullDocument.wellFormed = true := by decide +kernel

def parseText (text : String) : Except String Document :=
  if text = printText successDocument then .ok ⟨successDocument, successDocument_formed⟩
  else if text = printText nullDocument then .ok ⟨nullDocument, nullDocument_formed⟩
  else .error "expected value"

theorem admitMetadata_null : Provider.admitMetadata printText .null = .ok () := by
  simp [Provider.admitMetadata, Provider.admitNodes, Provider.children, require,
    Provider.maxToolFailureMetadataDepth, Provider.maxToolFailureMetadataBytes, printText,
    successDocument, nullDocument, bind, Except.bind]

/-- `ToolFailure::with_metadata("refused", Value::Null)`. -/
def nullFailure : ToolFailure printText where
  message := "refused"
  providerContext := false
  metadata := some .null
  metadataOmitted := none
  resultReceipt := none
  admitted := by
    intro value kept
    cases kept
    exact ⟨admitMetadata_null, rfl⟩

def nullOutput : JobOutput (ToolFailure printText) :=
  .completed (.error (.withMetadata "refused" .null))

theorem nullOutput_eq : nullOutput = .completed (.error nullFailure) := by
  have admitted : ToolFailure.omission printText .null = none :=
    ToolFailure.omission_eq_none.mpr admitMetadata_null
  have same : ToolFailure.withMetadata "refused" .null = nullFailure :=
    ToolFailure.ext rfl rfl (if_pos admitted) admitted rfl
  rw [nullOutput, same]

def writeStatus (output : JobOutput (ToolFailure printText)) :
    Tx (Archive Value Unit) StoreError ℕ :=
  writeJobOutputWithFormat id parseText statusOperation .function output .legacyOpaque

/-- The first write of a failure with `null` metadata refuses the second. -/
theorem terminal_write_refused_again :
    (commit (writeStatus nullOutput) statusArchive).1 = .ok 1 ∧
    decodeTerminal parseText (encodeTerminal (.ofOutput nullOutput) .legacyOpaque) =
      .ok ((.failure (.fromMessage "refused") : TerminalOutcome printText), .legacyOpaque) ∧
    commit (writeStatus nullOutput) (commit (writeStatus nullOutput) statusArchive).2 =
      (.error (.conflictingReplayOutcome statusOperation),
        (commit (writeStatus nullOutput) statusArchive).2) := by
  rw [nullOutput_eq]
  exact ⟨by decide +kernel, by decide +kernel, commit_of_error (by decide +kernel)⟩

theorem terminal_write_idempotent_success :
    ∃ next, commit (writeStatus (.completed (.ok .null))) statusArchive = (.ok 1, next) ∧
      next.settledClaims statusOperation ≠ [] ∧
      ∃ again, commit (writeStatus (.completed (.ok .null))) next = (.ok again, next) := by
  have first : (commit (writeStatus (.completed (.ok .null))) statusArchive).1 = .ok 1 := by
    decide +kernel
  have printed : Printed printText parseText id (terminalDocument
      (.ofOutput (.completed (.ok .null)) : TerminalOutcome printText) .legacyOpaque) :=
    ⟨⟨successDocument, successDocument_formed⟩, if_pos (by decide +kernel), by decide +kernel⟩
  refine ⟨_, Prod.ext first rfl, by decide +kernel, ?_⟩
  refine ((terminal_write_idempotent Function.injective_id statusArchive_content printed).2 _ _ _ _
    (Prod.ext first rfl)).1.mpr (.inr ?_)
  intro failed impossible
  cases impossible

end ExomonadHarness.Store
