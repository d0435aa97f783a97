import ExomonadHarness.Store.Database

/-! The retained commands of `pending-commands.ts` and how evidence from the host is
merged into them. A field that is absent on the wire and one that is null are the same
here, and an envelope id is the number its decimal text writes. -/

namespace ExomonadHarness.Browser

open Store

/-! The identities of `protocol.ts`. -/

def isHexDigit (c : Char) : Bool :=
  c.isDigit || ('a' ≤ c && c ≤ 'f') || ('A' ≤ c && c ≤ 'F')

/-- Digits in the five groups of a UUID. -/
def grouped (digits : List Char) : List Char :=
  List.intercalate ['-'] [digits.take 8, (digits.drop 8).take 4, (digits.drop 12).take 4,
    (digits.drop 16).take 4, digits.drop 20]

def hyphenated (text : List Char) : Bool :=
  let digits := text.filter (· ≠ '-')
  digits.length = 32 && digits.all isHexDigit && text = grouped digits

/-- The spellings `browser_uuid_schema` takes. -/
def isOperationId (value : String) : Bool :=
  let text := value.toList
  (text.length = 32 && text.all isHexDigit) || hyphenated text ||
    (text.head? = some '\x7b' && text.getLast? = some '\x7d' && hyphenated (text.drop 1).dropLast) ||
    ("urn:uuid:".toList.isPrefixOf text && hyphenated (text.drop 9))

/-- Only operation and round UUIDs have case-insensitive identity. -/
def canonicalOperationId (value : String) : String :=
  let lower := value.toList.map Char.toLower
  let body :=
    if "urn:uuid:".toList.isPrefixOf lower then lower.drop 9
    else if lower.head? = some '\x7b' then (lower.drop 1).dropLast
    else lower
  String.ofList (grouped (body.filter (· ≠ '-')))

def isHostIdentity (identity : HostIdentity) : Bool :=
  identity.run ≠ "" && identity.actor ≠ "" && identity.incarnation ≠ ""

def withinHttpDiagnosticBounds (diagnostic : Option Transport.HttpDiagnostic) : Bool :=
  diagnostic.all fun found =>
    found.code.all (·.length ≤ 256) && found.errorType.all (·.length ≤ 256) &&
      found.param.all (·.length ≤ 256) && found.message.all (·.length ≤ 2048)

def withinBlockDiagnosticBounds (block : InferenceBlock) : Bool :=
  match block.reason with
  | .providerStreamFailure _ diagnostic => withinHttpDiagnosticBounds diagnostic
  | .requestRejected (.http _ diagnostic) => withinHttpDiagnosticBounds diagnostic
  | _ => true

def isInferenceBlock (block : InferenceBlock) : Bool :=
  block.request ≠ "" && withinBlockDiagnosticBounds block

def isHostCommand (command : HostCommand) : Bool :=
  isHostIdentity command.target && match command with
    | .interrupt _ round => isOperationId round
    | .recover _ block _ => isInferenceBlock block
    | _ => true

/-- Each field is compared, so two blocks are the same exactly when they are equal. -/
def sameInferenceBlock (left right : InferenceBlock) : Bool :=
  left = right

def sameHostCommand (left right : HostCommand) : Bool :=
  left.target = right.target && match left, right with
    | .selectAccount _ account, .selectAccount _ other => account = other
    | .input _ text, .input _ other => text = other
    | .interrupt _ round, .interrupt _ other =>
      canonicalOperationId round = canonicalOperationId other
    | .recover _ block mode, .recover _ other otherMode =>
      mode = otherMode && sameInferenceBlock block other
    | .retire _, .retire _ => true
    | _, _ => false

def receiptTarget (receipt : CommandReceipt) : Option HostIdentity :=
  match receipt.outcome with
  | .accountSelected target _ | .recoveryAuthorized target _ _ _ | .continuationRefused target _ _
  | .controlRequested target _ | .unconfirmed target _ => some target
  | .accepted _ target _ _ | .refused target _ => target

def isContinuation : InputContinuation → Bool
  | .queued => true
  | .granted block | .refused block _ => isInferenceBlock block

def isCommandReceipt (receipt : CommandReceipt) : Bool :=
  receipt.commandId ≠ "" && (receiptTarget receipt).all isHostIdentity &&
    match receipt.outcome with
    | .recoveryAuthorized _ block _ _ | .continuationRefused _ block _ => isInferenceBlock block
    | .accepted continuation _ _ _ => continuation.all isContinuation
    | _ => true

/-! The records. -/

/-- Local queued and legacy hints are never authoritative host state. -/
inductive Authority where
  | locally | legacy | status | receipt
  deriving DecidableEq

def Authority.authoritative (authority : Authority) : Bool :=
  authority = status || authority = receipt

inductive InputObservation where
  | awaiting | included (request : RequestId)
  deriving DecidableEq

inductive Send where
  | sent | notSent | unknown
  deriving DecidableEq

inductive LookupKind where
  | unavailable | error
  deriving DecidableEq

structure HostCommandRefusal where
  operationId : String
  code : String
  reason : String
  deriving DecidableEq

/-- What the browser itself saw of an operation. -/
structure Observation where
  accepted : Option Bool := none
  send : Option Send := none
  lookup : Option (LookupKind × String) := none
  localRefusal : Option HostCommandRefusal := none
  deriving DecidableEq

structure HostCommandSubmission where
  operationId : String
  command : HostCommand
  deriving DecidableEq

structure BrowserCommandRecord where
  hostRun : String
  submission : HostCommandSubmission
  authority : Authority
  state : EmbeddedCommandState
  receipt : Option CommandReceipt := none
  envelopeId : Option ℕ := none
  inputObservation : Option InputObservation := none
  observed : Observation := {}
  issues : List String := []
  deriving DecidableEq

/-- The status the host reports of an operation. -/
structure EmbeddedCommandRecord where
  operationId : String
  command : HostCommand
  state : EmbeddedCommandState
  envelopeId : Option ℕ
  receipt : Option CommandReceipt
  inputObservation : Option InputObservation := none
  deriving DecidableEq

abbrev OperationKey := String × String

def operationKey (record : BrowserCommandRecord) : OperationKey :=
  (record.hostRun, canonicalOperationId record.submission.operationId)

def finalState (state : EmbeddedCommandState) : Bool :=
  match state with
  | .inputAdmitted | .controlRequested | .recoveryAuthorized | .accountSelected | .refused => true
  | .queued | .dispatching | .unconfirmed => false

def isSettledCommand (record : BrowserCommandRecord) : Bool :=
  record.authority.authoritative && finalState record.state

/-- Store unconfirmed is immutable evidence, but remains unresolved for retention. -/
def needsCommandLookup (record : BrowserCommandRecord) : Bool :=
  !record.authority.authoritative || record.state = .queued || record.state = .dispatching ||
    (record.state = .inputAdmitted && match record.inputObservation with
      | some (.included _) => false
      | _ => true)

def issue (record : BrowserCommandRecord) (message : String) : BrowserCommandRecord :=
  if message ∈ record.issues then record
  else { record with issues := record.issues ++ [message] }

/-! The merge. -/

/-- The actions an observed state can be of. -/
def stateFits (command : HostCommand) (state : EmbeddedCommandState) : Bool :=
  match state, command with
  | .inputAdmitted, .input .. | .controlRequested, .interrupt .. | .controlRequested, .retire ..
  | .accountSelected, .selectAccount .. | .recoveryAuthorized, .recover .. => true
  | .inputAdmitted, _ | .controlRequested, _ | .accountSelected, _ | .recoveryAuthorized, _ => false
  | _, _ => true

def receiptState (receipt : CommandReceipt) : EmbeddedCommandState :=
  match receipt.outcome with
  | .accountSelected .. => .accountSelected
  | .recoveryAuthorized .. => .recoveryAuthorized
  | .accepted .. => .inputAdmitted
  | .controlRequested .. => .controlRequested
  | .continuationRefused .. | .refused .. => .refused
  | .unconfirmed .. => .unconfirmed

/-- The receipt is of the operation's own action. -/
def outcomeFits (command : HostCommand) (outcome : CommandReceiptOutcome) : Bool :=
  match outcome, command with
  | .accountSelected _ account, .selectAccount _ expected => account = expected
  | .continuationRefused _ block _, .recover _ expected _ => sameInferenceBlock expected block
  | .recoveryAuthorized _ block mode _, .recover _ expected wanted =>
    wanted = mode && sameInferenceBlock expected block
  | .accepted .., .input .. => true
  | .controlRequested _ .interrupt, .interrupt .. | .controlRequested _ .retire, .retire .. => true
  | .refused .., _ | .unconfirmed .., _ => true
  | _, _ => false

def receiptMatches (submission : HostCommandSubmission) (receipt : CommandReceipt) : Bool :=
  isOperationId receipt.commandId &&
    canonicalOperationId receipt.commandId = canonicalOperationId submission.operationId &&
    (receiptTarget receipt).all (· = submission.command.target) &&
    outcomeFits submission.command receipt.outcome

/-- Two values that are both given and differ. -/
def differ {α : Type} [DecidableEq α] : Option α → Option α → Bool
  | some left, some right => left ≠ right
  | _, _ => false

@[simp] theorem differ_self {α : Type} [DecidableEq α] (value : Option α) :
    differ value value = false := by
  cases value <;> simp [differ]

@[simp] theorem differ_none_left {α : Type} [DecidableEq α] (value : Option α) :
    differ none value = false := rfl

@[simp] theorem differ_none_right {α : Type} [DecidableEq α] (value : Option α) :
    differ value none = false := by
  cases value <;> rfl

/-- What a receipt contradicts in the one the record holds. -/
def receiptConflict (settled : Bool) (held seen : CommandReceiptOutcome) : Option String :=
  match held, seen with
  | .accepted continuation _ envelope wake, .accepted continuation' _ envelope' wake' =>
    if envelope ≠ envelope' then some "Contradictory admitted envelope identity."
    else if differ wake wake' then some "Contradictory admitted wake observations."
    else if differ continuation continuation' then some "Contradictory continuation evidence."
    else none
  | .recoveryAuthorized _ _ _ projection, .recoveryAuthorized _ _ _ projection' =>
    if projection ≠ projection' then some "Contradictory recovery projection evidence." else none
  | .continuationRefused _ _ reason, .continuationRefused _ _ reason' =>
    if reason ≠ reason' then some "Contradictory handoff reasons." else none
  | .refused _ reason, .refused _ reason' | .unconfirmed _ reason, .unconfirmed _ reason' =>
    if reason ≠ reason' then some "Contradictory handoff reasons." else none
  | .accountSelected .., .accountSelected .. | .controlRequested .., .controlRequested .. => none
  | _, _ => if settled then some "Contradictory receipt outcome." else none

def combineReceipts (held seen : Option CommandReceipt) : Option CommandReceipt :=
  match held, seen with
  | held, none => held
  | some ⟨_, .accepted continuation target _ wake⟩,
      some ⟨id, .accepted continuation' target' envelope wake'⟩ =>
    some ⟨id, .accepted (continuation'.or continuation) (target'.or target) envelope
      (wake'.or wake)⟩
  | _, seen => seen

def stateName : EmbeddedCommandState → String
  | .queued => "queued"
  | .dispatching => "dispatching"
  | .inputAdmitted => "input_admitted"
  | .controlRequested => "control_requested"
  | .recoveryAuthorized => "recovery_authorized"
  | .accountSelected => "account_selected"
  | .refused => "refused"
  | .unconfirmed => "unconfirmed"

/-- What a status or a receipt says of an operation. -/
structure Evidence where
  state : EmbeddedCommandState
  receipt : Option CommandReceipt
  envelopeId : Option ℕ
  deriving DecidableEq

/-- Evidence older than what the host already reported. -/
def outdated (record : BrowserCommandRecord) (state : EmbeddedCommandState) : Bool :=
  record.authority.authoritative && match record.state, state with
    | .dispatching, .queued | .unconfirmed, .queued | .unconfirmed, .dispatching => true
    | _, _ => false

/-- The record `mergeEvidence` returns early, when it does not take the evidence over. -/
def mergeRefused (record : BrowserCommandRecord) (seen : Evidence) :
    Option BrowserCommandRecord :=
  if !stateFits record.submission.command seen.state then
    some (issue record "Observed handoff state contradicts this operation’s action.")
  else if outdated record seen.state then some record
  else if seen.receipt.any (!receiptMatches record.submission ·) then
    some (issue record "Observed receipt contradicts this operation’s target or action.")
  else if seen.receipt.any (receiptState · ≠ seen.state) then
    some (issue record "Observed status and receipt report contradictory handoff outcomes.")
  else if isSettledCommand record && !finalState seen.state then some record
  else if isSettledCommand record && record.state ≠ seen.state then
    some (issue record ("Contradictory handoff evidence: retained " ++ stateName record.state ++
      ", observed " ++ stateName seen.state ++ "."))
  else if differ record.envelopeId seen.envelopeId then
    some (issue record "Contradictory admitted envelope identity.")
  else match record.receipt, seen.receipt with
    | some held, some receipt =>
      (receiptConflict (isSettledCommand record) held.outcome receipt.outcome).map (issue record)
    | _, _ => none

def takeEvidence (record : BrowserCommandRecord) (authority : Authority) (seen : Evidence) :
    BrowserCommandRecord :=
  { record with
    state := seen.state
    authority
    receipt := combineReceipts record.receipt seen.receipt
    envelopeId := seen.envelopeId.or record.envelopeId
    observed := { record.observed with lookup := none } }

def mergeEvidence (record : BrowserCommandRecord) (authority : Authority) (seen : Evidence) :
    BrowserCommandRecord :=
  (mergeRefused record seen).getD (takeEvidence record authority seen)

def EmbeddedCommandRecord.evidence (status : EmbeddedCommandRecord) : Evidence :=
  ⟨status.state, status.receipt, status.envelopeId⟩

def receiptEvidence (receipt : CommandReceipt) : Evidence :=
  ⟨receiptState receipt, some receipt, none⟩

/-- The inclusion a status reports is kept from the first one that names a request. -/
def keepInclusion (merged : BrowserCommandRecord) (held : Option InputObservation)
    (seen : InputObservation) : BrowserCommandRecord :=
  match held, seen with
  | some (.included request), .included other =>
    if request ≠ other then issue merged "Contradictory input request inclusion identity."
    else merged
  | some (.included _), .awaiting => merged
  | _, _ => { merged with inputObservation := some seen }

def observeInput (record merged : BrowserCommandRecord) (status : EmbeddedCommandRecord) :
    BrowserCommandRecord :=
  match status.inputObservation with
  | none => merged
  | some observation =>
    if merged.state ≠ .inputAdmitted || status.state ≠ .inputAdmitted ||
        merged.envelopeId ≠ status.envelopeId then merged
    else keepInclusion merged record.inputObservation observation

def applyStatus (record : BrowserCommandRecord) (status : EmbeddedCommandRecord) :
    BrowserCommandRecord :=
  observeInput record (mergeEvidence record .status status.evidence) status

def sameOperation (record : BrowserCommandRecord) (hostRun operationId : String) : Bool :=
  record.hostRun = hostRun &&
    canonicalOperationId record.submission.operationId = canonicalOperationId operationId

def mismatchedStatus : String :=
  "The retained status does not match this operation’s exact target and contents."

def applyCommandStatus (records : List BrowserCommandRecord) (hostRun : String)
    (status : EmbeddedCommandRecord) : Except String (List BrowserCommandRecord) :=
  records.mapM fun record =>
    if !sameOperation record hostRun status.operationId then .ok record
    else if !sameHostCommand record.submission.command status.command then .error mismatchedStatus
    else .ok (applyStatus record status)

/-- A missing target is ambiguous across runs and must be checked through GET. -/
def applyCommandReceipt (records : List BrowserCommandRecord) (receipt : CommandReceipt) :
    List BrowserCommandRecord :=
  if (receiptTarget receipt).isNone || !isOperationId receipt.commandId then records
  else records.map fun record =>
    if receiptMatches record.submission receipt then
      mergeEvidence record .receipt (receiptEvidence receipt)
    else record

def observeCommand (records : List BrowserCommandRecord) (hostRun operationId : String)
    (seen : Observation) : List BrowserCommandRecord :=
  records.map fun record =>
    if sameOperation record hostRun operationId then
      { record with observed := {
          accepted := seen.accepted.or record.observed.accepted
          send := seen.send.or record.observed.send
          lookup := seen.lookup.or record.observed.lookup
          localRefusal := seen.localRefusal.or record.observed.localRefusal } }
    else record

/-- Whether the retained records and the host's own command give a well-formed status. -/
def isEmbeddedCommandRecord (status : EmbeddedCommandRecord) : Bool :=
  isOperationId status.operationId && isHostCommand status.command &&
    status.receipt.all isCommandReceipt && stateFits status.command status.state &&
    (match status.inputObservation with
      | none => true
      | some observation => status.state = .inputAdmitted && status.envelopeId.isSome &&
        observation ≠ .included "") &&
    status.receipt.all fun receipt =>
      receiptMatches ⟨status.operationId, status.command⟩ receipt &&
        receiptState receipt = status.state && match receipt.outcome with
          | .accepted _ _ envelope _ => !differ status.envelopeId (some envelope)
          | _ => true

end ExomonadHarness.Browser
