import ExomonadHarness.Browser.Commands

/-! The retained ledger in the browser's session storage: what `readCommandLedger` takes
over and what it quarantines, and what `writePendingCommands` stores. -/

namespace ExomonadHarness.Browser

open Store

/-- One stored value. An entry has the shape of a record; the authority a stored record
states is read apart from it, since a legacy one states none. -/
inductive Row (Text : Type) where
  | entry (authority : Option Authority) (record : BrowserCommandRecord)
  | other (raw : Text)

inductive StorageSource where
  | v1 | v2
  deriving DecidableEq

structure QuarantinedStorage (Text : Type) where
  source : StorageSource
  raw : Text
  reason : String
  deriving DecidableEq

/-- The ledger under the current key. -/
structure Document (Text : Type) where
  legacyImported : Bool
  records : List (Row Text)
  quarantine : List (QuarantinedStorage Text ⊕ Text)

/-- Never remove or overwrite v1: recovery can inspect its exact original bytes. -/
def ledgerDocument {Text : Type} (retained : List BrowserCommandRecord)
    (quarantine : List (QuarantinedStorage Text)) : Document Text where
  legacyImported := true
  records := retained.map fun record => .entry (some record.authority) record
  quarantine := quarantine.map .inl

/-- `JSON.parse` and `JSON.stringify` on the two stored forms: what the ledger writes is read
back as it was. -/
structure LedgerCodec (Text : Type) where
  parse : Text → Option (Document Text)
  parseLegacy : Text → Option (List (Row Text))
  stringify : Document Text → Text
  rowText : Row Text → Text
  parse_stringify : ∀ retained quarantine, parse (stringify (ledgerDocument retained quarantine)) =
    some (ledgerDocument retained quarantine)

/-- What `sessionStorage.getItem` gives for a key. -/
inductive Slot (Text : Type) where
  | unreadable | absent | text (raw : Text)

structure SessionStorage (Text : Type) where
  v2 : Slot Text
  v1 : Slot Text

structure CommandLedger (Text : Type) where
  records : List BrowserCommandRecord
  available : Bool
  quarantine : List (QuarantinedStorage Text)

/-- The receipt names another envelope than the record. -/
def envelopeDiffers (envelopeId : Option ℕ) (receipt : CommandReceipt) : Bool :=
  match receipt.outcome with
  | .accepted _ _ envelope _ => differ envelopeId (some envelope)
  | _ => false

/-- What the reader asks of a record that states host evidence. -/
def evidenceHolds (record : BrowserCommandRecord) : Bool :=
  stateFits record.submission.command record.state &&
    (record.authority ≠ .receipt || record.receipt.any fun held => (receiptTarget held).isSome) &&
    record.receipt.all fun held =>
      receiptMatches record.submission held && receiptState held = record.state &&
        !envelopeDiffers record.envelopeId held

/-- The record as the host would report it. -/
def asStatus (record : BrowserCommandRecord) : EmbeddedCommandRecord where
  operationId := canonicalOperationId record.submission.operationId
  command := record.submission.command
  state := record.state
  envelopeId := record.envelopeId
  receipt := record.receipt
  inputObservation := record.inputObservation

def addressed (record : BrowserCommandRecord) : Bool :=
  isOperationId record.submission.operationId && isHostCommand record.submission.command &&
    record.submission.command.target.run = record.hostRun

section

variable {Text : Type}

def decodeRecord (legacy : Bool) : Row Text → Option BrowserCommandRecord
  | .other _ => none
  | .entry authority record =>
    if !addressed record then none
    else if !legacy && authority.isNone then none
    else if !record.receipt.all isCommandReceipt then none
    else if record.inputObservation.isSome &&
        !(authority.any Authority.authoritative && isEmbeddedCommandRecord (asStatus record)) then
      none
    else
      let decoded := { record with authority := if legacy then .legacy else authority.getD .legacy }
      if decoded.authority.authoritative && !evidenceHolds decoded then none else some decoded

abbrev Reading (Text : Type) := List BrowserCommandRecord × List (QuarantinedStorage Text)

variable (codec : LedgerCodec Text)

def readRow (source : StorageSource) (state : Reading Text) (row : Row Text) : Reading Text :=
  match decodeRecord (source = .v1) row with
  | none => (state.1, state.2 ++ [⟨source, codec.rowText row, "Invalid retained operation."⟩])
  | some record =>
    match state.1.find? (operationKey · = operationKey record) with
    | none => (state.1 ++ [record], state.2)
    | some existing =>
      if sameHostCommand existing.submission.command record.submission.command then state
      else (state.1.map fun item => if operationKey item = operationKey record then
          issue item "A stored operation ID has contradictory original contents." else item,
        state.2 ++ [⟨source, codec.rowText row, "Conflicting retained operation."⟩])

def readQuarantine : QuarantinedStorage Text ⊕ Text → QuarantinedStorage Text
  | .inl entry => entry
  | .inr raw => ⟨.v2, raw, "Invalid quarantine entry."⟩

def undecodable (source : StorageSource) (raw : Text) : QuarantinedStorage Text :=
  ⟨source, raw, "The original ledger could not be decoded."⟩

/-- The records under the current key, and whether the legacy ones are already among them. -/
def readCurrent : Slot Text → Reading Text × Bool
  | .unreadable | .absent => (([], []), false)
  | .text raw =>
    match codec.parse raw with
    | none => (([], [undecodable .v2 raw]), false)
    | some document =>
      (document.records.foldl (readRow codec .v2) ([], document.quarantine.map readQuarantine),
        document.legacyImported)

def readLegacy (current : Reading Text × Bool) : Slot Text → Reading Text
  | .unreadable | .absent => current.1
  | .text raw =>
    if current.2 then current.1
    else match codec.parseLegacy raw with
      | none => (current.1.1, current.1.2 ++ [undecodable .v1 raw])
      | some rows => rows.foldl (readRow codec .v1) current.1

def Slot.readable : Slot Text → Bool
  | .unreadable => false
  | .absent | .text _ => true

def readCommandLedger (storage : SessionStorage Text) : CommandLedger Text :=
  let read := readLegacy codec (readCurrent codec storage.v2) storage.v1
  ⟨read.1, storage.v2.readable && storage.v1.readable, read.2⟩

end

def keptSettled : ℕ := 128

/-- The keys of the settled records but the newest ones. -/
def discarded (records : List BrowserCommandRecord) : List OperationKey :=
  let settled := records.filter isSettledCommand
  (settled.take (settled.length - keptSettled)).map operationKey

def compact (records : List BrowserCommandRecord) : List BrowserCommandRecord :=
  records.filter (operationKey · ∉ discarded records)

/-- The records read before that are not among the given ones, and then those. -/
def joined (prior records : List BrowserCommandRecord) : List BrowserCommandRecord :=
  prior.filter (operationKey · ∉ records.map operationKey) ++ records

section

variable {Text : Type} [DecidableEq Text] (codec : LedgerCodec Text)

def writePendingCommands (storage : SessionStorage Text) (records : List BrowserCommandRecord) :
    Except String (List BrowserCommandRecord × SessionStorage Text) :=
  let prior := readCommandLedger codec storage
  if !prior.available then
    .error "Retained operations could not be read; their existing data was preserved."
  else
    let retained := compact (joined prior.records records)
    let document := ledgerDocument retained prior.quarantine.eraseDups
    .ok (retained, { storage with v2 := .text (codec.stringify document) })

end

def retainCommand (records : List BrowserCommandRecord) (hostRun : String)
    (submission : HostCommandSubmission) : Except String (List BrowserCommandRecord) :=
  if !isOperationId submission.operationId || !isHostCommand submission.command ||
      submission.command.target.run ≠ hostRun then
    .error "The operation must address the current exact host run with valid identities."
  else match records.find? fun record => sameOperation record hostRun submission.operationId with
    | some existing =>
      if sameHostCommand existing.submission.command submission.command then .ok records
      else .error "The operation ID is already retained with different contents."
    | none => .ok (compact (records ++
        [{ hostRun, submission, authority := .locally, state := .queued }]))

/-! Runs. -/

inductive LedgerOperation where
  | retain (hostRun : String) (submission : HostCommandSubmission)
  | status (hostRun : String) (seen : EmbeddedCommandRecord)
  | receipt (seen : CommandReceipt)
  | observe (hostRun operationId : String) (seen : Observation)

namespace LedgerOperation

def run (records : List BrowserCommandRecord) :
    LedgerOperation → Except String (List BrowserCommandRecord)
  | retain hostRun submission => retainCommand records hostRun submission
  | status hostRun seen => applyCommandStatus records hostRun seen
  | receipt seen => .ok (applyCommandReceipt records seen)
  | observe hostRun operationId seen => .ok (observeCommand records hostRun operationId seen)

/-- A call that throws leaves its caller with the records it had. -/
def perform (records : List BrowserCommandRecord) (operation : LedgerOperation) :
    List BrowserCommandRecord :=
  match operation.run records with
  | .ok next => next
  | .error _ => records

/-- A status and a receipt pass the checks of the frames they arrive in. -/
def WellFormed : LedgerOperation → Prop
  | status _ seen => isEmbeddedCommandRecord seen = true
  | receipt seen => isCommandReceipt seen = true
  | retain .. | observe .. => True

end LedgerOperation

end ExomonadHarness.Browser
