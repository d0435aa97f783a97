import ExomonadHarness.Store.Claims
import ExomonadHarness.Support.Ancestry
import ExomonadHarness.Support.Memo

/-! The migration of claims that named only a request and a call. A claim of a copied
request belongs to the operation of the request it was copied from. -/

namespace ExomonadHarness.Store

open Json Checked Transaction Memo
open Item (ToolKind)
open Scheduler (OperationId)

variable {Hash Window : Type}

/-- One row of `legacy_claims`. -/
structure LegacyClaim (Hash : Type) where
  request : RequestId
  call : String
  state : ClaimState
  output : Option Hash
  deriving DecidableEq

def LegacyClaim.key (claim : LegacyClaim Hash) : RequestId × String :=
  (claim.request, claim.call)

/-- One row of `checkpoints`; a request is the snapshot of one checkpoint at most. -/
structure LegacyCheckpoint where
  id : String
  source : RequestId
  snapshot : RequestId
  pendingClaims : String
  deriving DecidableEq

/-- A pending operation in the shape that checkpoints keep after the migration. -/
structure CheckpointClaim where
  operation : OperationId
  request : RequestId
  kind : ToolKind
  deriving DecidableEq

inductive ProvenanceReason where
  | stated (text : String)
  | invocation (failure : StoreError)

inductive MigrationError where
  | legacyProvenance (request call : String) (reason : ProvenanceReason)
  | store (failure : StoreError)
  | json (text : String)

def ambiguous (request call reason : String) : MigrationError :=
  .legacyProvenance request call (.stated reason)

/-- The tables that the migration reads and writes. `forkSource` is a column of `agents`;
the migrated claims go to the claims of the archive. -/
structure LegacyStore (Hash Window : Type) where
  archive : Archive Hash Window
  claims : Table (@LegacyClaim.key Hash)
  checkpoints : Table LegacyCheckpoint.snapshot
  forkSource : AgentPath → Option String

structure CopySource where
  request : RequestId
  requiresCallItem : Bool
  deriving DecidableEq

def parseDocument (fromStr : String → Except String Document) (text : String) :
    Except MigrationError Value :=
  (fromStr text).map Document.value |>.mapError .json

namespace LegacyStore

/-- The recorded parent of a request, if it has a row. -/
def parent (store : LegacyStore Hash Window) (request : RequestId) : Option (Option RequestId) :=
  (store.archive.requests.find? request).map RequestRow.parent

/-- The request and its ancestors. -/
def lineage (store : LegacyStore Hash Window) (request : RequestId) : List RequestId :=
  Ancestry.climb store.parent store.archive.requests.rows.length request

/-- The claims under a call on the request itself, or along its lineage. -/
def sourceClaims (store : LegacyStore Hash Window) (source : RequestId) (call : String)
    (lineage : Bool) : List RequestId :=
  if lineage then
    ((store.claims.rows.filter fun claim =>
      claim.call = call && claim.request ∈ store.lineage source).map
        LegacyClaim.request).insertionSort (· ≤ ·)
  else
    ((store.claims.find? (source, call)).map LegacyClaim.request).toList

section

variable (fromStr : String → Except String Document)

/-- The request a `here` fork copied, read from the agent of the branch. -/
def hereSource (store : LegacyStore Hash Window) (request : RequestId) (call : String) :
    Except MigrationError (Option CopySource) :=
  match (store.archive.requests.find? request).bind fun row => store.forkSource row.branch with
  | none => return none
  | some fork => do
    let metadata ← parseDocument fromStr fork
    if metadata.index "kind" = .string "here" ∧
        metadata.index "snapshot_request" = .string request then
      let source ← okOr (metadata.index "source_head_request").asStr
        (ambiguous request call "Here copy has no source head request")
      return some { request := source, requiresCallItem := true }
    else return none

/-- What a request was copied from. Snapshots of checkpoints and their first child requests
are copies, and the row of the checkpoint is the authority for the source. -/
def copySource (store : LegacyStore Hash Window) (request : RequestId) (call : String) :
    Except MigrationError (Option CopySource) :=
  match store.checkpoints.find? request with
  | some checkpoint => return some { request := checkpoint.source, requiresCallItem := true }
  | none =>
    match (store.parent request).join.filter fun parent =>
        (store.checkpoints.find? parent).isSome with
    | some parent => return some { request := parent, requiresCallItem := false }
    | none => store.hereSource fromStr request call

def invocationKind (store : LegacyStore Hash Window) (request : RequestId) (call : String) :
    Except StoreError (Option ToolKind) :=
  (store.archive.invocationItem fromStr request call).map (Option.map (·.input.kind))

/-- The kind of an invocation, with failures reported for the claim under migration. -/
def claimedKind (store : LegacyStore Hash Window) (claim : RequestId × String)
    (request : RequestId) (call missing : String) : Except MigrationError ToolKind := do
  let kind ← (store.invocationKind fromStr request call).mapError
    fun failure => .legacyProvenance claim.1 claim.2 (.invocation failure)
  okOr kind (ambiguous claim.1 claim.2 missing)

/-- The operation that a request issued itself. -/
def originalOperation (store : LegacyStore Hash Window) (request : RequestId) (call : String) :
    Except MigrationError OperationId := do
  let _ ← store.claimedKind fromStr (request, call) request call
    "claim request has no matching original provider call"
  let row ← okOr (store.archive.requests.find? request) (.store .storage)
  return { origin := store.archive.identityForBranch row.branch, request, call }

/-- The claims a copied claim takes its operation from. -/
def copiedClaims (store : LegacyStore Hash Window) (request : RequestId) (call : String)
    (source : CopySource) : Except MigrationError (List (RequestId × String)) := do
  if source.requiresCallItem then
    let _ ← store.claimedKind fromStr (request, call) request call
      "copied request lacks the provider call item"
  let candidates := store.sourceClaims source.request call source.requiresCallItem
  require (!candidates.isEmpty)
    (ambiguous request call ("source " ++ source.request ++ " has no matching claim"))
  return candidates.map (·, call)

/-- One claim: an operation of its own, or the claims it was copied from. -/
def expand (store : LegacyStore Hash Window) (claim : RequestId × String) :
    Except MigrationError (OperationId ⊕ List (RequestId × String)) := do
  match ← store.copySource fromStr claim.1 claim.2 with
  | some source => .inr <$> store.copiedClaims fromStr claim.1 claim.2 source
  | none => .inl <$> store.originalOperation fromStr claim.1 claim.2

/-- The claims as a graph of copies. -/
def graph (store : LegacyStore Hash Window) :
    Graph (RequestId × String) OperationId MigrationError where
  expand := store.expand fromStr
  cyclic claim := ambiguous claim.1 claim.2 "cyclic copied-claim ancestry"
  ambiguous claim := ambiguous claim.1 claim.2 "source lineage has multiple same-ID operations"

/-- Each step of a resolution enters another claim, so one more step than there are claims
is enough. -/
def resolve (store : LegacyStore Hash Window) (claim : RequestId × String)
    (cache : Cache (RequestId × String) OperationId) :
    Except (Stop MigrationError) (OperationId × Cache (RequestId × String) OperationId) :=
  (store.graph fromStr).resolve (store.claims.rows.length + 1) [] claim cache

/-- The retained output answers the original call. -/
def validateOutput (store : LegacyStore Hash Window) (claim : LegacyClaim Hash)
    (operation : OperationId) : Except MigrationError PUnit :=
  match claim.output with
  | none => return
  | some hash => do
    let item ← okOr (store.archive.items hash) (.store .storage)
    let kind ← store.claimedKind fromStr claim.key operation.request operation.call
      "origin invocation is missing"
    (validateReplayOutput claim.call kind item).mapError fun _ =>
      ambiguous claim.request claim.call
        "settled output does not match origin call kind and wire ID"

/-- The claims by request and call. -/
def orderedClaims (store : LegacyStore Hash Window) : List (LegacyClaim Hash) :=
  store.claims.rows.insertionSort fun left right => toLex left.key ≤ toLex right.key

def migratedClaim (claim : LegacyClaim Hash) (operation : OperationId) : ClaimRow Hash where
  operation := operation
  request := claim.request
  state := claim.state
  output := claim.output

/-- Migrate one claim into the new table. -/
def migrateClaim (store : LegacyStore Hash Window)
    (state : Cache (RequestId × String) OperationId × Table (@ClaimRow.key Hash))
    (claim : LegacyClaim Hash) :
    Except (Stop MigrationError)
      (Cache (RequestId × String) OperationId × Table (@ClaimRow.key Hash)) := do
  let (operation, cache) ← store.resolve fromStr claim.key state.1
  (store.validateOutput fromStr claim operation).mapError .refused
  let claims ← okOr (state.2.insert? (migratedClaim claim operation)) (.refused (.store .storage))
  return (cache, claims)

/-- A variant without content is its name, or an object from its name to `null`. -/
def toolKind (kind : Value) : Except MigrationError ToolKind :=
  if kind = .string "function" ∨ kind = .object [("function", .null)] then return .function
  else if kind = .string "custom" ∨ kind = .object [("custom", .null)] then return .custom
  else .error (.json "unknown tool kind")

/-- The pending operation of a checkpoint, with the operation its claim has now. -/
def upgradeClaim (claims : Table (@ClaimRow.key Hash)) (checkpoint : String) (value : Value) :
    Except MigrationError CheckpointClaim := do
  let call ← okOr (value.index "call_id").asStr
    (ambiguous checkpoint "<unknown>" "checkpoint pending call has no wire ID")
  let request ← okOr (value.index "request").asStr
    (ambiguous checkpoint call "checkpoint pending call has no source request")
  let row ← okOr
    (claims.rows.find? fun row => row.request = request && row.operation.call = call)
    (ambiguous checkpoint call "checkpoint pending call has no migrated source claim")
  let kind ← toolKind (value.index "kind")
  return { operation := { row.operation with call }, request, kind }

variable (print : List CheckpointClaim → String)

/-- Upgrade the pending operations of one checkpoint in place. -/
def upgradeCheckpoint (claims : Table (@ClaimRow.key Hash))
    (checkpoints : Table LegacyCheckpoint.snapshot) (checkpoint : LegacyCheckpoint) :
    Except MigrationError (Table LegacyCheckpoint.snapshot) := do
  let old ← parseDocument fromStr checkpoint.pendingClaims
  let old ← okOr old.asArray (.json "expected an array")
  let updated ← old.mapM (upgradeClaim claims checkpoint.id)
  return checkpoints.update
    (fun row => if row.id = checkpoint.id then { row with pendingClaims := print updated } else row)
    (by intro row; split <;> rfl)

/-- The migration within its transaction. It writes only the new claims and the pending
claims of checkpoints, and neither is read while claims are resolved. -/
def migrateClaims (store : LegacyStore Hash Window) :
    Except (Stop MigrationError) (LegacyStore Hash Window) := do
  let (_, claims) ← store.orderedClaims.foldlM (store.migrateClaim fromStr)
    ([], store.archive.claims)
  let checkpoints ← (store.checkpoints.rows.foldlM (upgradeCheckpoint fromStr print claims)
    store.checkpoints).mapError .refused
  return { store with archive := { store.archive with claims }, checkpoints }

def migration : Tx (LegacyStore Hash Window) (Stop MigrationError) PUnit := do
  let store ← get
  let next ← answer (store.migrateClaims fromStr print)
  set next

end

end LegacyStore

end ExomonadHarness.Store
