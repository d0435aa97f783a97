import ExomonadHarness.Store.Types

/-! `engine/embedded_round.rs`: the facts of a failed round, folded from its error. -/

namespace ExomonadHarness.Engine.Round

open Scheduler (OperationId CancellationCause)
open Store (RequestId InferenceBlock InferenceBlockReason)

inductive RoundExecution where
  | completed | rejected | interrupted | cancelled | failed
  deriving DecidableEq

inductive InferenceObligation where
  | explicitInput (request : RequestId)
  | recoverBlock (block : InferenceBlock)
  | reconcile (head : Option RequestId)
  | preserveUnsettled (request : RequestId)
  deriving DecidableEq

inductive RoundFailureStage where
  | nativeCleanup
  | operationClaimSettlement
  | providerTailRecording
  | providerResponseSettlement
  | followupObservation
  | interruptedRequestRecording
  | rejectedRequestRecording
  | inferenceBlockRecording
  | inferenceAttemptSettlement
  | durableHeadSettlement
  deriving DecidableEq

/-- A store error, as far as its recovery reads it. -/
inductive StoreFault where
  | recoveryRequired
  | admissionFenced
  | inferenceBlocked (block : InferenceBlock)
  | inferenceRecoveryUncertain (operation : OperationId)
  | context
  | incompleteProviderPrefix
  | invalidProviderEvidence
  | conflictingProviderItem
  | refused

structure StoreRecoveryRequirements where
  reopen : Bool
  block : Option InferenceBlock
  uncertain : Option OperationId

namespace StoreFault

def recoveryRequirements : StoreFault → StoreRecoveryRequirements
  | recoveryRequired | admissionFenced => ⟨true, none, none⟩
  | inferenceBlocked block => ⟨false, some block, none⟩
  | inferenceRecoveryUncertain operation => ⟨false, none, some operation⟩
  | context | incompleteProviderPrefix | invalidProviderEvidence | conflictingProviderItem
  | refused => ⟨false, none, none⟩

def isInferenceProjectionRefusal : StoreFault → Bool
  | context | incompleteProviderPrefix | invalidProviderEvidence | conflictingProviderItem => true
  | _ => false

end StoreFault

/-- `TransportError::failure_kind`. -/
inductive TransportFailureKind where
  | interrupted
  | rejected
  | providerFailed
  | providerIncomplete
  | other

structure EngineCompletion where
  headRequest : RequestId

/-- Causes the fold takes no fact from. -/
inductive PlainCause where
  | interruptedHeadMismatch
  | rejectedHeadMismatch
  | storeTask
  | job
  | missingFinal
  | finalize
  | invalidFinalizeCount
  | invalidToolSelection
  | invalidInjectedItem
  | providerCall
  | invalidFunctionCall
  | mismatchedToolOutput
  | missingEffortPin
  | multipleWaitAgents
  | reservedYieldTool
  | invalidYieldArguments
  | compact
  | unresumableForkedWaitAgent
  | unclaimedInheritedCall
  | incompleteRecordedResponse
  | missingInheritedOutput
  | missingOperationInvocation
  | claimRecoveryConflict
  | missingHereSnapshot

/-- `EngineError`; a cleanup failure is another engine error or an external one. -/
inductive EngineError (Settlement : Type) where
  | inferenceBlocked (block : InferenceBlock)
  | inferenceBlockPersistence (primary : EngineError Settlement) (persistence : StoreFault)
  | secondary (primary : EngineError Settlement) (stage : RoundFailureStage)
      (source : EngineError Settlement) (headRequest : Option RequestId)
  | completionSettlement (completion : EngineCompletion) (stage : RoundFailureStage)
      (source : EngineError Settlement)
  | blockedAction (primary : EngineError Settlement) (block : InferenceBlock)
      (headSettlement : Option Settlement)
  | transport (kind : TransportFailureKind)
  | interruptedModelRound (headRequest : RequestId)
  | requestRejected (headRequest : RequestId)
  | store (source : StoreFault)
  | cleanupFailures (failures : List (EngineError Settlement))
  | unconfirmedCancellation (operation : OperationId)
  | cancelled (headRequest : Option RequestId)
  | cleanup (primary failure : EngineError Settlement)
  | cleanupExternal (primary : EngineError Settlement) (detail : String)
  | plain (cause : PlainCause)

variable {Settlement : Type}

inductive RoundFailureSourceRef (Settlement : Type) where
  | engine (source : EngineError Settlement)
  | store (source : StoreFault)
  | cleanup (source : EngineError Settlement)
  | external (detail : String)

structure RoundSecondaryFailureRef (Settlement : Type) where
  stage : RoundFailureStage
  source : RoundFailureSourceRef Settlement

structure ErrorFacts (Settlement : Type) where
  execution : RoundExecution
  cleanupIntent : CancellationCause
  head : Option RequestId
  inference : List InferenceObligation
  reopen : Bool
  cleanupUncertain : Bool
  outstanding : List OperationId
  continuityRefusal : Bool
  settlements : List Settlement
  primary : Option (EngineError Settlement)
  completion : Option EngineCompletion
  secondary : List (RoundSecondaryFailureRef Settlement)

def retainUnique {α : Type} [DecidableEq α] (items : List α) (item : α) : List α :=
  if item ∈ items then items else items ++ [item]

/-- The explicit input for a request gives way to the recovery of its block. -/
def withoutExplicitInput (request : RequestId) (inference : List InferenceObligation) :
    List InferenceObligation :=
  inference.filter (· ≠ .explicitInput request)

namespace ErrorFacts

def failed (head : Option RequestId) : ErrorFacts Settlement where
  execution := .failed
  cleanupIntent := .roundFailureCleanup
  head := head
  inference := []
  reopen := false
  cleanupUncertain := false
  outstanding := []
  continuityRefusal := false
  settlements := []
  primary := none
  completion := none
  secondary := []

def owe (facts : ErrorFacts Settlement) (obligation : InferenceObligation) : ErrorFacts Settlement :=
  { facts with inference := retainUnique facts.inference obligation }

def accumulate [DecidableEq Settlement] (facts other : ErrorFacts Settlement) :
    ErrorFacts Settlement :=
  { facts with
    secondary := facts.secondary ++ other.secondary
    reopen := facts.reopen || other.reopen
    cleanupUncertain := facts.cleanupUncertain || other.cleanupUncertain
    continuityRefusal := facts.continuityRefusal || other.continuityRefusal
    inference := other.inference.foldl retainUnique facts.inference
    settlements := other.settlements.foldl retainUnique facts.settlements
    outstanding := other.outstanding.foldl retainUnique facts.outstanding }

def awaitUncertain (facts : ErrorFacts Settlement) (operation : OperationId) :
    ErrorFacts Settlement :=
  { facts with
    cleanupUncertain := true
    outstanding := retainUnique facts.outstanding operation }

def store (facts : ErrorFacts Settlement) (source : StoreFault) : ErrorFacts Settlement :=
  let requirements := source.recoveryRequirements
  let facts := { facts with
    continuityRefusal := facts.continuityRefusal || source.isInferenceProjectionRefusal
    reopen := facts.reopen || requirements.reopen }
  let facts := match requirements.uncertain with
    | some operation => facts.awaitUncertain operation
    | none => facts
  match requirements.block with
  | some block => facts.owe (.recoverBlock block)
  | none => facts

def stage (facts : ErrorFacts Settlement) (stage : RoundFailureStage)
    (source : RoundFailureSourceRef Settlement) : ErrorFacts Settlement :=
  { facts with secondary := facts.secondary ++ [⟨stage, source⟩] }

end ErrorFacts

def blockExecution (reason : InferenceBlockReason) : RoundExecution :=
  match reason with
  | .streamInterrupted _ => .interrupted
  | .requestRejected _ => .rejected
  | .providerStreamFailure _ _ | .responseIncomplete _ _ | .continuityUnproven
  | .hostInterrupted => .failed

def transportFacts (facts : ErrorFacts Settlement) : TransportFailureKind → ErrorFacts Settlement
  | .interrupted =>
    let facts := { facts with cleanupIntent := .providerFailureCleanup, execution := .interrupted }
    match facts.head with
    | some request => facts.owe (.explicitInput request)
    | none => facts
  | .rejected => { facts with cleanupIntent := .providerFailureCleanup, execution := .rejected }
  | .providerFailed | .providerIncomplete => { facts with cleanupIntent := .providerFailureCleanup }
  | .other => facts

section

variable [DecidableEq Settlement]

mutual

/-- The sole fold of an engine error. -/
def EngineError.roundFacts : EngineError Settlement → Option RequestId → ErrorFacts Settlement
  | .secondary primary stage source headRequest, head =>
    ((primary.roundFacts (headRequest.or head)).stage stage (.engine source)).accumulate
      (source.roundFacts headRequest)
  | .blockedAction primary block headSettlement, _ =>
    let facts := primary.roundFacts (some block.request)
    let facts := { facts with
      settlements := headSettlement.toList.foldl retainUnique facts.settlements
      inference := withoutExplicitInput block.request facts.inference }
    facts.owe (.recoverBlock block)
  | .completionSettlement completion stage source, _ =>
    let facts : ErrorFacts Settlement := { ErrorFacts.failed (some completion.headRequest) with
      completion := some completion
      execution := .completed }
    (facts.stage stage (.engine source)).accumulate (source.roundFacts (some completion.headRequest))
  | .inferenceBlockPersistence primary persistence, head =>
    ((primary.roundFacts head).store persistence).stage .inferenceBlockRecording (.store persistence)
  | .cleanup primary failure, head =>
    let facts := { primary.roundFacts head with cleanupUncertain := true }
    (facts.stage .nativeCleanup (.cleanup failure)).accumulate (failure.roundFacts facts.head)
  | .cleanupExternal primary detail, head =>
    let facts := { primary.roundFacts head with cleanupUncertain := true }
    facts.stage .nativeCleanup (.external detail)
  | .cleanupFailures failures, head =>
    EngineError.accumulateAll failures { ErrorFacts.failed head with
      primary := some (.cleanupFailures failures)
      cleanupUncertain := true }
  | .store source, head =>
    { ErrorFacts.failed head with
      primary := some (.store source) : ErrorFacts Settlement }.store source
  | .cancelled headRequest, head =>
    { ErrorFacts.failed (headRequest.or head) with
      primary := some (.cancelled headRequest)
      execution := .cancelled
      cleanupIntent := .unknown : ErrorFacts Settlement }.owe (.reconcile (headRequest.or head))
  | .requestRejected headRequest, _ =>
    { ErrorFacts.failed (some headRequest) with
      primary := some (.requestRejected headRequest)
      execution := .rejected
      cleanupIntent := .providerFailureCleanup }
  | .interruptedModelRound headRequest, _ =>
    { ErrorFacts.failed (some headRequest) with
      primary := some (.interruptedModelRound headRequest)
      execution := .interrupted
      cleanupIntent := .providerFailureCleanup : ErrorFacts Settlement }.owe
        (.explicitInput headRequest)
  | .inferenceBlocked block, _ =>
    { ErrorFacts.failed (some block.request) with
      primary := some (.inferenceBlocked block)
      execution := blockExecution block.reason : ErrorFacts Settlement }.owe (.recoverBlock block)
  | .transport kind, head =>
    transportFacts { ErrorFacts.failed head with primary := some (.transport kind) } kind
  | .unconfirmedCancellation operation, head =>
    { ErrorFacts.failed head with
      primary := some (.unconfirmedCancellation operation) : ErrorFacts Settlement }.awaitUncertain
        operation
  | .plain cause, head => { ErrorFacts.failed head with primary := some (.plain cause) }

def EngineError.accumulateAll :
    List (EngineError Settlement) → ErrorFacts Settlement → ErrorFacts Settlement
  | [], facts => facts
  | failure :: rest, facts =>
    EngineError.accumulateAll rest (facts.accumulate (failure.roundFacts facts.head))

end

end

inductive RoundFailureSource (Settlement : Type) where
  | engine (source : EngineError Settlement)
  | store (source : StoreFault)

structure RoundSecondaryFailure (Settlement : Type) where
  stage : RoundFailureStage
  source : RoundFailureSource Settlement

inductive CleanupReceipt where
  | unobserved
  | confirmed
  | outstanding (operations : List OperationId)

inductive RoundCleanup where
  | confirmed | releasedWithFollowup | unconfirmed
  deriving DecidableEq

inductive StoreContinuation where
  | noReopenRequired | reopenRequired
  deriving DecidableEq

structure RoundAssessment (Settlement Followup : Type) where
  execution : RoundExecution
  head : Option RequestId
  inference : List InferenceObligation
  storage : StoreContinuation
  cleanup : RoundCleanup
  outstanding : List OperationId
  retained : List Followup
  continuityRefusal : Bool
  settlements : List Settlement
  secondaryStages : List RoundFailureStage

section

variable {Followup : Type} [DecidableEq Settlement]

def withSecondaryEvidence (facts : ErrorFacts Settlement)
    (secondary : List (RoundSecondaryFailure Settlement)) : ErrorFacts Settlement :=
  secondary.foldl (fun facts failure =>
    let facts := match failure.source with
      | .engine source =>
        (facts.stage failure.stage (.engine source)).accumulate (source.roundFacts facts.head)
      | .store source => (facts.stage failure.stage (.store source)).store source
    if failure.stage = .nativeCleanup then { facts with cleanupUncertain := true } else facts) facts

def addObligation (inference : List InferenceObligation) (obligation : InferenceObligation) :
    List InferenceObligation :=
  match obligation with
  | .recoverBlock block =>
    retainUnique (withoutExplicitInput block.request inference) (.recoverBlock block)
  | other => retainUnique inference other

def assessCleanup (receipt : CleanupReceipt) (uncertain : Bool) (retained : List Followup) :
    RoundCleanup :=
  match receipt with
  | .unobserved => .unconfirmed
  | .confirmed =>
    if uncertain then .unconfirmed
    else if retained.isEmpty then .confirmed
    else .releasedWithFollowup
  | .outstanding _ => .unconfirmed

def assessEvidence (facts : ErrorFacts Settlement)
    (secondary : List (RoundSecondaryFailure Settlement)) (receipt : CleanupReceipt)
    (inference : List InferenceObligation) (retained : List Followup)
    (headSettlements : List Settlement) : RoundAssessment Settlement Followup :=
  let facts := withSecondaryEvidence facts secondary
  { execution := facts.execution
    head := facts.head
    inference := inference.foldl addObligation facts.inference
    storage := if facts.reopen then .reopenRequired else .noReopenRequired
    cleanup := assessCleanup receipt facts.cleanupUncertain retained
    outstanding :=
      match receipt with
      | .outstanding operations => operations.foldl retainUnique facts.outstanding
      | _ => facts.outstanding
    retained := retained
    continuityRefusal := facts.continuityRefusal
    settlements := headSettlements.foldl retainUnique facts.settlements
    secondaryStages := facts.secondary.map (·.stage) }

end

end ExomonadHarness.Engine.Round
