import ExomonadHarness.Item
import ExomonadHarness.Scheduler.Job
import ExomonadHarness.Transport.Types

/-! Identities, blocks and refusals of the store. -/

namespace ExomonadHarness.Store

open Item (ToolKind)
open Scheduler (OperationId)
open Transport

abbrev RequestId := String

abbrev AgentPath := String

abbrev ClientOperationId := String

structure HostIdentity where
  run : String
  actor : AgentPath
  incarnation : String
  deriving DecidableEq

inductive ResponsesRoute where
  | chatGptPlan | deepSeek
  deriving DecidableEq

inductive CredentialFailure where
  | missing | unreadable | unsafeSource | invalid | workerFailed
  deriving DecidableEq

/-- A request refused before a provider response began. -/
inductive RequestFailure where
  | authentication
  | credentialUnavailable (route : ResponsesRoute) (reason : CredentialFailure)
  | providerAuthentication (route : ResponsesRoute)
  | http (status : ℕ) (diagnostic : Option HttpDiagnostic)
  deriving DecidableEq

inductive InferenceBlockReason where
  | streamInterrupted (cause : StreamInterruption)
  | providerStreamFailure (event : ProviderStreamFailureEvent) (diagnostic : Option HttpDiagnostic)
  | requestRejected (failure : RequestFailure)
  | responseIncomplete (responseId : String) (reason : Option IncompleteReason)
  | continuityUnproven
  | hostInterrupted
  deriving DecidableEq

inductive ContinuationRefusal where
  | exactProjectionUnavailable | continuityUnproven | uncertainEffects | stale
  deriving DecidableEq

/-- A durable interruption is independent of the host actor's lifetime. -/
structure InferenceBlock where
  request : RequestId
  generation : ℕ
  reason : InferenceBlockReason
  continuationRefusal : Option ContinuationRefusal
  deriving DecidableEq

inductive RecoveryMode where
  | exact | visibleHistory
  deriving DecidableEq

/-- The input remains admitted even when its exact continuation is refused. -/
inductive InputContinuation where
  | queued
  | granted (block : InferenceBlock)
  | refused (block : InferenceBlock) (reason : ContinuationRefusal)
  deriving DecidableEq

inductive ContextReplayRejection where
  | missingProvenance (request : RequestId)
  | invalidMembership
  | invalidPrefix
  | incompatibleTransport
  | unownedInvocation (request : RequestId) (position : ℕ)
  deriving DecidableEq

inductive ContextPortabilityRejection where
  | noVisibleContent
  | unsupportedItem
  | unsupportedField (item field : String)
  | invalidField (item field : String)
  | encryptedPayload
  deriving DecidableEq

inductive ContextError where
  | conflict | missingCall | invalidReference | nativeEdit | protectedGroup | nativeOrder
  | opaqueModel
  | replay (rejection : ContextReplayRejection)
  | ineligible | cancelled | unsupportedState
  | portability (rejection : ContextPortabilityRejection)
  | invalidModel
  deriving DecidableEq

inductive EmbeddedError where
  | binding (message : String)
  | conflictingInput
  | host (message : String)
  deriving DecidableEq

/-- The refusals of the modelled store operations. Database, encoding and
commit failures are `storage`, and the embedding's own refusals are `embedded`. -/
inductive StoreError where
  | embedded (error : EmbeddedError)
  | missingRequest (request : RequestId)
  | requestAgentMismatch (request : RequestId) (expected actual : String)
  | conflictingProviderIssuance (request : RequestId)
  | conflictingProviderItem (request : RequestId) (index : ℕ)
  | incompleteProviderPrefix (request : RequestId) (index : ℕ)
  | invalidProviderEvidence (request : RequestId)
  | context (error : ContextError)
  | unsupportedReplayOutcome (operation : OperationId)
  | conflictingReplayOutcome (operation : OperationId)
  | missingReplayItem
  | malformedReplayCall (request : RequestId) (call reason : String)
  | replayOutputKindMismatch (call : String) (expected : ToolKind)
  | ambiguousReplayCall (call : String)
  | missingCheckpointCall (request : RequestId) (call : String)
  | missingCheckpointClaim (request : RequestId) (call : String)
  | missingCheckpointEffort (request : RequestId)
  | missingAgentParent (path : AgentPath)
  | invalidAgentPath (path : AgentPath)
  | reservedSessionStateNamespace (session : String)
  | missingActiveSpawnCall (request : RequestId) (call : String)
  | invalidCompletionMarker (event : ℕ)
  | unboundOutputPublication (request : RequestId) (position : ℕ)
  | inconsistentOutputPublication (request : RequestId) (position : ℕ)
  | invalidOutputPublication (operation : OperationId) (claimant : RequestId)
  | invalidActorOutput
  | conflictingCommand
  | invalidCommandState
  | inferenceBlocked (block : InferenceBlock)
  | inferenceRunning
  | staleInferenceRecovery
  | inferenceRecoveryUncertain (operation : OperationId)
  | invalidEmbeddedFrontier
  | unownedEmbeddedRequest
  | invalidEmbeddedBinding
  | duplicateClaim
  | operationOriginMismatch
  | conflictingActorOutput
  | actorOutputRefused
  | actorOutputAuthority (reason : String)
  | invalidForm
  | formUnavailable
  | conflictingFormOperation
  | invalidMedia
  | invalidSvg (detail : String)
  | invalidHistoryOffset
  | json
  | storage
  deriving DecidableEq

end ExomonadHarness.Store
