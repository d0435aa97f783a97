import ExomonadHarness.Json.Value

/-! The record of an admitted operation. The functions on it are the sections that
the scheduler and a job's task run while they hold the lock of the registry. -/

namespace ExomonadHarness.Scheduler

open Json

/-- The conversation authorized to originate a provider operation. -/
inductive ConversationIdentity where
  | standalone (store actor : String)
  | embedded (run actor incarnation : String)
  deriving DecidableEq

structure OperationId where
  origin : ConversationIdentity
  request : String
  call : String
  deriving DecidableEq

/-- The identity of one native request activation. -/
structure RequestActivation where
  id : ℕ
  deriving DecidableEq

/-- Only domain work blocks request settlement. -/
inductive InvocationRole where
  | domain | observation | settlement
  deriving DecidableEq

inductive CancellationCause where
  | deliveredInput | providerFailureCleanup | roundFailureCleanup | explicitCancellation
  | retirement | unknown
  deriving DecidableEq

inductive JobOutput (Failure : Type) where
  | completed (result : Except Failure Value)
  | cancelled
  | cancelledWithReceipt (receipt : Except Failure Value)
  | interrupted
  | cancellationUnconfirmed (failure : Failure)
  deriving DecidableEq

/-- `Completed(Ok(_))`. -/
def JobOutput.succeeded {Failure : Type} : JobOutput Failure → Bool
  | .completed (.ok _) => true
  | _ => false

inductive CancellationAcknowledgment (Failure : Type) where
  | stopped
  | stoppedWithReceipt (receipt : Except Failure Value)
  | completed (result : Except Failure Value)
  | unconfirmed (failure : Failure)
  deriving DecidableEq

namespace CancellationAcknowledgment

variable {Failure : Type}

/-- The terminal output an owner proves; an unconfirmed answer proves none. -/
def projected : CancellationAcknowledgment Failure → Option (JobOutput Failure)
  | completed result => some (.completed result)
  | stopped => some .cancelled
  | stoppedWithReceipt receipt => some (.cancelledWithReceipt receipt)
  | unconfirmed _ => none

def output : CancellationAcknowledgment Failure → JobOutput Failure
  | completed result => .completed result
  | stopped => .cancelled
  | stoppedWithReceipt receipt => .cancelledWithReceipt receipt
  | unconfirmed failure => .cancellationUnconfirmed failure

def isStopped : CancellationAcknowledgment Failure → Bool
  | stopped | stoppedWithReceipt _ => true
  | completed _ | unconfirmed _ => false

end CancellationAcknowledgment

/-- What a completion says of staged context edits. The drafts and the evidence
themselves are never read here. -/
inductive ContextDisposition (Context : Type) where
  | unedited
  | unavailable
  | draft (draft : Context)
  | transaction (draft : Context)
  | discarded (draft : Context)
  | replay (evidence : Context)
  deriving DecidableEq

def ContextDisposition.discard {Context : Type} :
    ContextDisposition Context → ContextDisposition Context
  | .transaction staged => .discarded staged
  | other => other

inductive OutputFormat where
  | legacyOpaque | nativeReceiptV1
  deriving DecidableEq

/-- Issued only under the admission fence of its activation. -/
structure InvocationTerminal where
  operation : OperationId
  activation : RequestActivation
  deriving DecidableEq

structure ProviderCompletion (Failure Context : Type) where
  outputFormat : OutputFormat
  output : JobOutput Failure
  fullSuccess : Bool
  context : ContextDisposition Context
  activationTerminal : Option InvocationTerminal
  deriving DecidableEq

/-- A completion bound to an output cannot claim success for another. -/
def ProviderCompletion.bind {Failure Context : Type} (output : JobOutput Failure)
    (completion : ProviderCompletion Failure Context) : ProviderCompletion Failure Context :=
  let fullSuccess := completion.fullSuccess && output.succeeded
  { completion with
    output, fullSuccess
    context := if fullSuccess then completion.context else completion.context.discard }

inductive JobError where
  | zeroCapacity
  | duplicateCall
  | unknownCall
  | unavailablePublicationObservation
  | operationContextMismatch
  | agentVerbRequiresFunction
  | finalizeRequiresFunction
  | foreignRequestActivation
  | requestActivationClosed
  deriving DecidableEq

inductive FollowupPublicationState where
  | admitted | running | terminalUnpublished | published | unconfirmed
  deriving DecidableEq

/-- A registered operation. An owner and an invocation's completion source are kept
as whether they are there, since their answers are arbitrary; the hash set of
claimants is a list without repetition, drained in any order; `task` says whether
the registry still holds the handle of the job's task. -/
structure Job (Failure Context : Type) where
  handle : String
  name : String
  activation : Option RequestActivation
  role : InvocationRole
  requiresPublication : Bool
  cancellationOwner : Bool
  started : Bool := false
  cancellationGate : Bool := false
  cancellationIntent : Option CancellationCause := none
  cancellationAck : Option (CancellationAcknowledgment Failure) := none
  claimants : List ConversationIdentity := []
  settledClaimants : List ConversationIdentity := []
  output : Option (JobOutput Failure) := none
  providerCompletion : Option (Except Failure Value) := none
  completion : Option (ProviderCompletion Failure Context) := none
  completionSource : Bool := false
  contextCompletionRequired : Bool := false
  cancel : Bool := false
  settled : Option (JobOutput Failure) := none
  published : Bool := false
  task : Bool := true
  launch : Bool := true
  deriving DecidableEq

namespace Job

variable {Failure Context : Type}

/-- The output a claimant may see. -/
def visible (job : Job Failure Context) : Option (JobOutput Failure) :=
  if job.requiresPublication && !job.published then none else job.output

def addClaimant (job : Job Failure Context) (claimant : ConversationIdentity) :
    Job Failure Context :=
  { job with claimants := job.claimants.insert claimant }

/-- `claim_exact`. -/
def claim (job : Job Failure Context) (claimant : ConversationIdentity) :
    Option (JobOutput Failure) × Job Failure Context :=
  match job.visible with
  | some output => (some output, job)
  | none => (none, job.addClaimant claimant)

def publicationObservation (job : Job Failure Context) (taskFinished : Bool) :
    Except JobError FollowupPublicationState :=
  match job.output with
  | some (.cancellationUnconfirmed _) | some .interrupted => .ok .unconfirmed
  | some (.completed _) | some .cancelled | some (.cancelledWithReceipt _) =>
    .ok (if job.published then .published else .terminalUnpublished)
  | none =>
    if !job.task then .error .unavailablePublicationObservation
    else if taskFinished then .ok .unconfirmed
    else .ok (if job.started then .running else .admitted)

/-- `fork_owned_attachment`: the settlement and the foreign publication receipt. -/
def forkOwnedAttachment (job : Job Failure Context) (origin claimant : ConversationIdentity)
    (taskFinished : Bool) :
    Except JobError (Option (JobOutput Failure) × Option FollowupPublicationState) ×
      Job Failure Context :=
  let publication : Except JobError (Option FollowupPublicationState) :=
    if origin ≠ claimant ∧ job.requiresPublication then
      (job.publicationObservation taskFinished).map some
    else .ok none
  match publication with
  | .error error => (.error error, job)
  | .ok publication =>
    (.ok (job.visible, publication),
      if job.visible.isNone then job.addClaimant claimant else job)

/-- `mark_output_committed`, with the order in which the claimants are drained. -/
def markOutputCommitted (job : Job Failure Context) (drained : List ConversationIdentity) :
    Except JobError Unit × Job Failure Context :=
  if job.output.isNone then (.error .unknownCall, job)
  else if job.published then (.ok (), job)
  else
    (.ok (), { job with
      settledClaimants := job.settledClaimants ++ drained, claimants := [], published := true })

/-- The output is recorded and the claimants are made ready. -/
def record (job : Job Failure Context) (output : JobOutput Failure)
    (drained : List ConversationIdentity) : Job Failure Context :=
  { job with output := some output, settledClaimants := drained, claimants := [] }

/-- The first section of `settle`: an output that is there stays. -/
def settle (job : Job Failure Context) (output : JobOutput Failure)
    (providerCompletion : Option (Except Failure Value)) (drained : List ConversationIdentity) :
    JobOutput Failure × Job Failure Context :=
  let job := { job with providerCompletion := providerCompletion.or job.providerCompletion }
  match job.output with
  | some existing => (existing, job)
  | none => (output, job.record output drained)

/-- `settled.send_replace`. -/
def notify (job : Job Failure Context) (output : JobOutput Failure) : Job Failure Context :=
  { job with settled := some output }

/-- The section before physical start, and whether the job is cancelled instead. -/
def start (job : Job Failure Context) (closed : Bool) : Bool × Job Failure Context :=
  if job.output.isSome || job.cancel || (job.role == .domain && closed) then (true, job)
  else (false, { job with started := true })

/-- The section that captures the provider's own completion. -/
def capture (job : Job Failure Context) (result : ProviderCompletion Failure Context) :
    Job Failure Context :=
  if job.completion.isNone then
    { job with completion := some { result with
        fullSuccess := result.fullSuccess && job.output.all JobOutput.succeeded } }
  else job

/-- `release_operation`, and whether the task is let go. -/
def release (job : Job Failure Context) (context : Bool) :
    (Except JobError Bool) × Job Failure Context :=
  if job.output.isSome then (.ok false, job)
  else if job.launch then
    (.ok true, { job with launch := false, contextCompletionRequired := context })
  else (.error .duplicateCall, job)

/-- The section of `cancel_with_cause` that admits the request: its cause, and
whether an owner has to be asked. -/
def admitCancellation (job : Job Failure Context) (cause : CancellationCause) :
    Option (Bool × CancellationCause) × Job Failure Context :=
  if job.output.isSome then (none, job)
  else
    let cause := job.cancellationIntent.getD cause
    (some (job.started && job.cancellationOwner, cause),
      { job with cancellationIntent := some cause, cancel := true })

/-- The completion kept with an owner's terminal answer. The retained completion is
used where it is for the same output, then what the invocation projects. -/
def ownerCompletion (retained projected : Option (ProviderCompletion Failure Context))
    [DecidableEq Failure] (required : Bool) (output : JobOutput Failure) :
    ProviderCompletion Failure Context :=
  let fallback : ProviderCompletion Failure Context := {
    outputFormat := .legacyOpaque
    output
    fullSuccess := !required && output.succeeded
    context := if required then .unavailable else .unedited
    activationTerminal := none }
  (((retained.filter (·.output = output)).or projected).getD fallback).bind output

/-- The section that records an owner's answer. A completion while the owner was
answering wins unchanged. -/
def recordAnswer (job : Job Failure Context) (ack : CancellationAcknowledgment Failure)
    (completion : Option (ProviderCompletion Failure Context))
    (drained : List ConversationIdentity) :
    Option (JobOutput Failure) × Job Failure Context :=
  let job := { job with cancellationAck := some ack }
  if job.output.isSome then (none, job)
  else
    (some ack.output, { (job.record ack.output drained).notify ack.output with
      completion := completion.or job.completion, task := job.task && !ack.isStopped })

/-- The section that cancels a job without asking an owner. -/
def cancelUnowned (job : Job Failure Context) (drained : List ConversationIdentity) :
    Option (JobOutput Failure) × Job Failure Context :=
  if job.output.isSome then (none, job)
  else (some .cancelled, { (job.record .cancelled drained).notify .cancelled with task := false })

/-- The section of `retry_cancellation` that decides whether to ask again, or what
is answered at once. -/
def retryDecision (job : Job Failure Context) :
    Option (Option (CancellationAcknowledgment Failure)) :=
  match job.providerCompletion, job.cancellationAck with
  | some (.ok _), ack => some ack
  | _, some (.unconfirmed _) => none
  | _, ack => some ack

def recordRetry (job : Job Failure Context) (ack : CancellationAcknowledgment Failure) :
    Job Failure Context :=
  { job with
    cancellationAck := some ack
    task := job.task && !(ack.isStopped && job.providerCompletion.isNone) }

end Job

end ExomonadHarness.Scheduler
