import ExomonadHarness.Scheduler.Job

/-! One registered operation at work: its record, the task spawned for it, and the
calls on it that are in progress. A step is one section under the registry's lock,
or what happens between two of them; providers, cancellation owners and completion
sources answer as they like. -/

namespace ExomonadHarness.Scheduler

open Json

variable {Failure Context : Type}

/-- The result kept for a provider future that ended with this output. -/
def JobOutput.result : JobOutput Failure → Option (Except Failure Value)
  | .completed result => some result
  | _ => none

/-- Where the spawned task stands. It passes the launch gate, looks for a retained
output, starts, calls the provider, captures its completion and settles. -/
inductive Task (Failure Context : Type) where
  | gated
  | launched
  | ready
  | calling
  | captured (result : ProviderCompletion Failure Context)
  | settling (output : JobOutput Failure)
  | notifying (output : JobOutput Failure)
  | finished

def Task.isFinished : Task Failure Context → Bool
  | .finished => true
  | _ => false

/-- Where a call in progress stands. -/
inductive Call (Failure Context : Type) where
  | cancelGated (cause : CancellationCause)
  | cancelAdmitted (cause : CancellationCause)
  | cancelOwned
  | ownerAsked
  | ownerAnswered (ack : CancellationAcknowledgment Failure) (output : JobOutput Failure)
  | ownerProjecting (ack : CancellationAcknowledgment Failure) (output : JobOutput Failure)
      (required : Bool) (retained : Option (ProviderCompletion Failure Context))
  | ownerRecording (ack : CancellationAcknowledgment Failure)
      (completion : Option (ProviderCompletion Failure Context))
  | ownerStopping (taken : Bool)
  | cancelUnowned
  | reaping (held : Bool)
  | projecting
  | masking (completion : ProviderCompletion Failure Context)
  | retryGated
  | retryAdmitted
  | retryAsked
  | retryStopping (taken : Bool)
  | completing (completion : Option (ProviderCompletion Failure Context))
      (output : Option (JobOutput Failure))

/-- Whether a call holds the cancellation gate. -/
def Call.holdsGate : Call Failure Context → Bool
  | .cancelGated _ | .retryGated | .completing _ _ => false
  | _ => true

/-- A registered operation and its task. -/
structure Slot (Failure Context : Type) where
  operation : OperationId
  job : Job Failure Context
  task : Task Failure Context := .gated

/-- What a step shows to a caller. -/
inductive Answer (Failure Context : Type) where
  | silent
  | claimed (claimant : ConversationIdentity) (output : Option (JobOutput Failure))
  | attached (claimant : ConversationIdentity)
      (attachment : Except JobError
        (Option (JobOutput Failure) × Option FollowupPublicationState))
  | committed (result : Except JobError Unit)
  | looked (output : Option (JobOutput Failure))
  | waited (output : JobOutput Failure)
  | observed (settled : Option (JobOutput Failure))
  | settled (output : JobOutput Failure) (claimants : List ConversationIdentity)
  | retried (ack : Option (CancellationAcknowledgment Failure))
  /-- The output the call read, what its source projected, and what it answers. -/
  | completed (output : Option (JobOutput Failure))
      (projected answer : Option (ProviderCompletion Failure Context))

/-- The end of `invocation_completion`, outside the lock. What the source projects
replaces a completion for another output. -/
def completionAnswer [DecidableEq Failure] (operation : OperationId)
    (activation : Option RequestActivation) (terminal : Option OperationId)
    (completion projected : Option (ProviderCompletion Failure Context))
    (output : Option (JobOutput Failure)) : Option (ProviderCompletion Failure Context) :=
  let completion : Option (ProviderCompletion Failure Context) :=
    match output with
    | none => completion
    | some output => if completion.all (·.output ≠ output) then projected else completion
  completion.map fun completion =>
    match completion.activationTerminal with
    | none => completion
    | some issued =>
      if issued.operation = operation ∧ activation = some issued.activation ∧
          terminal = some operation then completion
      else { completion with activationTerminal := none, fullSuccess := false }

/-- A step of the task, where `terminal` is the terminal of the job's activation. -/
inductive TaskStep (terminal : Option OperationId) :
    Slot Failure Context → Answer Failure Context → Slot Failure Context → Prop where
  | retained (slot : Slot Failure Context) (standing : slot.task = .launched)
      (output : JobOutput Failure) :
      TaskStep terminal slot .silent { slot with task := .settling output }
  | proceed (slot : Slot Failure Context) (standing : slot.task = .launched) :
      TaskStep terminal slot .silent { slot with task := .ready }
  | start (slot : Slot Failure Context) (standing : slot.task = .ready) :
      TaskStep terminal slot .silent { slot with
        job := (slot.job.start terminal.isSome).2
        task := if (slot.job.start terminal.isSome).1 then .settling .cancelled else .calling }
  | finish (slot : Slot Failure Context) (standing : slot.task = .calling)
      (result : ProviderCompletion Failure Context) :
      TaskStep terminal slot .silent { slot with
        task := .captured { result with
          fullSuccess := result.fullSuccess && result.output.succeeded } }
  | capture (slot : Slot Failure Context) (result : ProviderCompletion Failure Context)
      (standing : slot.task = .captured result) :
      TaskStep terminal slot .silent { slot with
        job := slot.job.capture result, task := .settling result.output }
  | settle (slot : Slot Failure Context) (output : JobOutput Failure)
      (standing : slot.task = .settling output) (drained : List ConversationIdentity)
      (order : drained.Perm slot.job.claimants) :
      TaskStep terminal slot
        (.settled (slot.job.settle output output.result drained).1
          (slot.job.settle output output.result drained).2.settledClaimants)
        { slot with
          job := (slot.job.settle output output.result drained).2
          task := .notifying (slot.job.settle output output.result drained).1 }
  | notify (slot : Slot Failure Context) (output : JobOutput Failure)
      (standing : slot.task = .notifying output) :
      TaskStep terminal slot .silent { slot with job := slot.job.notify output, task := .finished }
  /-- The provider's code panics, which ends the task. -/
  | failed (slot : Slot Failure Context)
      (standing : slot.task = .launched ∨ slot.task = .calling) :
      TaskStep terminal slot .silent { slot with task := .finished }

/-- A step of a call in progress, which leaves the call further on or returns. -/
inductive CallStep [DecidableEq Failure] (terminal : Option OperationId) :
    Slot Failure Context → Call Failure Context → Answer Failure Context →
      Slot Failure Context → Option (Call Failure Context) → Prop where
  | cancelGate (slot : Slot Failure Context) (cause : CancellationCause)
      (free : slot.job.cancellationGate = false) :
      CallStep terminal slot (.cancelGated cause) .silent
        { slot with job := { slot.job with cancellationGate := true } }
        (some (.cancelAdmitted cause))
  | cancelAdmit (slot : Slot Failure Context) (cause admitted : CancellationCause) (owned : Bool)
      (decision : (slot.job.admitCancellation cause).1 = some (owned, admitted)) :
      CallStep terminal slot (.cancelAdmitted cause) .silent
        { slot with job := (slot.job.admitCancellation cause).2 }
        (some (if owned then .cancelOwned else .cancelUnowned))
  | cancelRefused (slot : Slot Failure Context) (cause : CancellationCause)
      (decision : (slot.job.admitCancellation cause).1 = none) :
      CallStep terminal slot (.cancelAdmitted cause) .silent
        { slot with job := { slot.job with cancellationGate := false } } none
  | askOwner (slot : Slot Failure Context) (unsettled : slot.job.output = none) :
      CallStep terminal slot .cancelOwned .silent
        { slot with job := { slot.job with cancel := true } } (some .ownerAsked)
  | ownerLate (slot : Slot Failure Context) (settled : slot.job.output.isSome) :
      CallStep terminal slot .cancelOwned .silent
        { slot with job := { slot.job with cancellationGate := false } } none
  | ownerAnswer (slot : Slot Failure Context) (ack : CancellationAcknowledgment Failure)
      (output : JobOutput Failure) (projected : ack.projected = some output) :
      CallStep terminal slot .ownerAsked .silent slot (some (.ownerAnswered ack output))
  | ownerUnconfirmed (slot : Slot Failure Context) (ack : CancellationAcknowledgment Failure)
      (unconfirmed : ack.projected = none) :
      CallStep terminal slot .ownerAsked .silent slot (some (.ownerRecording ack none))
  | ownerRead (slot : Slot Failure Context) (ack : CancellationAcknowledgment Failure)
      (output : JobOutput Failure) :
      CallStep terminal slot (.ownerAnswered ack output) .silent slot
        (some (.ownerProjecting ack output slot.job.contextCompletionRequired
          slot.job.completion))
  | ownerProject (slot : Slot Failure Context) (ack : CancellationAcknowledgment Failure)
      (output : JobOutput Failure) (required : Bool)
      (retained projected : Option (ProviderCompletion Failure Context))
      (source : slot.job.completionSource = false → projected = none) :
      CallStep terminal slot (.ownerProjecting ack output required retained) .silent slot
        (some (.ownerRecording ack
          (some (Job.ownerCompletion retained projected required output))))
  | ownerRecord (slot : Slot Failure Context) (ack : CancellationAcknowledgment Failure)
      (completion : Option (ProviderCompletion Failure Context))
      (drained : List ConversationIdentity) (order : drained.Perm slot.job.claimants)
      (output : JobOutput Failure)
      (recorded : (slot.job.recordAnswer ack completion drained).1 = some output) :
      CallStep terminal slot (.ownerRecording ack completion)
        (.settled output (slot.job.recordAnswer ack completion drained).2.settledClaimants)
        { slot with job := (slot.job.recordAnswer ack completion drained).2 }
        (some (.ownerStopping (slot.job.task && ack.isStopped)))
  | ownerOvertaken (slot : Slot Failure Context) (ack : CancellationAcknowledgment Failure)
      (completion : Option (ProviderCompletion Failure Context))
      (drained : List ConversationIdentity)
      (overtaken : (slot.job.recordAnswer ack completion drained).1 = none) :
      CallStep terminal slot (.ownerRecording ack completion) .silent
        { slot with job := { (slot.job.recordAnswer ack completion drained).2 with
            cancellationGate := false } } none
  /-- A taken task is aborted, and the call returns. -/
  | ownerStop (slot : Slot Failure Context) (taken : Bool) :
      CallStep terminal slot (.ownerStopping taken) .silent
        { slot with
          job := { slot.job with cancellationGate := false }
          task := if taken then .finished else slot.task } none
  | cancelUnowned (slot : Slot Failure Context) (drained : List ConversationIdentity)
      (order : drained.Perm slot.job.claimants) (output : JobOutput Failure)
      (recorded : (slot.job.cancelUnowned drained).1 = some output) :
      CallStep terminal slot .cancelUnowned
        (.settled output (slot.job.cancelUnowned drained).2.settledClaimants)
        { slot with job := (slot.job.cancelUnowned drained).2 } (some (.reaping slot.job.task))
  | cancelOvertaken (slot : Slot Failure Context) (settled : slot.job.output.isSome) :
      CallStep terminal slot .cancelUnowned .silent
        { slot with job := { slot.job with cancellationGate := false } } none
  /-- The task ends within the grace period or is aborted. -/
  | reap (slot : Slot Failure Context) (held : Bool) :
      CallStep terminal slot (.reaping held) .silent
        { slot with
          job := { slot.job with cancel := true }
          task := if held then .finished else slot.task } (some .projecting)
  | project (slot : Slot Failure Context) (completion : ProviderCompletion Failure Context)
      (source : slot.job.completionSource = true) :
      CallStep terminal slot .projecting .silent slot
        (some (.masking (completion.bind .cancelled)))
  | projectNone (slot : Slot Failure Context) :
      CallStep terminal slot .projecting .silent
        { slot with job := { slot.job with cancellationGate := false } } none
  | mask (slot : Slot Failure Context) (completion : ProviderCompletion Failure Context) :
      CallStep terminal slot (.masking completion) .silent
        { slot with job := { slot.job with
            completion := some completion, cancellationGate := false } } none
  | retryGate (slot : Slot Failure Context) (free : slot.job.cancellationGate = false) :
      CallStep terminal slot .retryGated .silent
        { slot with job := { slot.job with cancellationGate := true } } (some .retryAdmitted)
  | retryAnswer (slot : Slot Failure Context)
      (ack : Option (CancellationAcknowledgment Failure))
      (decided : slot.job.retryDecision = some ack) :
      CallStep terminal slot .retryAdmitted (.retried ack)
        { slot with job := { slot.job with cancellationGate := false } } none
  | retryAsk (slot : Slot Failure Context) (decided : slot.job.retryDecision = none) :
      CallStep terminal slot .retryAdmitted .silent slot (some .retryAsked)
  | retryRecord (slot : Slot Failure Context) (ack : CancellationAcknowledgment Failure) :
      CallStep terminal slot .retryAsked (.retried (some ack))
        { slot with job := slot.job.recordRetry ack }
        (some (.retryStopping
          (slot.job.task && ack.isStopped && slot.job.providerCompletion.isNone)))
  | retryStop (slot : Slot Failure Context) (taken : Bool) :
      CallStep terminal slot (.retryStopping taken) .silent
        { slot with
          job := { slot.job with cancellationGate := false }
          task := if taken then .finished else slot.task } none
  | complete (slot : Slot Failure Context)
      (completion projected : Option (ProviderCompletion Failure Context))
      (output : Option (JobOutput Failure))
      (source : slot.job.completionSource = false → projected = none) :
      CallStep terminal slot (.completing completion output)
        (.completed output projected (completionAnswer slot.operation slot.job.activation terminal
          completion projected output)) slot none

/-- A registered operation with the calls on it that are in progress. -/
structure Entry (Failure Context : Type) where
  slot : Slot Failure Context
  calls : List (Call Failure Context) := []

/-- One step of anything that works on a registered operation. -/
inductive EntryStep [DecidableEq Failure] (terminal : Option OperationId) :
    Entry Failure Context → Answer Failure Context → Entry Failure Context → Prop where
  | task {slot next : Slot Failure Context} {answer : Answer Failure Context}
      (calls : List (Call Failure Context)) (taken : TaskStep terminal slot answer next) :
      EntryStep terminal ⟨slot, calls⟩ answer ⟨next, calls⟩
  | call {slot next : Slot Failure Context} {answer : Answer Failure Context}
      {current : Call Failure Context} {left : Option (Call Failure Context)}
      (before after : List (Call Failure Context))
      (taken : CallStep terminal slot current answer next left) :
      EntryStep terminal ⟨slot, before ++ current :: after⟩ answer
        ⟨next, before ++ left.toList ++ after⟩
  /-- The caller of a call in progress gives it up, which frees the gate it holds. -/
  | dropped (slot : Slot Failure Context) (before after : List (Call Failure Context))
      (current : Call Failure Context) :
      EntryStep terminal ⟨slot, before ++ current :: after⟩ .silent
        ⟨{ slot with job := { slot.job with
            cancellationGate := slot.job.cancellationGate && !current.holdsGate } },
          before ++ after⟩
  | cancel (entry : Entry Failure Context) (cause : CancellationCause) :
      EntryStep terminal entry .silent
        { entry with calls := entry.calls ++ [.cancelGated cause] }
  | retry (entry : Entry Failure Context)
      (owned : (entry.slot.job.started && entry.slot.job.cancellationOwner) = true) :
      EntryStep terminal entry .silent { entry with calls := entry.calls ++ [.retryGated] }
  | retryUnowned (entry : Entry Failure Context)
      (unowned : (entry.slot.job.started && entry.slot.job.cancellationOwner) = false) :
      EntryStep terminal entry (.retried none) entry
  | complete (entry : Entry Failure Context) :
      EntryStep terminal entry .silent { entry with
        calls := entry.calls ++ [.completing entry.slot.job.completion entry.slot.job.output] }
  /-- A started invocation registers its completion source. -/
  | register (entry : Entry Failure Context) (started : entry.slot.job.started = true) :
      EntryStep terminal entry .silent
        { entry with slot.job.completionSource := true }
  | release (entry : Entry Failure Context) (context : Bool) :
      EntryStep terminal entry .silent { entry with
        slot := { entry.slot with
          job := (entry.slot.job.release context).2
          task := match (entry.slot.job.release context).1, entry.slot.task with
            | .ok true, .gated => .launched
            | _, task => task } }
  | claim (entry : Entry Failure Context) (claimant : ConversationIdentity) :
      EntryStep terminal entry (.claimed claimant (entry.slot.job.claim claimant).1)
        { entry with slot.job := (entry.slot.job.claim claimant).2 }
  | attach (entry : Entry Failure Context) (claimant : ConversationIdentity) :
      EntryStep terminal entry
        (.attached claimant (entry.slot.job.forkOwnedAttachment entry.slot.operation.origin
          claimant entry.slot.task.isFinished).1)
        { entry with slot.job := (entry.slot.job.forkOwnedAttachment
            entry.slot.operation.origin claimant entry.slot.task.isFinished).2 }
  | commit (entry : Entry Failure Context) (drained : List ConversationIdentity)
      (order : drained.Perm entry.slot.job.claimants) :
      EntryStep terminal entry (.committed (entry.slot.job.markOutputCommitted drained).1)
        { entry with slot.job := (entry.slot.job.markOutputCommitted drained).2 }
  | look (entry : Entry Failure Context) :
      EntryStep terminal entry (.looked entry.slot.job.visible) entry
  | wait (entry : Entry Failure Context) (output : JobOutput Failure)
      (ready : entry.slot.job.output = some output ∨ entry.slot.job.settled = some output) :
      EntryStep terminal entry (.waited output) entry
  | observe (entry : Entry Failure Context) :
      EntryStep terminal entry (.observed entry.slot.job.settled) entry

end ExomonadHarness.Scheduler
