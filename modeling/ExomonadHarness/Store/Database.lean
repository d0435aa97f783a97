import ExomonadHarness.Store.Rounds


/-! The commands of a host, their receipts and the states they go through. -/

namespace ExomonadHarness.Store

inductive HostCommand where
  | selectAccount (target : HostIdentity) (accountId : String)
  | input (target : HostIdentity) (text : String)
  | interrupt (target : HostIdentity) (expectedRound : String)
  | retire (target : HostIdentity)
  | recover (target : HostIdentity) (expectedBlock : InferenceBlock) (mode : RecoveryMode)
  deriving DecidableEq

def HostCommand.target : HostCommand → HostIdentity
  | selectAccount target _ | input target _ | interrupt target _ | retire target
  | recover target _ _ => target

inductive CommandControl where
  | interrupt | retire
  deriving DecidableEq

structure RecoveryProjectionReceipt where
  omitted : List String
  unknownResponseCompleteness : List RequestId
  deriving DecidableEq

inductive CommandReceiptOutcome where
  | accountSelected (target : HostIdentity) (accountId : String)
  | recoveryAuthorized (target : HostIdentity) (block : InferenceBlock) (mode : RecoveryMode)
      (projection : RecoveryProjectionReceipt)
  | continuationRefused (target : HostIdentity) (block : InferenceBlock)
      (reason : ContinuationRefusal)
  | accepted (continuation : Option InputContinuation) (target : Option HostIdentity)
      (envelopeId : ℕ) (wakeError : Option String)
  | controlRequested (target : HostIdentity) (control : CommandControl)
  | unconfirmed (target : HostIdentity) (reason : String)
  | refused (target : Option HostIdentity) (reason : String)
  deriving DecidableEq

structure CommandReceipt where
  commandId : ClientOperationId
  outcome : CommandReceiptOutcome
  deriving DecidableEq

inductive EmbeddedCommandState where
  | queued | dispatching | inputAdmitted | controlRequested | recoveryAuthorized
  | accountSelected | refused | unconfirmed
  deriving DecidableEq

end ExomonadHarness.Store
