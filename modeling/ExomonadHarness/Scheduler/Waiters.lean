import ExomonadHarness.Scheduler.Notices

/-! Callers that wait for operations of one scheduler. They subscribe to its settlement
channel, read the outputs, park until something happens, and read the outputs once more
before they answer. -/

namespace ExomonadHarness.Scheduler

variable {Failure Context : Type}

/-- What a subscriber has not received. The channel keeps a number of notices; whoever
falls behind misses the oldest ones and is told so. -/
structure Inbox where
  queue : List OperationId := []
  lagged : Bool := false
  deriving DecidableEq

/-- The capacity of the settlement channel. -/
def eventCapacity : ℕ := 64

def Inbox.post (inbox : Inbox) (operation : OperationId) : Inbox :=
  if inbox.queue.length < eventCapacity then
    { inbox with queue := inbox.queue ++ [operation] }
  else { queue := inbox.queue.tail ++ [operation], lagged := true }

def Inbox.pending (inbox : Inbox) : Bool :=
  inbox.lagged || !inbox.queue.isEmpty

@[simp] theorem Inbox.pending_post (inbox : Inbox) (operation : OperationId) :
    (inbox.post operation).pending = true := by
  unfold post
  split <;> simp [pending]

/-- What ended a wait. -/
inductive WaitResume where
  | job (operation : OperationId)
  | envelope
  | durableWake
  | timedOut
  | cancelled
  deriving DecidableEq

/-- Where a wait stands: reading outputs, reading one that a notice named, at the select,
or reading all outputs for its answer. -/
inductive WaitPhase (Failure : Type) where
  | checking (left : List OperationId)
  | confirming (operation : OperationId)
  | selecting
  | draining (resumed : WaitResume) (left : List OperationId)
      (outputs : List (OperationId × JobOutput Failure))
  | answered (resumed : WaitResume) (outputs : List (OperationId × JobOutput Failure))
  | refused

/-- One call of `wait_agent_and_drain_until_exact`; `bounded` says that it has a deadline. -/
structure Waiter (Failure : Type) where
  outstanding : List OperationId
  bounded : Bool
  phase : WaitPhase Failure
  inbox : Inbox := {}

namespace Waiter

def finish (waiter : Waiter Failure) (resumed : WaitResume) : Waiter Failure :=
  { waiter with phase := .draining resumed waiter.outstanding [] }

def recheck (waiter : Waiter Failure) : Waiter Failure :=
  { waiter with phase := .checking waiter.outstanding }

/-- The select is reached and nothing is there for it to receive. -/
def Parked (waiter : Waiter Failure) : Prop :=
  waiter.phase = .selecting ∧ waiter.inbox.pending = false

end Waiter

/-- A result that is ready when the timer fires wins over the timer. -/
def WaitResume.settle (resumed : WaitResume) (outputs : List (OperationId × JobOutput Failure)) :
    WaitResume :=
  match resumed, outputs.head? with
  | .timedOut, some output => .job output.1
  | resumed, _ => resumed

/-- A step of a wait. `registered` and `visible` are what the registry answers, and every
branch of the select that is not the channel may be ready at any time. -/
inductive WaitStep (registered : OperationId → Bool)
    (visible : OperationId → Option (JobOutput Failure)) :
    Waiter Failure → Waiter Failure → Prop where
  | found (waiter : Waiter Failure) (operation : OperationId) (left : List OperationId)
      (standing : waiter.phase = .checking (operation :: left))
      (seen : (visible operation).isSome = true) :
      WaitStep registered visible waiter (waiter.finish (.job operation))
  | unseen (waiter : Waiter Failure) (operation : OperationId) (left : List OperationId)
      (standing : waiter.phase = .checking (operation :: left))
      (hidden : visible operation = none) :
      WaitStep registered visible waiter { waiter with phase := .checking left }
  | cancelled (waiter : Waiter Failure)
      (standing : waiter.phase = .checking [] ∨ waiter.phase = .selecting) :
      WaitStep registered visible waiter (waiter.finish .cancelled)
  | expired (waiter : Waiter Failure) (bounded : waiter.bounded = true)
      (standing : waiter.phase = .checking [] ∨ waiter.phase = .selecting) :
      WaitStep registered visible waiter (waiter.finish .timedOut)
  | select (waiter : Waiter Failure) (standing : waiter.phase = .checking []) :
      WaitStep registered visible waiter { waiter with phase := .selecting }
  /-- The cancellation cell changed without a cancellation, or the mailbox closed. -/
  | stirred (waiter : Waiter Failure) (standing : waiter.phase = .selecting) :
      WaitStep registered visible waiter waiter.recheck
  | lagged (waiter : Waiter Failure) (standing : waiter.phase = .selecting)
      (behind : waiter.inbox.lagged = true) :
      WaitStep registered visible waiter
        { waiter.recheck with inbox := { waiter.inbox with lagged := false } }
  | received (waiter : Waiter Failure) (operation : OperationId) (queue : List OperationId)
      (standing : waiter.phase = .selecting) (level : waiter.inbox.lagged = false)
      (next : waiter.inbox.queue = operation :: queue) :
      WaitStep registered visible waiter { waiter with
        phase := if operation ∈ waiter.outstanding then .confirming operation
          else .checking waiter.outstanding
        inbox := { waiter.inbox with queue } }
  | confirmed (waiter : Waiter Failure) (operation : OperationId)
      (standing : waiter.phase = .confirming operation)
      (seen : (visible operation).isSome = true) :
      WaitStep registered visible waiter (waiter.finish (.job operation))
  | unconfirmed (waiter : Waiter Failure) (operation : OperationId)
      (standing : waiter.phase = .confirming operation) (hidden : visible operation = none) :
      WaitStep registered visible waiter waiter.recheck
  | mail (waiter : Waiter Failure) (resumed : WaitResume)
      (kind : resumed = .envelope ∨ resumed = .durableWake)
      (standing : waiter.phase = .selecting) :
      WaitStep registered visible waiter (waiter.finish resumed)
  | drain (waiter : Waiter Failure) (resumed : WaitResume) (operation : OperationId)
      (left : List OperationId) (outputs : List (OperationId × JobOutput Failure))
      (standing : waiter.phase = .draining resumed (operation :: left) outputs)
      (known : registered operation = true) :
      WaitStep registered visible waiter { waiter with
        phase := .draining resumed left
          (outputs ++ ((visible operation).map (operation, ·)).toList) }
  | refuse (waiter : Waiter Failure) (resumed : WaitResume) (operation : OperationId)
      (left : List OperationId) (outputs : List (OperationId × JobOutput Failure))
      (standing : waiter.phase = .draining resumed (operation :: left) outputs)
      (unknown : registered operation = false) :
      WaitStep registered visible waiter { waiter with phase := .refused }
  | answer (waiter : Waiter Failure) (resumed : WaitResume)
      (outputs : List (OperationId × JobOutput Failure))
      (standing : waiter.phase = .draining resumed [] outputs) :
      WaitStep registered visible waiter { waiter with
        phase := .answered (resumed.settle outputs) outputs }

/-- One scheduler: its registered operations and the callers that wait on it. -/
structure Hub (Failure Context : Type) where
  desks : OperationId → Option (Desk Failure Context) := fun _ => none
  waiters : ℕ → Option (Waiter Failure) := fun _ => none

namespace Hub

def visible (hub : Hub Failure Context) (operation : OperationId) : Option (JobOutput Failure) :=
  (hub.desks operation).bind Desk.visible

def registered (hub : Hub Failure Context) (operation : OperationId) : Bool :=
  (hub.desks operation).isSome

def setDesk (hub : Hub Failure Context) (operation : OperationId) (desk : Desk Failure Context) :
    Hub Failure Context :=
  { hub with desks := fun id => if id = operation then some desk else hub.desks id }

def setWaiter (hub : Hub Failure Context) (caller : ℕ) (waiter : Waiter Failure) :
    Hub Failure Context :=
  { hub with waiters := fun id => if id = caller then some waiter else hub.waiters id }

/-- Every subscriber is sent a notice. -/
def announce (hub : Hub Failure Context) (operation : OperationId) : Hub Failure Context :=
  { hub with waiters := fun id => (hub.waiters id).map fun waiter =>
      { waiter with inbox := waiter.inbox.post operation } }

def announceIf (hub : Hub Failure Context) (signal : Signal) (operation : OperationId) :
    Hub Failure Context :=
  if signal = .sent then hub.announce operation else hub

/-- Nothing works on any operation. -/
def Quiet (hub : Hub Failure Context) : Prop :=
  ∀ operation desk, hub.desks operation = some desk → desk.Quiet

end Hub

/-- What happened on a scheduler. -/
inductive HubEvent where
  | admitted (admission : Admission)
  | stepped (operation : OperationId) (signal : Signal)
  | waiting (caller : ℕ)
  | waited (caller : ℕ)

/-- A step of a scheduler and its callers. The activation of a job may be closed by others
at any time. -/
inductive HubStep [DecidableEq Failure] :
    Hub Failure Context → HubEvent → Hub Failure Context → Prop where
  | admitted (hub : Hub Failure Context) (admission : Admission)
      (fresh : hub.desks admission.operation = none) :
      HubStep hub (.admitted admission)
        (hub.setDesk admission.operation { slot := (World.newEntry admission).slot })
  | desk {signal : Signal} {next : Desk Failure Context} (hub : Hub Failure Context)
      (operation : OperationId) (desk : Desk Failure Context) (terminal : Option OperationId)
      (found : hub.desks operation = some desk)
      (taken : DeskStep terminal desk signal next) :
      HubStep hub (.stepped operation signal)
        ((hub.setDesk operation next).announceIf signal operation)
  | wait (hub : Hub Failure Context) (caller : ℕ) (outstanding : List OperationId)
      (bounded : Bool) (fresh : hub.waiters caller = none) :
      HubStep hub (.waiting caller)
        (hub.setWaiter caller { outstanding, bounded, phase := .checking outstanding })
  /-- A caller that is cancelled before it subscribes. -/
  | waitCancelled (hub : Hub Failure Context) (caller : ℕ) (outstanding : List OperationId)
      (bounded : Bool) (fresh : hub.waiters caller = none) :
      HubStep hub (.waiting caller)
        (hub.setWaiter caller
          { outstanding, bounded, phase := .draining .cancelled outstanding [] })
  | waiter {next : Waiter Failure} (hub : Hub Failure Context) (caller : ℕ)
      (waiter : Waiter Failure) (found : hub.waiters caller = some waiter)
      (taken : WaitStep hub.registered hub.visible waiter next) :
      HubStep hub (.waited caller) (hub.setWaiter caller next)

abbrev HubRun [DecidableEq Failure] :
    Hub Failure Context → List HubEvent → Hub Failure Context → Prop :=
  Transition.Run HubStep

end ExomonadHarness.Scheduler
