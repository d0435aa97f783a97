import ExomonadHarness.Scheduler.Slot
import ExomonadHarness.Support.Run

/-! Any number of schedulers that share request activations. A registry entry is
never removed; an activation is bound to the first scheduler that sees it and is
closed by at most one terminal. -/

namespace ExomonadHarness.Scheduler

variable {Failure Context : Type}

/-- The two write-once cells of an activation. -/
structure ActivationState where
  scheduler : Option ℕ := none
  terminal : Option OperationId := none
  deriving DecidableEq

def ActivationState.isClosed (state : ActivationState) : Bool := state.terminal.isSome

/-- The registries of all schedulers, each named by its number and with its keys in
any order, and all activations. -/
structure World (Failure Context : Type) where
  detachedStore : ℕ → String
  registered : ℕ → List OperationId := fun _ => []
  jobs : ℕ → OperationId → Option (Entry Failure Context) := fun _ _ => none
  activations : RequestActivation → ActivationState := fun _ => {}

namespace World

def setEntry (world : World Failure Context) (scheduler : ℕ) (operation : OperationId)
    (entry : Entry Failure Context) : World Failure Context :=
  { world with jobs := fun number id =>
      if number = scheduler ∧ id = operation then some entry else world.jobs number id }

def addKey (world : World Failure Context) (scheduler : ℕ) (operation : OperationId) :
    World Failure Context :=
  { world with registered := fun number =>
      if number = scheduler then operation :: world.registered number
      else world.registered number }

def setActivation (world : World Failure Context) (activation : RequestActivation)
    (state : ActivationState) : World Failure Context :=
  { world with activations := fun other =>
      if other = activation then state else world.activations other }

/-- The terminal of the activation that a job belongs to. -/
def terminalOf (world : World Failure Context) (job : Job Failure Context) :
    Option OperationId :=
  job.activation.bind fun activation => (world.activations activation).terminal

/-- `bind_scheduler`, whose cell keeps the first scheduler. -/
def bindScheduler (world : World Failure Context) (activation : RequestActivation)
    (scheduler : ℕ) : Bool × World Failure Context :=
  let state := world.activations activation
  let owner := state.scheduler.getD scheduler
  (owner == scheduler, world.setActivation activation { state with scheduler := some owner })

end World

def ConversationIdentity.actor : ConversationIdentity → String
  | .standalone _ actor | .embedded _ actor _ => actor

def isHarnessTool (name : String) : Bool :=
  ["spawn_agent", "send_message", "followup_task", "wait_agent", "checkpoint", "set_effort",
    "list_agents", "interrupt_agent"].contains name

/-- What a caller and its provider give to `admit_operation`; of a context snapshot
only its operation is read. -/
structure Admission where
  operation : OperationId
  agent : String
  request : Option String
  custom : Bool
  snapshot : Option OperationId
  handle : String
  name : String
  activation : Option RequestActivation
  role : InvocationRole
  requiresPublication : Bool
  cancellationOwner : Bool

/-- The checks before the registry is locked. A scheduler's own detached operations
need no matching agent or request. -/
def Admission.refusal (admission : Admission) (detachedStore : String) : Option JobError :=
  let detached :=
    match admission.operation.origin with
    | .standalone store _ => store == detachedStore
    | .embedded .. => false
  if admission.snapshot.any (· ≠ admission.operation) then some .operationContextMismatch
  else if !detached && (admission.operation.origin.actor != admission.agent ||
      admission.request != some admission.operation.request) then
    some .operationContextMismatch
  else if admission.custom && isHarnessTool admission.name then some .agentVerbRequiresFunction
  else if admission.custom && admission.name == "finalize" then some .finalizeRequiresFunction
  else none

namespace World

def newEntry (admission : Admission) : Entry Failure Context where
  slot := {
    operation := admission.operation
    job := {
      handle := admission.handle
      name := admission.name
      activation := admission.activation
      role := admission.role
      requiresPublication := admission.requiresPublication
      cancellationOwner := admission.cancellationOwner } }

/-- The fence of `admit_operation`: the activation belongs to this scheduler, and a
closed one takes no more domain work. -/
def fence (world : World Failure Context) (scheduler : ℕ) (admission : Admission) :
    Option JobError × World Failure Context :=
  match admission.activation with
  | none => (none, world)
  | some activation =>
    match world.bindScheduler activation scheduler with
    | (false, world) => (some .foreignRequestActivation, world)
    | (true, world) =>
      if admission.role = .domain ∧ (world.activations activation).isClosed then
        (some .requestActivationClosed, world)
      else (none, world)

def admitOperation (world : World Failure Context) (scheduler : ℕ) (admission : Admission) :
    Except JobError String × World Failure Context :=
  match admission.refusal (world.detachedStore scheduler) with
  | some error => (.error error, world)
  | none =>
    match world.fence scheduler admission with
    | (some error, world) => (.error error, world)
    | (none, world) =>
      if (world.jobs scheduler admission.operation).isSome then (.error .duplicateCall, world)
      else
        (.ok admission.handle,
          (world.addKey scheduler admission.operation).setEntry scheduler admission.operation
            (newEntry admission))

end World

inductive InvocationState where
  | queued | running | unconfirmed
  deriving DecidableEq

structure PendingInvocation where
  operation : OperationId
  name : String
  state : InvocationState
  deriving DecidableEq

inductive InvocationAdmissionError where
  | unavailable | foreignInvocation | notSettlement | alreadyTerminated | claim
  deriving DecidableEq

/-- The state of a job that a terminal of its activation has to account for. -/
def Job.pending (job : Job Failure Context) : Option InvocationState :=
  match job.output with
  | none => some (if job.started then .running else .queued)
  | some (.cancellationUnconfirmed _) | some .interrupted => some .unconfirmed
  | some _ => none

/-- The entry of one job in the inventory of an activation. -/
def pendingInvocation (activation : RequestActivation) (operation : OperationId)
    (job : Job Failure Context) : Option PendingInvocation :=
  if job.activation = some activation ∧ job.role = .domain then
    job.pending.map fun state => { operation, name := job.name, state }
  else none

/-- The order of the inventory: by request, then by call. -/
def PendingInvocation.le (first second : PendingInvocation) : Prop :=
  first.operation.request < second.operation.request ∨
    first.operation.request = second.operation.request ∧
      first.operation.call ≤ second.operation.call

namespace World

/-- What `try_admit_terminal` hands to the claim callback: the pending domain jobs of
the activation, sorted. -/
def IsInventory (world : World Failure Context) (scheduler : ℕ) (activation : RequestActivation)
    (inventory : List PendingInvocation) : Prop :=
  inventory.Perm ((world.registered scheduler).filterMap fun operation =>
    (world.jobs scheduler operation).bind fun entry =>
      pendingInvocation activation operation entry.slot.job) ∧
    inventory.Pairwise PendingInvocation.le

/-- Why `try_admit_terminal` refuses before the callback. -/
def terminalRefusal (world : World Failure Context) (scheduler : ℕ) (operation : OperationId)
    (activation : RequestActivation) : Option InvocationAdmissionError :=
  match world.jobs scheduler operation with
  | none => some .foreignInvocation
  | some own =>
    if own.slot.job.activation ≠ some activation ∨ own.slot.job.started = false ∨
        own.slot.job.output.isSome then some .foreignInvocation
    else if own.slot.job.role ≠ .settlement then some .notSettlement
    else if (world.activations activation).isClosed then some .alreadyTerminated
    else none

def closeActivation (world : World Failure Context) (activation : RequestActivation)
    (operation : OperationId) : World Failure Context :=
  world.setActivation activation
    { world.activations activation with terminal := some operation }

end World

/-- What happened in a step of the world. -/
inductive Event (Failure Context : Type) where
  | admitted (scheduler : ℕ) (admission : Admission) (result : Except JobError String)
  | stepped (scheduler : ℕ) (operation : OperationId) (answer : Answer Failure Context)
  | refused (scheduler : ℕ) (operation : OperationId) (activation : RequestActivation)
      (error : InvocationAdmissionError)
  | claimed (scheduler : ℕ) (operation : OperationId) (activation : RequestActivation)
      (inventory : List PendingInvocation) (accepted : Bool)

/-- A claim callback accepts or refuses as it likes. A terminal is set under the lock
of the scheduler that the activation is bound to. -/
inductive Step [DecidableEq Failure] :
    World Failure Context → Event Failure Context → World Failure Context → Prop where
  | register (world : World Failure Context) (scheduler : ℕ) (admission : Admission) :
      Step world (.admitted scheduler admission (world.admitOperation scheduler admission).1)
        (world.admitOperation scheduler admission).2
  | entry (world : World Failure Context) (scheduler : ℕ) (operation : OperationId)
      (entry next : Entry Failure Context) (answer : Answer Failure Context)
      (found : world.jobs scheduler operation = some entry)
      (taken : EntryStep (world.terminalOf entry.slot.job) entry answer next) :
      Step world (.stepped scheduler operation answer)
        (world.setEntry scheduler operation next)
  | refuse (world : World Failure Context) (scheduler : ℕ) (operation : OperationId)
      (activation : RequestActivation) (error : InvocationAdmissionError)
      (refused : world.terminalRefusal scheduler operation activation = some error) :
      Step world (.refused scheduler operation activation error) world
  /-- The callback cannot wait for the lock of the registry. -/
  | contend (world : World Failure Context) (scheduler : ℕ) (operation : OperationId)
      (activation : RequestActivation) :
      Step world (.refused scheduler operation activation .unavailable) world
  | claim (world : World Failure Context) (scheduler : ℕ) (operation : OperationId)
      (activation : RequestActivation) (inventory : List PendingInvocation) (accepted : Bool)
      (free : world.terminalRefusal scheduler operation activation = none)
      (offered : world.IsInventory scheduler activation inventory) :
      Step world (.claimed scheduler operation activation inventory accepted)
        (if accepted then world.closeActivation activation operation else world)

abbrev Run [DecidableEq Failure] :
    World Failure Context → List (Event Failure Context) → World Failure Context → Prop :=
  Transition.Run Step

namespace World

/-- No job is registered and no activation is bound. -/
def empty (detachedStore : ℕ → String) : World Failure Context where
  detachedStore

variable (world : World Failure Context)

@[simp] theorem setEntry_jobs (scheduler other : ℕ) (operation id : OperationId)
    (entry : Entry Failure Context) :
    (world.setEntry scheduler operation entry).jobs other id =
      if other = scheduler ∧ id = operation then some entry else world.jobs other id := rfl

@[simp] theorem fence_jobs (scheduler : ℕ) (admission : Admission) :
    (world.fence scheduler admission).2.jobs = world.jobs := by
  unfold fence
  split
  · rfl
  · split <;> rename_i bound
    · have same := congrArg (fun pair => pair.2.jobs) bound
      exact same.symm
    · have same := congrArg (fun pair => pair.2.jobs) bound
      split <;> exact same.symm

/-- A registration adds the one new entry it answers for. -/
theorem admitOperation_jobs (scheduler : ℕ) (admission : Admission) (other : ℕ)
    (id : OperationId) :
    (world.admitOperation scheduler admission).2.jobs other id = world.jobs other id ∨
      world.jobs other id = none ∧ other = scheduler ∧ id = admission.operation ∧
        (world.admitOperation scheduler admission).2.jobs other id =
          some (newEntry admission) := by
  have fenced := world.fence_jobs scheduler admission
  unfold admitOperation
  split
  · exact .inl rfl
  · rcases reached : world.fence scheduler admission with ⟨error | _, guarded⟩
    · rw [reached] at fenced
      dsimp only at fenced ⊢
      split
      · rw [fenced]
        exact .inl rfl
      · rename_i absent
        by_cases own : other = scheduler ∧ id = admission.operation
        · obtain ⟨rfl, rfl⟩ := own
          right
          refine ⟨?_, rfl, rfl, by simp⟩
          rw [← fenced]
          simpa using absent
        · left
          rw [setEntry_jobs, if_neg own]
          exact congrFun (congrFun fenced other) id
    · rw [reached] at fenced
      exact .inl (congrFun (congrFun fenced other) id)

end World

section Entries

variable [DecidableEq Failure] {world next : World Failure Context}
  {event : Event Failure Context} {scheduler : ℕ} {operation : OperationId}
  {entry : Entry Failure Context}

/-- The answer of an event on an operation. -/
def Event.answer? (scheduler : ℕ) (operation : OperationId) :
    Event Failure Context → Option (Answer Failure Context)
  | .stepped other id answer =>
    if scheduler = other ∧ operation = id then some answer else none
  | _ => none

/-- The answers on an operation during a run, oldest first. -/
def answersOf (scheduler : ℕ) (operation : OperationId) (events : List (Event Failure Context)) :
    List (Answer Failure Context) :=
  events.filterMap (Event.answer? scheduler operation)

omit [DecidableEq Failure] in
theorem answersOf_stepped (scheduler : ℕ) (operation : OperationId)
    (answers : List (Answer Failure Context)) :
    answersOf scheduler operation (answers.map (.stepped scheduler operation)) = answers := by
  have own : ∀ answer : Answer Failure Context,
      (Event.stepped scheduler operation answer).answer? scheduler operation = some answer :=
    fun _ => if_pos ⟨rfl, rfl⟩
  rw [answersOf, List.filterMap_map]
  exact (List.filterMap_congr fun answer _ => own answer).trans List.filterMap_some

/-- A registered entry stays as it is or takes a step of its own. -/
theorem Step.entry_kept (taken : Step world event next)
    (found : world.jobs scheduler operation = some entry) :
    (event.answer? scheduler operation = none ∧ next.jobs scheduler operation = some entry) ∨
      ∃ answer after, event.answer? scheduler operation = some answer ∧
        EntryStep (world.terminalOf entry.slot.job) entry answer after ∧
        next.jobs scheduler operation = some after := by
  cases taken with
  | register other admission =>
    rcases world.admitOperation_jobs other admission scheduler operation with same | ⟨absent, _⟩
    · exact .inl ⟨rfl, same.trans found⟩
    · simp [absent] at found
  | entry other id before after answer held stepped =>
    by_cases own : scheduler = other ∧ operation = id
    · obtain ⟨rfl, rfl⟩ := own
      cases held.symm.trans found
      exact .inr ⟨answer, after, by simp [Event.answer?], stepped, by simp⟩
    · left
      rw [World.setEntry_jobs, if_neg own]
      exact ⟨if_neg own, found⟩
  | refuse => exact .inl ⟨rfl, found⟩
  | contend => exact .inl ⟨rfl, found⟩
  | claim _ _ _ _ accepted =>
    refine .inl ⟨rfl, ?_⟩
    split <;> exact found

/-- Where no entry is, none answers, and one that appears is a fresh registration. -/
theorem Step.entry_fresh (taken : Step world event next)
    (absent : world.jobs scheduler operation = none) :
    event.answer? scheduler operation = none ∧
      ∀ entry, next.jobs scheduler operation = some entry →
        ∃ admission, admission.operation = operation ∧ entry = World.newEntry admission := by
  have unchanged (same : next.jobs scheduler operation = world.jobs scheduler operation) :
      ∀ entry, next.jobs scheduler operation = some entry →
        ∃ admission, admission.operation = operation ∧ entry = World.newEntry admission := by
    intro entry found
    simp [same, absent] at found
  cases taken with
  | register other admission =>
    rcases world.admitOperation_jobs other admission scheduler operation with
      same | ⟨_, _, rfl, added⟩
    · exact ⟨rfl, unchanged same⟩
    · refine ⟨rfl, ?_⟩
      intro entry found
      exact ⟨admission, rfl, Option.some.inj (found.symm.trans added)⟩
  | entry other id before after answer held stepped =>
    have own : ¬ (scheduler = other ∧ operation = id) := by
      intro same
      obtain ⟨rfl, rfl⟩ := same
      simp [absent] at held
    refine ⟨if_neg own, unchanged ?_⟩
    rw [World.setEntry_jobs, if_neg own]
  | refuse => exact ⟨rfl, unchanged rfl⟩
  | contend => exact ⟨rfl, unchanged rfl⟩
  | claim _ _ _ _ accepted =>
    refine ⟨rfl, unchanged ?_⟩
    split <;> rfl

/-- A step that is allowed on the entry it is about. -/
def StepWhen (allowed : Entry Failure Context → Answer Failure Context → Prop)
    (world : World Failure Context) (event : Event Failure Context)
    (next : World Failure Context) : Prop :=
  Step world event next ∧ ∀ scheduler operation entry answer,
    event.answer? scheduler operation = some answer →
    world.jobs scheduler operation = some entry → allowed entry answer

variable {detachedStore : ℕ → String} {events : List (Event Failure Context)}

/-- What holds of a fresh registration and is kept, relative to the answers so far,
by every allowed step on an entry holds of every entry of a run of allowed steps. -/
theorem run_entry_when (allowed : Entry Failure Context → Answer Failure Context → Prop)
    (holds : List (Answer Failure Context) → Entry Failure Context → Prop)
    (fresh : ∀ admission, holds [] (World.newEntry admission))
    (kept : ∀ {terminal answers entry answer after}, holds answers entry →
      EntryStep terminal entry answer after → allowed entry answer →
      holds (answers ++ [answer]) after)
    (run : Transition.Run (StepWhen allowed) (World.empty detachedStore) events world)
    (found : world.jobs scheduler operation = some entry) :
    holds (answersOf scheduler operation events) entry := by
  have every : (world.jobs scheduler operation = none →
        answersOf scheduler operation events = []) ∧
      ∀ entry, world.jobs scheduler operation = some entry →
        holds (answersOf scheduler operation events) entry := by
    apply run.history (fun events world =>
      (world.jobs scheduler operation = none → answersOf scheduler operation events = []) ∧
      ∀ entry, world.jobs scheduler operation = some entry →
        holds (answersOf scheduler operation events) entry)
    · simp [World.empty, answersOf]
    · intro events world event next earlier stepTaken
      obtain ⟨taken, allowedHere⟩ := stepTaken
      have grown : answersOf scheduler operation (events ++ [event]) =
          answersOf scheduler operation events ++
            (event.answer? scheduler operation).toList := by
        simp only [answersOf, List.filterMap_append, List.filterMap_cons, List.filterMap_nil]
        cases event.answer? scheduler operation <;> rfl
      rw [grown]
      rcases before : world.jobs scheduler operation with _ | old
      · obtain ⟨silent, appeared⟩ := taken.entry_fresh before
        have none := earlier.1 before
        simp only [none, silent, Option.toList_none, List.append_nil, true_and,
          implies_true]
        intro entry now
        obtain ⟨admission, _, rfl⟩ := appeared entry now
        exact fresh admission
      · have held := earlier.2 old before
        rcases taken.entry_kept before with ⟨silent, same⟩ | ⟨answer, after, said, stepped, now⟩
        · simp only [silent, same, Option.toList_none, List.append_nil]
          refine ⟨by simp, ?_⟩
          intro entry shown
          exact Option.some.inj shown ▸ held
        · simp only [said, now, Option.toList_some]
          refine ⟨by simp, ?_⟩
          intro entry shown
          exact Option.some.inj shown ▸
            kept held stepped (allowedHere scheduler operation old answer said before)
  exact every.2 entry found

theorem run_entry_history (holds : List (Answer Failure Context) → Entry Failure Context → Prop)
    (fresh : ∀ admission, holds [] (World.newEntry admission))
    (kept : ∀ {terminal answers entry answer after}, holds answers entry →
      EntryStep terminal entry answer after → holds (answers ++ [answer]) after)
    (run : Run (World.empty detachedStore) events world)
    (found : world.jobs scheduler operation = some entry) :
    holds (answersOf scheduler operation events) entry := by
  have free : Transition.Run (StepWhen fun _ _ => True) (World.empty detachedStore) events world :=
    run.mono fun taken => ⟨taken, fun _ _ _ _ _ _ => trivial⟩
  exact run_entry_when _ holds fresh (fun held taken _ => kept held taken) free found

theorem run_entry (holds : Entry Failure Context → Prop)
    (fresh : ∀ admission, holds (World.newEntry admission))
    (kept : ∀ {terminal entry answer after}, holds entry →
      EntryStep terminal entry answer after → holds after)
    (run : Run (World.empty detachedStore) events world)
    (found : world.jobs scheduler operation = some entry) : holds entry :=
  run_entry_history (fun _ entry => holds entry) fresh (fun held taken => kept held taken) run
    found

end Entries

end ExomonadHarness.Scheduler
