import ExomonadHarness.Scheduler.Settlement

/-! The fence of a request activation. It belongs to one scheduler, a terminal is
admitted for it at most once, and no domain work of it begins afterwards. -/

namespace ExomonadHarness.Scheduler

variable {Failure Context : Type}

namespace World

variable (world : World Failure Context)

/-- What a registration's fence does to the activations, and when it lets one pass. -/
structure Fenced (scheduler : ℕ) (admission : Admission) (error : Option JobError)
    (next : World Failure Context) : Prop where
  jobs : next.jobs = world.jobs
  registered : next.registered = world.registered
  terminal : ∀ activation, (next.activations activation).terminal =
    (world.activations activation).terminal
  owner : ∀ activation owner, (world.activations activation).scheduler = some owner →
    (next.activations activation).scheduler = some owner
  passed : error = none → ∀ activation, admission.activation = some activation →
    (next.activations activation).scheduler = some scheduler ∧
      (admission.role = .domain → (world.activations activation).terminal = none)

theorem bindScheduler_scheduler (activation : RequestActivation) (scheduler : ℕ) :
    ((world.bindScheduler activation scheduler).2.activations activation).scheduler =
        some ((world.activations activation).scheduler.getD scheduler) ∧
      ∀ other, other ≠ activation →
        (world.bindScheduler activation scheduler).2.activations other =
          world.activations other := by
  constructor
  · simp [bindScheduler, setActivation]
  · intro other different
    simp [bindScheduler, setActivation, different]

theorem bindScheduler_terminal (activation other : RequestActivation) (scheduler : ℕ) :
    ((world.bindScheduler activation scheduler).2.activations other).terminal =
      (world.activations other).terminal := by
  by_cases same : other = activation
  · subst same
    simp [bindScheduler, setActivation]
  · simp [bindScheduler, setActivation, same]

theorem fence_spec (scheduler : ℕ) (admission : Admission) :
    world.Fenced scheduler admission (world.fence scheduler admission).1
      (world.fence scheduler admission).2 := by
  unfold fence
  rcases wanted : admission.activation with _ | activation
  · refine ⟨rfl, rfl, fun _ => rfl, fun _ _ bound => bound, ?_⟩
    intro _ activation named
    simp [wanted] at named
  · obtain ⟨own, others⟩ := world.bindScheduler_scheduler activation scheduler
    have terminal := world.bindScheduler_terminal activation
    have kept : ∀ other owner, (world.activations other).scheduler = some owner →
        ((world.bindScheduler activation scheduler).2.activations other).scheduler =
          some owner := by
      intro other owner bound
      by_cases same : other = activation
      · subst same
        rw [own, bound, Option.getD_some]
      · rw [others other same]
        exact bound
    have bindings : world.bindScheduler activation scheduler =
      ((world.activations activation).scheduler.getD scheduler == scheduler,
        (world.bindScheduler activation scheduler).2) := rfl
    dsimp only
    rw [bindings]
    split
    · rename_i bound
      obtain ⟨_, rfl⟩ := Prod.mk.inj bound
      exact ⟨rfl, rfl, fun other => terminal other scheduler, kept, by simp⟩
    · rename_i bound
      simp only [Prod.mk.injEq, beq_iff_eq] at bound
      obtain ⟨mine, rfl⟩ := bound
      split
      · exact ⟨rfl, rfl, fun other => terminal other scheduler, kept, by simp⟩
      · rename_i opened
        refine ⟨rfl, rfl, fun other => terminal other scheduler, kept, ?_⟩
        intro _ named same
        cases wanted.symm.trans same
        refine ⟨by rw [own, mine], ?_⟩
        intro domain
        have closed : ¬ ((world.bindScheduler activation scheduler).2.activations
            activation).isClosed = true := fun closed => opened ⟨domain, closed⟩
        simpa [ActivationState.isClosed, terminal activation scheduler] using closed

/-- A registration keeps the terminals and the bindings of all activations. What it
adds is bound to this scheduler, and is no domain work of a closed activation. -/
theorem admitOperation_spec (scheduler : ℕ) (admission : Admission) :
    let next := (world.admitOperation scheduler admission).2
    (∀ activation, (next.activations activation).terminal =
      (world.activations activation).terminal) ∧
    (∀ activation owner, (world.activations activation).scheduler = some owner →
      (next.activations activation).scheduler = some owner) ∧
    (next.jobs = world.jobs ∧ next.registered = world.registered ∨
      world.jobs scheduler admission.operation = none ∧
      next.jobs = (world.setEntry scheduler admission.operation (newEntry admission)).jobs ∧
      next.registered = (world.addKey scheduler admission.operation).registered ∧
      ∀ activation, admission.activation = some activation →
        (next.activations activation).scheduler = some scheduler ∧
          (admission.role = .domain → (world.activations activation).terminal = none)) := by
  have fenced := world.fence_spec scheduler admission
  unfold admitOperation
  split
  · exact ⟨fun _ => rfl, fun _ _ bound => bound, .inl ⟨rfl, rfl⟩⟩
  · rcases reached : world.fence scheduler admission with ⟨error, guarded⟩
    rw [reached] at fenced
    dsimp only at fenced ⊢
    rcases error with _ | error
    · dsimp only
      split
      · exact ⟨fenced.terminal, fenced.owner, .inl ⟨fenced.jobs, fenced.registered⟩⟩
      · rename_i absent
        refine ⟨fenced.terminal, fenced.owner, .inr ⟨?_, ?_, ?_, fenced.passed rfl⟩⟩
        · simpa [fenced.jobs] using absent
        · simp [setEntry, addKey, fenced.jobs]
        · simp [setEntry, addKey, fenced.registered]
    · exact ⟨fenced.terminal, fenced.owner, .inl ⟨fenced.jobs, fenced.registered⟩⟩

/-- What holds of every world: the keys are those of the jobs, and the jobs of an
activation are on the scheduler it is bound to. -/
structure Bound (world : World Failure Context) : Prop where
  keys : ∀ scheduler operation, operation ∈ world.registered scheduler ↔
    (world.jobs scheduler operation).isSome
  nodup : ∀ scheduler, (world.registered scheduler).Nodup
  owner : ∀ {scheduler operation entry activation},
    world.jobs scheduler operation = some entry →
    entry.slot.job.activation = some activation →
    (world.activations activation).scheduler = some scheduler

theorem Bound.register {world : World Failure Context} (bound : world.Bound) (scheduler : ℕ)
    (admission : Admission) : (world.admitOperation scheduler admission).2.Bound := by
  obtain ⟨_, owner, ⟨jobs, registered⟩ | ⟨absent, jobs, registered, passed⟩⟩ :=
    world.admitOperation_spec scheduler admission
  · refine ⟨?_, ?_, ?_⟩
    · rw [jobs, registered]
      exact bound.keys
    · rw [registered]
      exact bound.nodup
    · intro other operation entry activation found named
      rw [jobs] at found
      exact owner activation other (bound.owner found named)
  · refine ⟨?_, ?_, ?_⟩
    · intro other operation
      rw [jobs, registered]
      simp only [addKey, setEntry_jobs]
      by_cases here : other = scheduler
      · by_cases same : operation = admission.operation
        · simp [here, same]
        · simp [here, same, bound.keys]
      · simp [here, bound.keys]
    · intro other
      rw [registered]
      simp only [addKey]
      split
      · rename_i here
        rw [List.nodup_cons, bound.keys, here, absent]
        exact ⟨by simp, bound.nodup scheduler⟩
      · exact bound.nodup other
    · intro other operation entry activation found named
      rw [jobs, setEntry_jobs] at found
      split at found
      · rename_i here
        cases found
        rw [here.1]
        exact (passed activation named).1
      · exact owner activation other (bound.owner found named)

end World

section Steps

variable {world next : World Failure Context}

theorem World.Bound.setEntry {scheduler : ℕ} {operation : OperationId}
    {entry after : Entry Failure Context} (bound : world.Bound)
    (found : world.jobs scheduler operation = some entry)
    (same : after.slot.job.activation = entry.slot.job.activation) :
    (world.setEntry scheduler operation after).Bound where
  keys := by
    intro other id
    rw [World.setEntry_jobs]
    by_cases here : other = scheduler ∧ id = operation
    · obtain ⟨rfl, rfl⟩ := here
      simp [World.setEntry, bound.keys, found]
    · rw [if_neg here]
      exact bound.keys other id
  nodup := bound.nodup
  owner := by
    intro other id shown activation held named
    rw [World.setEntry_jobs] at held
    split at held
    · rename_i here
      obtain ⟨rfl, rfl⟩ := here
      cases held
      exact bound.owner found (same.symm.trans named)
    · exact bound.owner held named

theorem World.Bound.close (bound : world.Bound) (activation : RequestActivation)
    (operation : OperationId) : (world.closeActivation activation operation).Bound where
  keys := bound.keys
  nodup := bound.nodup
  owner := by
    intro scheduler id entry named found held
    have owner := bound.owner found held
    simp only [World.closeActivation, World.setActivation]
    split
    · rename_i same
      rw [← same]
      exact owner
    · exact owner

/-- A terminal is only offered to a started settlement job without output, of an open
activation. -/
theorem World.terminalRefusal_none {scheduler : ℕ} {operation : OperationId}
    {activation : RequestActivation}
    (free : world.terminalRefusal scheduler operation activation = none) :
    (∃ entry, world.jobs scheduler operation = some entry ∧
      entry.slot.job.activation = some activation ∧ entry.slot.job.role = .settlement ∧
      entry.slot.job.started = true ∧ entry.slot.job.output = none) ∧
      (world.activations activation).terminal = none := by
  unfold World.terminalRefusal at free
  rcases found : world.jobs scheduler operation with _ | own
  · simp [found] at free
  · simp only [found] at free
    split at free
    · simp at free
    · rename_i foreign
      split at free
      · simp at free
      · rename_i role
        split at free
        · simp at free
        · rename_i opened
          push Not at foreign role
          obtain ⟨activation, started, output⟩ := foreign
          refine ⟨⟨own, rfl, activation, role, ?_, ?_⟩, ?_⟩
          · simpa using started
          · simpa using output
          · simpa [ActivationState.isClosed] using opened

variable [DecidableEq Failure] {event : Event Failure Context}

theorem Step.bound (taken : Step world event next) (bound : world.Bound) : next.Bound := by
  cases taken with
  | register scheduler admission => exact bound.register scheduler admission
  | entry scheduler operation entry after answer found stepped =>
    exact bound.setEntry found stepped.extends.2.activation
  | refuse => exact bound
  | contend => exact bound
  | claim scheduler operation activation inventory accepted =>
    split
    · exact bound.close activation operation
    · exact bound

/-- Whether an event admits a terminal of an activation. -/
def Event.terminates (activation : RequestActivation) : Event Failure Context → Bool
  | .claimed _ _ named _ accepted => named == activation && accepted
  | _ => false

/-- Only an admitted terminal closes an activation, and only an open one. -/
theorem Step.terminal (taken : Step world event next) (activation : RequestActivation) :
    event.terminates activation = true ∧ (world.activations activation).terminal = none ∧
        (next.activations activation).terminal.isSome ∨
      event.terminates activation = false ∧
        (next.activations activation).terminal = (world.activations activation).terminal := by
  cases taken with
  | register scheduler admission =>
    exact .inr ⟨rfl, (world.admitOperation_spec scheduler admission).1 activation⟩
  | entry => exact .inr ⟨rfl, rfl⟩
  | refuse => exact .inr ⟨rfl, rfl⟩
  | contend => exact .inr ⟨rfl, rfl⟩
  | claim scheduler operation named inventory accepted free =>
    rcases accepted with _ | _
    · exact .inr ⟨by simp [Event.terminates], rfl⟩
    · by_cases same : named = activation
      · subst same
        left
        refine ⟨by simp [Event.terminates], (World.terminalRefusal_none free).2, ?_⟩
        simp [World.closeActivation, World.setActivation]
      · right
        refine ⟨by simp [Event.terminates, same], ?_⟩
        simp [World.closeActivation, World.setActivation, Ne.symm same]

variable {detachedStore : ℕ → String} {events : List (Event Failure Context)}

/-- The terminals admitted in a run are counted by the activation's own cell. -/
theorem run_terminals (run : Run (World.empty detachedStore) events world)
    (activation : RequestActivation) :
    events.countP (Event.terminates activation) =
      if (world.activations activation).terminal.isSome then 1 else 0 := by
  apply run.history (fun events world => events.countP (Event.terminates activation) =
    if (world.activations activation).terminal.isSome then 1 else 0)
  · simp [World.empty]
  · intro events world event next counted taken
    rw [List.countP_append, counted, List.countP_singleton]
    rcases taken.terminal activation with ⟨ended, opened, closed⟩ | ⟨other, same⟩
    · simp [ended, opened, closed]
    · simp [other, same]

theorem run_bound (run : Run (World.empty detachedStore) events world) : world.Bound := by
  apply run.invariant World.Bound
  · refine ⟨by simp [World.empty], by simp [World.empty], ?_⟩
    intro scheduler operation entry activation found
    simp [World.empty] at found
  · intro world event next bound taken
    exact taken.bound bound

end Steps

section Starting

variable {terminal : Option OperationId} {slot next : Slot Failure Context}
  {answer : Answer Failure Context}

/-- The task of a domain job does not start it once its activation is closed. -/
theorem TaskStep.unstarted (taken : TaskStep terminal slot answer next)
    (closed : terminal.isSome) (domain : slot.job.role = .domain) :
    next.job.started = slot.job.started := by
  cases taken with
  | start => simp [Job.start, closed, domain]
  | capture result =>
    simp only [Job.capture]
    split <;> rfl
  | settle output _ drained =>
    simp only [Job.settle]
    split <;> rfl
  | _ => rfl

theorem CallStep.unstarted [DecidableEq Failure] {current : Call Failure Context}
    {left : Option (Call Failure Context)}
    (taken : CallStep terminal slot current answer next left) :
    next.job.started = slot.job.started := by
  cases taken with
  | cancelAdmit cause =>
    simp only [Job.admitCancellation]
    split <;> rfl
  | ownerRecord ack completion drained =>
    simp only [Job.recordAnswer]
    split <;> rfl
  | ownerOvertaken ack completion drained =>
    simp only [Job.recordAnswer]
    split <;> rfl
  | cancelUnowned drained =>
    simp only [Job.cancelUnowned]
    split <;> rfl
  | _ => rfl

theorem EntryStep.unstarted [DecidableEq Failure] {entry next : Entry Failure Context}
    (taken : EntryStep terminal entry answer next) (closed : terminal.isSome)
    (domain : entry.slot.job.role = .domain) :
    next.slot.job.started = entry.slot.job.started := by
  cases taken with
  | task calls taken => exact taken.unstarted closed domain
  | call before after taken => exact taken.unstarted
  | release _ context =>
    simp only [Job.release]
    split
    · rfl
    · split <;> rfl
  | claim _ claimant =>
    simp only [Job.claim]
    split <;> rfl
  | attach _ claimant =>
    simp only [Job.forkOwnedAttachment]
    split
    · rfl
    · dsimp only
      split <;> rfl
  | commit _ drained =>
    simp only [Job.markOutputCommitted]
    split
    · rfl
    · split <;> rfl
  | _ => rfl

end Starting

/-- A job is in the inventory as queued or running while it has no output, and as
unconfirmed while its output does not prove that it stopped. -/
theorem pendingInvocation_iff {activation : RequestActivation} {operation : OperationId}
    {job : Job Failure Context} {pending : PendingInvocation} :
    pendingInvocation activation operation job = some pending ↔
      job.activation = some activation ∧ job.role = .domain ∧
        pending.operation = operation ∧ pending.name = job.name ∧
        (job.output = none ∧ pending.state = (if job.started then .running else .queued) ∨
          (job.output = some .interrupted ∨
            ∃ failure, job.output = some (.cancellationUnconfirmed failure)) ∧
          pending.state = .unconfirmed) := by
  obtain ⟨id, name, state⟩ := pending
  unfold pendingInvocation
  split
  · rename_i domain
    simp only [domain.1, domain.2, true_and, Job.pending]
    have shape : ∀ state' : InvocationState,
        some (⟨operation, job.name, state'⟩ : PendingInvocation) = some ⟨id, name, state⟩ ↔
          id = operation ∧ name = job.name ∧ state = state' := by
      intro state'
      simp only [Option.some.injEq, PendingInvocation.mk.injEq]
      constructor <;> exact fun same => ⟨same.1.symm, same.2.1.symm, same.2.2.symm⟩
    rcases job.output with _ | output
    · simp [shape]
    · cases output <;> simp [shape]
  · rename_i foreign
    simp only [reduceCtorEq, false_iff]
    intro held
    exact foreign ⟨held.1, held.2.1⟩

/-- The inventory has each pending domain job of the activation once, wherever it is
registered. -/
theorem World.Bound.inventory {world : World Failure Context} {scheduler : ℕ}
    {activation : RequestActivation} {inventory : List PendingInvocation} (bound : world.Bound)
    (owner : (world.activations activation).scheduler = some scheduler)
    (offered : world.IsInventory scheduler activation inventory) :
    inventory.Nodup ∧ ∀ pending, pending ∈ inventory ↔ ∃ other operation entry,
      world.jobs other operation = some entry ∧
        pendingInvocation activation operation entry.slot.job = some pending := by
  obtain ⟨order, _⟩ := offered
  constructor
  · rw [order.nodup_iff]
    apply List.Nodup.filterMap _ (bound.nodup scheduler)
    intro first second pending firstHeld secondHeld
    obtain ⟨_, _, firstPending⟩ := Option.bind_eq_some_iff.mp firstHeld
    obtain ⟨_, _, secondPending⟩ := Option.bind_eq_some_iff.mp secondHeld
    have firstNamed := (pendingInvocation_iff.mp firstPending).2.2.1
    have secondNamed := (pendingInvocation_iff.mp secondPending).2.2.1
    exact firstNamed.symm.trans secondNamed
  · intro pending
    rw [order.mem_iff, List.mem_filterMap]
    constructor
    · intro listed
      obtain ⟨operation, _, held⟩ := listed
      obtain ⟨entry, found, shown⟩ := Option.bind_eq_some_iff.mp held
      exact ⟨scheduler, operation, entry, found, shown⟩
    · intro registered
      obtain ⟨other, operation, entry, found, shown⟩ := registered
      have own := bound.owner found (pendingInvocation_iff.mp shown).1
      obtain rfl : scheduler = other := Option.some.inj (owner.symm.trans own)
      refine ⟨operation, ?_, ?_⟩
      · rw [bound.keys, found]
        rfl
      · rw [found]
        exact shown

section Fence

variable [DecidableEq Failure] {world next : World Failure Context}
  {event : Event Failure Context} {activation : RequestActivation} {scheduler : ℕ}
  {operation : OperationId} {entry : Entry Failure Context}

/-- A domain job that a step leaves under a closed activation was registered before,
and was started before if it is started now. -/
theorem Step.fenced (taken : Step world event next)
    (closed : (world.activations activation).terminal.isSome)
    (found : next.jobs scheduler operation = some entry)
    (named : entry.slot.job.activation = some activation)
    (domain : entry.slot.job.role = .domain) :
    ∃ earlier, world.jobs scheduler operation = some earlier ∧
      (entry.slot.job.started = true → earlier.slot.job.started = true) := by
  rcases before : world.jobs scheduler operation with _ | earlier
  · exfalso
    cases taken with
    | register other admission =>
      obtain ⟨_, _, ⟨jobs, _⟩ | ⟨_, jobs, _, passed⟩⟩ := world.admitOperation_spec other admission
      · simp [jobs, before] at found
      · rw [jobs, World.setEntry_jobs] at found
        split at found
        · cases found
          have opened := (passed activation named).2 domain
          simp [opened] at closed
        · simp [before] at found
    | entry other id earlier after answer held stepped =>
      rw [World.setEntry_jobs] at found
      split at found
      · rename_i here
        obtain ⟨rfl, rfl⟩ := here
        simp [before] at held
      · simp [before] at found
    | refuse => simp [before] at found
    | contend => simp [before] at found
    | claim _ _ _ _ accepted =>
      have same : world.jobs scheduler operation = some entry := by
        split at found <;> exact found
      simp [before] at same
  · refine ⟨earlier, rfl, ?_⟩
    rcases taken.entry_kept before with ⟨_, same⟩ | ⟨answer, after, _, stepped, now⟩
    · cases same.symm.trans found
      exact id
    · cases now.symm.trans found
      have extended := stepped.extends.2
      have terminal : (world.terminalOf earlier.slot.job).isSome := by
        simpa [World.terminalOf, ← extended.activation, named] using closed
      rw [stepped.unstarted terminal (extended.role.symm.trans domain)]
      exact id

/-- The fence of an activation, over every run on any number of schedulers. -/
theorem activation_fenced {detachedStore : ℕ → String} {events : List (Event Failure Context)}
    (run : Run (World.empty detachedStore) events world) (activation : RequestActivation) :
    events.countP (Event.terminates activation) ≤ 1 ∧
    (0 < events.countP (Event.terminates activation) → ∀ event next, Step world event next →
      ∀ scheduler operation entry, next.jobs scheduler operation = some entry →
        entry.slot.job.activation = some activation → entry.slot.job.role = .domain →
        ∃ earlier, world.jobs scheduler operation = some earlier ∧
          (entry.slot.job.started = true → earlier.slot.job.started = true)) ∧
    ∀ scheduler operation inventory accepted next,
      Step world (.claimed scheduler operation activation inventory accepted) next →
      (∃ entry, world.jobs scheduler operation = some entry ∧
        entry.slot.job.activation = some activation ∧ entry.slot.job.role = .settlement ∧
        entry.slot.job.started = true ∧ entry.slot.job.output = none) ∧
      events.countP (Event.terminates activation) = 0 ∧
      inventory.Nodup ∧ inventory.Pairwise PendingInvocation.le ∧
      (∀ pending, pending ∈ inventory ↔ ∃ other id entry, world.jobs other id = some entry ∧
        entry.slot.job.activation = some activation ∧ entry.slot.job.role = .domain ∧
        pending.operation = id ∧ pending.name = entry.slot.job.name ∧
        (entry.slot.job.output = none ∧
            pending.state = (if entry.slot.job.started then .running else .queued) ∨
          (entry.slot.job.output = some .interrupted ∨
            ∃ failure, entry.slot.job.output = some (.cancellationUnconfirmed failure)) ∧
          pending.state = .unconfirmed)) ∧
      (accepted = false → next = world) := by
  have terminals := run_terminals run activation
  refine ⟨?_, ?_, ?_⟩
  · rw [terminals]
    split <;> simp
  · intro ended event next taken scheduler operation entry found named domain
    rw [terminals] at ended
    split at ended
    · rename_i closed
      exact taken.fenced closed found named domain
    · simp at ended
  · intro scheduler operation inventory accepted next taken
    cases taken with
    | claim _ _ _ _ _ free offered =>
      obtain ⟨⟨own, found, named, rest⟩, opened⟩ := World.terminalRefusal_none free
      have bound := run_bound run
      obtain ⟨nodup, members⟩ := bound.inventory (bound.owner found named) offered
      refine ⟨⟨own, found, named, rest⟩, ?_, nodup, offered.2, ?_, ?_⟩
      · rw [terminals]
        simp [opened]
      · intro pending
        simp only [members, pendingInvocation_iff]
      · intro refused
        simp [refused]

end Fence

/-- An operation that settles the request of its activation. -/
def settlementOperation : Admission :=
  { queuedOperation with activation := some ⟨0⟩, role := .settlement }

/-- The entry of the settlement operation while its provider is called. -/
def settlementStarted : Entry String Unit where
  slot := { (World.newEntry settlementOperation : Entry String Unit).slot with
    job := { (World.newEntry settlementOperation : Entry String Unit).slot.job with
      launch := false, started := true }
    task := .calling }

/-- The settlement operation is registered and started, and a terminal is admitted. -/
theorem settlementOperation_terminated :
    ∃ events world, Run (World.empty fun _ => "store") events world ∧
      world.jobs 0 settlementOperation.operation = some settlementStarted ∧
      events.countP (Event.terminates ⟨0⟩) = 1 := by
  have registered : Run (World.empty fun _ => "store" : World String Unit) _ _ :=
    .next (.start _) (.register _ 0 settlementOperation)
  have released := registered.next
    (.entry _ 0 settlementOperation.operation _ _ _ rfl (.release _ false))
  have proceeded := released.next
    (.entry _ 0 settlementOperation.operation _ _ _ rfl (.task [] (.proceed _ rfl)))
  have started := proceeded.next
    (.entry _ 0 settlementOperation.operation _ _ _ rfl (.task [] (.start _ rfl)))
  have ended := started.next
    (.claim _ 0 settlementOperation.operation ⟨0⟩ [] true rfl ⟨.refl _, .nil⟩)
  exact ⟨_, _, ended, rfl, rfl⟩

/-- After that terminal the next step neither registers nor starts domain work. -/
theorem activation_fenced_terminated :
    ∃ events world, Run (World.empty fun _ => "store") events (world : World String Unit) ∧
      ∀ event next, Step world event next →
        ∀ scheduler operation entry, next.jobs scheduler operation = some entry →
          entry.slot.job.activation = some ⟨0⟩ → entry.slot.job.role = .domain →
          ∃ earlier, world.jobs scheduler operation = some earlier ∧
            (entry.slot.job.started = true → earlier.slot.job.started = true) := by
  obtain ⟨events, world, run, _, terminated⟩ := settlementOperation_terminated
  exact ⟨events, world, run, (activation_fenced run ⟨0⟩).2.1 (by simp [terminated])⟩

end ExomonadHarness.Scheduler
