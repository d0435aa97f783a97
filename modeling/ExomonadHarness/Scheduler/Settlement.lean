import ExomonadHarness.Scheduler.World

/-! An output is written once. Whatever else happens on the scheduler, it stays and
every observer of the operation is given it, once it may be seen. -/

namespace ExomonadHarness.Scheduler

variable {Failure Context : Type}

/-- What no section of the scheduler undoes. -/
structure Job.Extends (old new : Job Failure Context) : Prop where
  name : new.name = old.name
  activation : new.activation = old.activation
  role : new.role = old.role
  requiresPublication : new.requiresPublication = old.requiresPublication
  started : old.started = true → new.started = true
  published : old.published = true → new.published = true
  output : ∀ output, old.output = some output → new.output = some output

namespace Job

variable (job : Job Failure Context)

theorem Extends.refl : job.Extends job :=
  ⟨rfl, rfl, rfl, rfl, id, id, fun _ held => held⟩

/-- A change of the fields that say nothing of an operation's progress. The output of an
unsettled job may be written. -/
theorem Extends.of_eq {new : Job Failure Context} (name : new.name = job.name)
    (activation : new.activation = job.activation) (role : new.role = job.role)
    (requiresPublication : new.requiresPublication = job.requiresPublication)
    (started : new.started = job.started) (published : new.published = job.published)
    (output : job.output = none ∨ new.output = job.output) : job.Extends new := by
  refine ⟨name, activation, role, requiresPublication, fun held => started.trans held,
    fun held => published.trans held, fun earlier held => ?_⟩
  rcases output with unsettled | same
  · cases unsettled.symm.trans held
  · exact same.trans held

theorem extends_claim (claimant : ConversationIdentity) :
    job.Extends (job.claim claimant).2 := by
  unfold claim
  split
  · exact Extends.refl job
  · exact Extends.of_eq job rfl rfl rfl rfl rfl rfl (.inr rfl)

theorem extends_forkOwnedAttachment (origin claimant : ConversationIdentity)
    (taskFinished : Bool) :
    job.Extends (job.forkOwnedAttachment origin claimant taskFinished).2 := by
  unfold forkOwnedAttachment
  dsimp only
  split
  · exact Extends.refl job
  · dsimp only
    split
    · exact Extends.of_eq job rfl rfl rfl rfl rfl rfl (.inr rfl)
    · exact Extends.refl job

theorem extends_markOutputCommitted (drained : List ConversationIdentity) :
    job.Extends (job.markOutputCommitted drained).2 := by
  unfold markOutputCommitted
  split
  · exact Extends.refl job
  · split
    · exact Extends.refl job
    · exact ⟨rfl, rfl, rfl, rfl, id, fun _ => rfl, fun _ held => held⟩

theorem extends_settle (output : JobOutput Failure)
    (providerCompletion : Option (Except Failure Json.Value))
    (drained : List ConversationIdentity) :
    job.Extends (job.settle output providerCompletion drained).2 := by
  unfold settle
  dsimp only
  split
  · exact Extends.of_eq job rfl rfl rfl rfl rfl rfl (.inr rfl)
  · rename_i unsettled
    exact Extends.of_eq job rfl rfl rfl rfl rfl rfl (.inl unsettled)

theorem extends_start (closed : Bool) : job.Extends (job.start closed).2 := by
  unfold start
  split
  · exact Extends.refl job
  · exact ⟨rfl, rfl, rfl, rfl, fun _ => rfl, id, fun _ held => held⟩

theorem extends_capture (result : ProviderCompletion Failure Context) :
    job.Extends (job.capture result) := by
  unfold capture
  split
  · exact Extends.of_eq job rfl rfl rfl rfl rfl rfl (.inr rfl)
  · exact Extends.refl job

theorem extends_release (context : Bool) : job.Extends (job.release context).2 := by
  unfold release
  split
  · exact Extends.refl job
  · split
    · exact Extends.of_eq job rfl rfl rfl rfl rfl rfl (.inr rfl)
    · exact Extends.refl job

theorem extends_admitCancellation (cause : CancellationCause) :
    job.Extends (job.admitCancellation cause).2 := by
  unfold admitCancellation
  split
  · exact Extends.refl job
  · exact Extends.of_eq job rfl rfl rfl rfl rfl rfl (.inr rfl)

theorem extends_recordAnswer (ack : CancellationAcknowledgment Failure)
    (completion : Option (ProviderCompletion Failure Context))
    (drained : List ConversationIdentity) :
    job.Extends (job.recordAnswer ack completion drained).2 := by
  unfold recordAnswer
  dsimp only
  split
  · exact Extends.of_eq job rfl rfl rfl rfl rfl rfl (.inr rfl)
  · rename_i unsettled
    have empty : job.output = none := by simpa using unsettled
    exact Extends.of_eq job rfl rfl rfl rfl rfl rfl (.inl empty)

theorem extends_cancelUnowned (drained : List ConversationIdentity) :
    job.Extends (job.cancelUnowned drained).2 := by
  unfold cancelUnowned
  split
  · exact Extends.refl job
  · rename_i unsettled
    have empty : job.output = none := by simpa using unsettled
    exact Extends.of_eq job rfl rfl rfl rfl rfl rfl (.inl empty)

end Job

variable {terminal : Option OperationId} {slot next : Slot Failure Context}
  {answer : Answer Failure Context}

theorem TaskStep.extends (taken : TaskStep terminal slot answer next) :
    next.operation = slot.operation ∧ slot.job.Extends next.job := by
  cases taken with
  | start => exact ⟨rfl, slot.job.extends_start _⟩
  | capture result => exact ⟨rfl, slot.job.extends_capture result⟩
  | settle output _ drained => exact ⟨rfl, slot.job.extends_settle output _ drained⟩
  | notify => exact ⟨rfl, Job.Extends.of_eq slot.job rfl rfl rfl rfl rfl rfl (.inr rfl)⟩
  | _ => exact ⟨rfl, Job.Extends.refl slot.job⟩

/-- A gate that is freed changes nothing else. -/
theorem Job.Extends.gate {old new : Job Failure Context} (extended : old.Extends new)
    (gate : Bool) : old.Extends { new with cancellationGate := gate } :=
  ⟨extended.name, extended.activation, extended.role, extended.requiresPublication,
    extended.started, extended.published, extended.output⟩

variable {current : Call Failure Context} {left : Option (Call Failure Context)}

theorem CallStep.extends [DecidableEq Failure]
    (taken : CallStep terminal slot current answer next left) :
    next.operation = slot.operation ∧ slot.job.Extends next.job := by
  cases taken with
  | cancelAdmit cause => exact ⟨rfl, slot.job.extends_admitCancellation cause⟩
  | ownerRecord ack completion drained =>
    exact ⟨rfl, slot.job.extends_recordAnswer ack completion drained⟩
  | ownerOvertaken ack completion drained =>
    exact ⟨rfl, (slot.job.extends_recordAnswer ack completion drained).gate false⟩
  | cancelUnowned drained => exact ⟨rfl, slot.job.extends_cancelUnowned drained⟩
  | _ => exact ⟨rfl, Job.Extends.of_eq slot.job rfl rfl rfl rfl rfl rfl (.inr rfl)⟩

theorem EntryStep.extends [DecidableEq Failure] {entry next : Entry Failure Context}
    (taken : EntryStep terminal entry answer next) :
    next.slot.operation = entry.slot.operation ∧ entry.slot.job.Extends next.slot.job := by
  cases taken with
  | task calls taken => exact taken.extends
  | call before after taken => exact taken.extends
  | release _ context => exact ⟨rfl, entry.slot.job.extends_release context⟩
  | claim _ claimant => exact ⟨rfl, entry.slot.job.extends_claim claimant⟩
  | attach _ claimant => exact ⟨rfl, entry.slot.job.extends_forkOwnedAttachment _ claimant _⟩
  | commit _ drained => exact ⟨rfl, entry.slot.job.extends_markOutputCommitted drained⟩
  | _ => exact ⟨rfl, Job.Extends.of_eq _ rfl rfl rfl rfl rfl rfl (.inr rfl)⟩

/-- The watched settlement and the one a task is about to announce are the output. -/
structure Slot.Announced (slot : Slot Failure Context) : Prop where
  settled : ∀ output, slot.job.settled = some output → slot.job.output = some output
  notifying : ∀ output, slot.task = .notifying output → slot.job.output = some output

theorem Slot.Announced.extend (announced : slot.Announced)
    (extended : slot.job.Extends next.job) (settled : next.job.settled = slot.job.settled)
    (task : next.task = slot.task ∨ ∀ output, next.task ≠ .notifying output) :
    next.Announced where
  settled := by
    intro output held
    rw [settled] at held
    exact extended.output output (announced.settled output held)
  notifying := by
    intro output standing
    rcases task with same | other
    · rw [same] at standing
      exact extended.output output (announced.notifying output standing)
    · exact absurd standing (other output)

theorem Job.settle_output (job : Job Failure Context) (output : JobOutput Failure)
    (providerCompletion : Option (Except Failure Json.Value))
    (drained : List ConversationIdentity) :
    (job.settle output providerCompletion drained).2.output =
        some (job.settle output providerCompletion drained).1 ∧
      (job.settle output providerCompletion drained).2.settled = job.settled := by
  unfold Job.settle
  dsimp only
  split
  · rename_i existing held
    exact ⟨held, rfl⟩
  · exact ⟨rfl, rfl⟩

theorem TaskStep.announced (taken : TaskStep terminal slot answer next)
    (announced : slot.Announced) : next.Announced := by
  have extended := taken.extends.2
  cases taken with
  | start =>
    apply announced.extend extended
    · simp only [Job.start]
      split <;> rfl
    · right
      intro output
      dsimp only
      split <;> simp
  | capture result =>
    apply announced.extend extended
    · simp only [Job.capture]
      split <;> rfl
    · exact .inr (by simp)
  | settle output _ drained =>
    obtain ⟨recorded, kept⟩ := slot.job.settle_output output output.result drained
    constructor
    · intro earlier held
      exact extended.output earlier (announced.settled earlier (kept ▸ held))
    · intro earlier standing
      cases standing
      exact recorded
  | notify output standing =>
    have held := announced.notifying output standing
    constructor
    · intro earlier shown
      cases shown
      exact held
    · simp
  | retained => exact announced.extend extended rfl (.inr (by simp))
  | proceed => exact announced.extend extended rfl (.inr (by simp))
  | finish => exact announced.extend extended rfl (.inr (by simp))
  | failed => exact announced.extend extended rfl (.inr (by simp))

/-- A section that writes the output also announces it. -/
theorem Job.recordAnswer_settled (job : Job Failure Context)
    (ack : CancellationAcknowledgment Failure)
    (completion : Option (ProviderCompletion Failure Context))
    (drained : List ConversationIdentity) :
    (job.recordAnswer ack completion drained).2.settled = job.settled ∨
      (job.recordAnswer ack completion drained).2.settled =
        (job.recordAnswer ack completion drained).2.output := by
  unfold Job.recordAnswer
  dsimp only
  split
  · exact .inl rfl
  · exact .inr rfl

theorem Job.cancelUnowned_settled (job : Job Failure Context)
    (drained : List ConversationIdentity) :
    (job.cancelUnowned drained).2.settled = job.settled ∨
      (job.cancelUnowned drained).2.settled = (job.cancelUnowned drained).2.output := by
  unfold Job.cancelUnowned
  split
  · exact .inl rfl
  · exact .inr rfl

theorem Slot.Announced.written (announced : slot.Announced)
    (extended : slot.job.Extends next.job) (task : next.task = slot.task)
    (settled : next.job.settled = slot.job.settled ∨ next.job.settled = next.job.output) :
    next.Announced := by
  rcases settled with kept | shown
  · exact announced.extend extended kept (.inl task)
  · constructor
    · intro output held
      exact shown ▸ held
    · intro output standing
      rw [task] at standing
      exact extended.output output (announced.notifying output standing)

theorem CallStep.announced [DecidableEq Failure]
    (taken : CallStep terminal slot current answer next left) (announced : slot.Announced) :
    next.Announced := by
  have extended := taken.extends.2
  cases taken with
  | cancelAdmit cause =>
    apply announced.extend extended
    · simp only [Job.admitCancellation]
      split <;> rfl
    · exact .inl rfl
  | ownerRecord ack completion drained =>
    exact announced.written extended rfl (slot.job.recordAnswer_settled ack completion drained)
  | ownerOvertaken ack completion drained =>
    exact announced.written extended rfl (slot.job.recordAnswer_settled ack completion drained)
  | cancelUnowned drained =>
    exact announced.written extended rfl (slot.job.cancelUnowned_settled drained)
  | ownerStop taken =>
    apply announced.extend extended rfl
    cases taken <;> simp
  | retryStop taken =>
    apply announced.extend extended rfl
    cases taken <;> simp
  | reap held =>
    apply announced.extend extended rfl
    cases held <;> simp
  | _ => exact announced.extend extended rfl (.inl rfl)

theorem EntryStep.announced [DecidableEq Failure] {entry next : Entry Failure Context}
    (taken : EntryStep terminal entry answer next) (announced : entry.slot.Announced) :
    next.slot.Announced := by
  have extended := taken.extends.2
  cases taken with
  | task calls taken => exact taken.announced announced
  | call before after taken => exact taken.announced announced
  | release _ context =>
    apply announced.extend extended
    · simp only [Job.release]
      split
      · rfl
      · split <;> rfl
    · dsimp only
      split <;> simp
  | claim _ claimant =>
    apply announced.extend extended
    · simp only [Job.claim]
      split <;> rfl
    · exact .inl rfl
  | attach _ claimant =>
    apply announced.extend extended
    · simp only [Job.forkOwnedAttachment]
      split
      · rfl
      · dsimp only
        split <;> rfl
    · exact .inl rfl
  | commit _ drained =>
    apply announced.extend extended
    · simp only [Job.markOutputCommitted]
      split
      · rfl
      · split <;> rfl
    · exact .inl rfl
  | _ => exact announced.extend extended rfl (.inl rfl)

/-- What an observer of a job with this output is told. A claim or a look is told
nothing while the job still owes its publication, the watch nothing before the
announcement. -/
def Answer.Reports (job : Job Failure Context) (output : JobOutput Failure) :
    Answer Failure Context → Prop
  | .claimed _ seen | .looked seen | .attached _ (.ok (seen, _)) =>
    seen = if job.requiresPublication && !job.published then none else some output
  | .waited seen | .settled seen _ => seen = output
  | .observed seen => seen = none ∨ seen = some output
  | _ => True

theorem Job.claim_visible (job : Job Failure Context) (claimant : ConversationIdentity) :
    (job.claim claimant).1 = job.visible := by
  unfold Job.claim
  split
  · rename_i output held
    exact held.symm
  · rename_i held
    exact held.symm

theorem Job.attachment_visible (job : Job Failure Context)
    (origin claimant : ConversationIdentity) (taskFinished : Bool)
    {seen : Option (JobOutput Failure)} {publication : Option FollowupPublicationState}
    (attached : (job.forkOwnedAttachment origin claimant taskFinished).1 =
      .ok (seen, publication)) : seen = job.visible := by
  unfold Job.forkOwnedAttachment at attached
  dsimp only at attached
  split at attached
  · simp at attached
  · simp only [Except.ok.injEq, Prod.mk.injEq] at attached
    exact attached.1.symm

theorem Job.visible_of_output {job : Job Failure Context} {output : JobOutput Failure}
    (held : job.output = some output) :
    job.visible = if job.requiresPublication && !job.published then none else some output := by
  rw [Job.visible, held]

theorem TaskStep.reports {output : JobOutput Failure} (taken : TaskStep terminal slot answer next)
    (held : slot.job.output = some output) : answer.Reports slot.job output := by
  cases taken with
  | settle recorded _ drained =>
    have settled := (slot.job.settle_output recorded recorded.result drained).1
    have kept := (slot.job.extends_settle recorded recorded.result drained).output output held
    exact Option.some.inj (settled.symm.trans kept)
  | _ => trivial

theorem CallStep.reports [DecidableEq Failure] {output : JobOutput Failure}
    (taken : CallStep terminal slot current answer next left) (held : slot.job.output = some output) :
    answer.Reports slot.job output := by
  cases taken with
  | ownerRecord ack completion drained _ shown recorded =>
    simp [Job.recordAnswer, held] at recorded
  | cancelUnowned drained _ shown recorded =>
    simp [Job.cancelUnowned, held] at recorded
  | _ => trivial

theorem EntryStep.reports [DecidableEq Failure] {entry next : Entry Failure Context}
    {output : JobOutput Failure} (taken : EntryStep terminal entry answer next)
    (announced : entry.slot.Announced) (held : entry.slot.job.output = some output) :
    answer.Reports entry.slot.job output := by
  have visible := Job.visible_of_output held
  cases taken with
  | task calls taken => exact taken.reports held
  | call before after taken => exact taken.reports held
  | claim _ claimant => exact (Job.claim_visible _ claimant).trans visible
  | attach _ claimant =>
    rcases attached : (entry.slot.job.forkOwnedAttachment entry.slot.operation.origin claimant
      entry.slot.task.isFinished).1 with error | ⟨seen, publication⟩
    · trivial
    · exact (Job.attachment_visible _ _ _ _ attached).trans visible
  | look => exact visible
  | wait _ seen ready =>
    have shown : entry.slot.job.output = some seen := by
      rcases ready with recorded | watched
      · exact recorded
      · exact announced.settled seen watched
    exact Option.some.inj (shown.symm.trans held)
  | observe =>
    rcases watched : entry.slot.job.settled with _ | seen
    · exact .inl rfl
    · exact .inr ((announced.settled seen watched).symm.trans held)
  | _ => trivial

section Runs

variable [DecidableEq Failure] {detachedStore : ℕ → String}
  {events later : List (Event Failure Context)} {world middle : World Failure Context}
  {scheduler : ℕ} {operation : OperationId} {entry : Entry Failure Context}

theorem run_announced (run : Run (World.empty detachedStore) events world)
    (found : world.jobs scheduler operation = some entry) : entry.slot.Announced := by
  apply run_entry (fun entry => entry.slot.Announced) _ _ run found
  · intro admission
    constructor <;> simp [World.newEntry]
  · intro terminal entry answer after announced taken
    exact taken.announced announced

theorem run_output {output : JobOutput Failure} (found : world.jobs scheduler operation = some entry)
    (held : entry.slot.job.output = some output) (rest : Run world later middle) :
    ∃ current, middle.jobs scheduler operation = some current ∧
      current.slot.job.output = some output := by
  apply rest.invariant (fun world => ∃ current, world.jobs scheduler operation = some current ∧
    current.slot.job.output = some output)
  · exact ⟨entry, found, held⟩
  · intro world event next earlier taken
    obtain ⟨current, found, held⟩ := earlier
    rcases taken.entry_kept found with ⟨_, same⟩ | ⟨answer, after, _, stepped, now⟩
    · exact ⟨current, same, held⟩
    · exact ⟨after, now, stepped.extends.2.output output held⟩

/-- The allowed steps on one operation that belongs to no activation. -/
abbrev EntryRun (allowed : Entry Failure Context → Answer Failure Context → Prop) :
    Entry Failure Context → List (Answer Failure Context) → Entry Failure Context → Prop :=
  Transition.Run fun entry answer next => EntryStep none entry answer next ∧ allowed entry answer

variable {allowed : Entry Failure Context → Answer Failure Context → Prop}
  {last : Entry Failure Context} {answers : List (Answer Failure Context)}

theorem EntryRun.step {current : Entry Failure Context} {answer : Answer Failure Context}
    (run : EntryRun allowed entry answers current) (taken : EntryStep none current answer last)
    (permitted : allowed current answer) :
    EntryRun allowed entry (answers ++ [answer]) last :=
  run.next ⟨taken, permitted⟩

/-- The steps of one operation without activation are steps of the world. -/
theorem run_of_entry (found : world.jobs scheduler operation = some entry)
    (free : entry.slot.job.activation = none) (steps : EntryRun allowed entry answers last) :
    ∃ next, Transition.Run (StepWhen allowed) world
        (answers.map (.stepped scheduler operation)) next ∧
      next.jobs scheduler operation = some last ∧ last.slot.job.activation = none := by
  induction steps with
  | start => exact ⟨world, .start world, found, free⟩
  | next earlier taken ih =>
    rename_i middle after answers answer
    obtain ⟨reached, run, now, unbound⟩ := ih
    have terminal : reached.terminalOf middle.slot.job = none := by
      simp [World.terminalOf, unbound]
    refine ⟨reached.setEntry scheduler operation after, ?_, by simp, ?_⟩
    · rw [List.map_append]
      refine run.next ⟨.entry reached scheduler operation middle after answer now
        (terminal ▸ taken.1), ?_⟩
      intro other id entry told said held
      simp only [Event.answer?] at said
      split at said
      · rename_i here
        obtain ⟨rfl, rfl⟩ := here
        cases said
        cases held.symm.trans now
        exact taken.2
      · simp at said
    · exact taken.1.extends.2.activation.trans unbound

/-- A fresh registration without activation and the allowed steps of its entry. -/
theorem run_of_admission (detachedStore : ℕ → String) (scheduler : ℕ) (admission : Admission)
    (free : admission.activation = none)
    (accepted : admission.refusal (detachedStore scheduler) = none)
    (steps : EntryRun allowed (World.newEntry admission) answers last) :
    ∃ events world, Transition.Run (StepWhen allowed) (World.empty detachedStore) events world ∧
      world.jobs scheduler admission.operation = some last ∧
      answersOf scheduler admission.operation events = answers := by
  have registered : ((World.empty detachedStore).admitOperation scheduler admission).2.jobs
      scheduler admission.operation =
        some (World.newEntry admission : Entry Failure Context) := by
    simp [World.admitOperation, World.fence, World.empty, free, accepted]
  obtain ⟨world, run, now, _⟩ := run_of_entry registered free steps
  have admitted : Transition.Run (StepWhen allowed) (World.empty detachedStore) _ _ :=
    .next (.start _) ⟨.register _ scheduler admission, fun _ _ _ _ said => by cases said⟩
  refine ⟨_, world, admitted.append run, now, ?_⟩
  exact answersOf_stepped scheduler admission.operation answers

theorem run_of_when (run : Transition.Run (StepWhen allowed) world later middle) :
    Run world later middle :=
  run.mono fun taken => taken.1

/-- An output that was recorded stays, and every later observer of the operation is
told it. -/
theorem output_final {output : JobOutput Failure}
    (run : Run (World.empty detachedStore) events world)
    (found : world.jobs scheduler operation = some entry)
    (held : entry.slot.job.output = some output) (rest : Run world later middle) :
    ∃ current, middle.jobs scheduler operation = some current ∧
      current.slot.job.output = some output ∧
      ∀ answer next, Step middle (.stepped scheduler operation answer) next →
        answer.Reports current.slot.job output := by
  obtain ⟨current, now, kept⟩ := run_output found held rest
  refine ⟨current, now, kept, ?_⟩
  intro answer next taken
  have announced := run_announced (run.append rest) now
  cases taken with
  | entry _ _ before after _ stood stepped =>
    cases stood.symm.trans now
    exact stepped.reports announced kept

end Runs

/-- An operation registered by the engine, which owes its publication. -/
def queuedOperation : Admission where
  operation := ⟨.standalone "store" "agent", "request", "call"⟩
  agent := "agent"
  request := none
  custom := false
  snapshot := none
  handle := "job"
  name := "tool"
  activation := none
  role := .domain
  requiresPublication := true
  cancellationOwner := false

/-- The queued operation is cancelled before it starts. -/
theorem queuedOperation_cancelled :
    ∃ answers last,
      EntryRun (fun _ _ => True) (World.newEntry queuedOperation : Entry String Unit) answers
        last ∧
        last.slot.job.output = some .cancelled ∧ last.slot.job.visible = none := by
  have asked : EntryRun (fun _ _ => True) (World.newEntry queuedOperation : Entry String Unit) _ _ :=
    EntryRun.step (.start _) (.cancel _ .unknown) trivial
  have gated := EntryRun.step asked (.call [] [] (.cancelGate _ .unknown rfl)) trivial
  have admitted := EntryRun.step gated
    (.call [] [] (.cancelAdmit _ .unknown .unknown false rfl)) trivial
  have settled := EntryRun.step admitted
    (.call [] [] (.cancelUnowned _ [] (.refl _) .cancelled rfl)) trivial
  exact ⟨_, _, settled, rfl, rfl⟩

/-- A look at a settled operation that still owes its publication finds nothing. -/
theorem output_unpublished :
    ∃ events world entry, Run (World.empty fun _ => "store") events world ∧
      world.jobs 0 queuedOperation.operation = some (entry : Entry String Unit) ∧
      entry.slot.job.output = some .cancelled ∧
      Step world (.stepped 0 queuedOperation.operation (.looked none))
        (world.setEntry 0 queuedOperation.operation entry) := by
  obtain ⟨answers, last, steps, held, hidden⟩ := queuedOperation_cancelled
  obtain ⟨events, world, run, found, _⟩ :=
    run_of_admission (fun _ => "store") 0 queuedOperation rfl (by decide) steps
  refine ⟨events, world, last, run_of_when run, found, held, ?_⟩
  have looked := Step.entry world 0 queuedOperation.operation last last
    (.looked last.slot.job.visible) found (.look last)
  rw [hidden] at looked
  exact looked

/-- The operation that was cancelled before it started stays cancelled. -/
theorem output_final_cancelled :
    ∃ events world current, Run (World.empty fun _ => "store") events world ∧
      world.jobs 0 queuedOperation.operation = some (current : Entry String Unit) ∧
      current.slot.job.output = some .cancelled ∧
      ∀ answer next, Step world (.stepped 0 queuedOperation.operation answer) next →
        answer.Reports current.slot.job .cancelled := by
  obtain ⟨answers, last, steps, held, _⟩ := queuedOperation_cancelled
  obtain ⟨events, world, run, found, _⟩ :=
    run_of_admission (fun _ => "store") 0 queuedOperation rfl (by decide) steps
  obtain ⟨current, now, kept, reports⟩ := output_final (run_of_when run) found held (.start world)
  exact ⟨events, world, current, run_of_when run, now, kept, reports⟩

end ExomonadHarness.Scheduler
