import ExomonadHarness.Scheduler.Settlement

/-! No false stop. A job with a cancellation owner is recorded as cancelled only if its
provider was never called, if the owner said that it stopped, or if the provider itself
returned a cancellation. The states an operation went through are kept beside the run. -/

namespace ExomonadHarness.Scheduler

variable {Failure Context : Type}

def JobOutput.isCancelled : JobOutput Failure → Bool
  | .cancelled | .cancelledWithReceipt _ => true
  | .completed _ | .interrupted | .cancellationUnconfirmed _ => false

/-- The answer of the owner that a call is working with. -/
def Call.ack : Call Failure Context → Option (CancellationAcknowledgment Failure)
  | .ownerAnswered ack _ | .ownerProjecting ack _ _ _ | .ownerRecording ack _ => some ack
  | _ => none

/-- The owner's answers in the hands of the calls and the one the job keeps. -/
def Entry.acks (entry : Entry Failure Context) : List (CancellationAcknowledgment Failure) :=
  entry.calls.filterMap Call.ack ++ entry.slot.job.cancellationAck.toList

section Visits

variable (seen : List (Entry Failure Context))

/-- `complete_call` was reached. -/
def Invoked : Prop := ∃ entry ∈ seen, entry.slot.task = .calling

/-- `complete_call` returned this output. -/
def Returned (output : JobOutput Failure) : Prop :=
  ∃ entry ∈ seen, ∃ result, entry.slot.task = .captured result ∧ result.output = output

def Answered (ack : CancellationAcknowledgment Failure) : Prop :=
  ∃ entry ∈ seen, ack ∈ entry.acks

/-- The output is what the provider returned or what the owner answered. -/
def Justified (output : JobOutput Failure) : Prop :=
  Returned seen output ∨ ∃ ack, Answered seen ack ∧ ack.output = output

variable {seen} {next : Entry Failure Context}

theorem invoked_append :
    Invoked (seen ++ [next]) ↔ Invoked seen ∨ next.slot.task = .calling := by
  simp [Invoked, or_and_right, exists_or]

theorem Returned.append {output : JobOutput Failure} (returned : Returned seen output) :
    Returned (seen ++ [next]) output := by
  obtain ⟨entry, member, result, standing, same⟩ := returned
  exact ⟨entry, List.mem_append_left _ member, result, standing, same⟩

theorem Justified.append {output : JobOutput Failure} (justified : Justified seen output) :
    Justified (seen ++ [next]) output := by
  rcases justified with returned | ⟨ack, ⟨entry, member, held⟩, same⟩
  · exact .inl returned.append
  · exact .inr ⟨ack, ⟨entry, List.mem_append_left _ member, held⟩, same⟩

end Visits

/-- What the standing of a task says of the start of its job. -/
def Task.Placed (seen : List (Entry Failure Context)) (started : Bool) :
    Task Failure Context → Prop
  | .gated | .launched | .ready => started = false
  | .calling => started = true
  | .captured result => started = true ∧ Returned seen result.output
  | .settling output => started = true → Returned seen output
  | .notifying _ | .finished => True

theorem Task.Placed.append {seen : List (Entry Failure Context)} {started : Bool}
    {task : Task Failure Context} {next : Entry Failure Context}
    (placed : task.Placed seen started) : task.Placed (seen ++ [next]) started := by
  cases task with
  | captured result => exact ⟨placed.1, placed.2.append⟩
  | settling output => exact fun started => (placed started).append
  | _ => exact placed

/-- The account of an owned job that was visited in these states. -/
structure Entry.Sound (seen : List (Entry Failure Context)) (entry : Entry Failure Context) :
    Prop where
  noted : entry ∈ seen
  invoked : entry.slot.job.started = true ↔ Invoked seen
  task : entry.slot.task.Placed seen entry.slot.job.started
  unowned : .cancelUnowned ∈ entry.calls →
    entry.slot.job.started = false ∧ entry.slot.job.cancel = true
  output : ∀ output, entry.slot.job.output = some output → Invoked seen → Justified seen output

namespace Entry

variable {seen : List (Entry Failure Context)} {entry next : Entry Failure Context}

/-- A step that neither starts the job nor leaves a cancellation of an unowned job. -/
theorem Sound.advance (sound : entry.Sound seen)
    (started : next.slot.job.started = entry.slot.job.started)
    (cancel : entry.slot.job.cancel = true → next.slot.job.cancel = true)
    (task : next.slot.task.Placed (seen ++ [next]) entry.slot.job.started)
    (calls : .cancelUnowned ∈ next.calls → .cancelUnowned ∈ entry.calls)
    (output : ∀ output, next.slot.job.output = some output → Invoked seen →
      Justified seen output) : next.Sound (seen ++ [next]) := by
  have same : Invoked (seen ++ [next]) ↔ Invoked seen := by
    rw [invoked_append]
    refine ⟨?_, .inl⟩
    intro reached
    rcases reached with earlier | now
    · exact earlier
    · rw [now] at task
      exact sound.invoked.mp task
  refine ⟨by simp, ?_, ?_, ?_, ?_⟩
  · rw [started, same]
    exact sound.invoked
  · rw [started]
    exact task
  · intro member
    obtain ⟨idle, cancelled⟩ := sound.unowned (calls member)
    exact ⟨started.trans idle, cancel cancelled⟩
  · intro recorded held reached
    exact (output recorded held (same.mp reached)).append

/-- A step that leaves the output as it is. -/
theorem Sound.keep (sound : entry.Sound seen)
    (started : next.slot.job.started = entry.slot.job.started)
    (cancel : entry.slot.job.cancel = true → next.slot.job.cancel = true)
    (task : next.slot.task = entry.slot.task ∨ next.slot.task.isFinished = true)
    (calls : .cancelUnowned ∈ next.calls → .cancelUnowned ∈ entry.calls)
    (output : next.slot.job.output = entry.slot.job.output) : next.Sound (seen ++ [next]) := by
  refine sound.advance started cancel ?_ calls ?_
  · rcases task with same | ended
    · rw [same]
      exact sound.task.append
    · cases standing : next.slot.task <;> simp_all [Task.isFinished, Task.Placed]
  · intro recorded held
    exact sound.output recorded (output ▸ held)

end Entry

section Steps

variable {terminal : Option OperationId} {seen : List (Entry Failure Context)}
  {slot next : Slot Failure Context} {answer : Answer Failure Context}

theorem Job.start_cases (job : Job Failure Context) (closed : Bool) :
    job.start closed = (true, job) ∨
      job.start closed = (false, { job with started := true }) ∧ job.output = none ∧
        job.cancel = false := by
  unfold Job.start
  split
  · exact .inl rfl
  · rename_i free
    simp only [Bool.or_eq_true, not_or, Bool.not_eq_true, Option.isSome_eq_false_iff,
      Option.isNone_iff_eq_none] at free
    exact .inr ⟨rfl, free.1.1, free.1.2⟩

theorem TaskStep.sound {calls : List (Call Failure Context)}
    (taken : TaskStep terminal slot answer next) (sound : Entry.Sound seen ⟨slot, calls⟩) :
    Entry.Sound (seen ++ [⟨next, calls⟩]) ⟨next, calls⟩ := by
  have placed := sound.task
  have kept := sound.output
  cases taken with
  | retained standing output =>
    rw [standing] at placed
    refine sound.advance rfl id ?_ id kept
    intro started
    cases Eq.trans (Eq.symm placed) started
  | proceed standing =>
    rw [standing] at placed
    exact sound.advance rfl id placed id kept
  | start standing =>
    rw [standing] at placed
    rcases slot.job.start_cases terminal.isSome with refused | ⟨accepted, unsettled, running⟩
    · simp only [refused, ↓reduceIte]
      refine sound.advance rfl id ?_ id kept
      intro started
      cases Eq.trans (Eq.symm placed) started
    · simp only [accepted, Bool.false_eq_true, ↓reduceIte]
      refine ⟨by simp, ?_, rfl, ?_, ?_⟩
      · simp [invoked_append]
      · intro member
        have cancelled := (sound.unowned member).2
        simp [running] at cancelled
      · intro output held
        simp [unsettled] at held
  | finish standing result =>
    rw [standing] at placed
    refine sound.advance rfl id ⟨placed, ?_⟩ id kept
    exact ⟨_, List.mem_append_right _ (List.mem_singleton_self _), _, rfl, rfl⟩
  | capture result standing =>
    rw [standing] at placed
    have same : (slot.job.capture result).started = slot.job.started ∧
        (slot.job.capture result).cancel = slot.job.cancel ∧
        (slot.job.capture result).output = slot.job.output := by
      unfold Job.capture
      split <;> exact ⟨rfl, rfl, rfl⟩
    refine sound.advance same.1 same.2.1.trans ?_ id ?_
    · exact fun _ => placed.2.append
    · intro output held
      exact kept output (same.2.2.symm.trans held)
  | settle output standing drained =>
    rw [standing] at placed
    rcases held : slot.job.output with _ | existing
    · simp only [Job.settle, held]
      refine sound.advance rfl id trivial id ?_
      intro recorded written reached
      cases written
      exact .inl (placed (sound.invoked.mpr reached))
    · simp only [Job.settle, held]
      refine sound.advance rfl id trivial id ?_
      intro recorded written
      exact kept recorded (held.trans written)
  | notify output standing => exact sound.keep rfl id (.inr rfl) id rfl
  | failed standing => exact sound.keep rfl id (.inr rfl) id rfl

variable {current : Call Failure Context} {left : Option (Call Failure Context)}

/-- A call that goes on elsewhere leaves no new cancellation of an unowned job. -/
theorem unowned_of_left {before after : List (Call Failure Context)}
    (other : left ≠ some .cancelUnowned) (member : .cancelUnowned ∈ before ++ left.toList ++ after) :
    .cancelUnowned ∈ before ++ current :: after := by
  simp only [List.append_assoc, List.mem_append, Option.mem_toList] at member
  rcases member with early | here | late
  · exact List.mem_append_left _ early
  · exact absurd here other
  · exact List.mem_append_right _ (List.mem_cons_of_mem _ late)

theorem Job.recordAnswer_cases (job : Job Failure Context)
    (ack : CancellationAcknowledgment Failure)
    (completion : Option (ProviderCompletion Failure Context))
    (drained : List ConversationIdentity) :
    (job.recordAnswer ack completion drained).2.started = job.started ∧
      (job.recordAnswer ack completion drained).2.cancel = job.cancel ∧
      ((job.recordAnswer ack completion drained).2.output = job.output ∨
        (job.recordAnswer ack completion drained).2.output = some ack.output) := by
  unfold Job.recordAnswer
  dsimp only
  split
  · exact ⟨rfl, rfl, .inl rfl⟩
  · exact ⟨rfl, rfl, .inr rfl⟩

theorem Entry.Sound.answered {before after : List (Call Failure Context)}
    {ack : CancellationAcknowledgment Failure}
    {completion : Option (ProviderCompletion Failure Context)}
    (sound : Entry.Sound seen ⟨slot, before ++ .ownerRecording ack completion :: after⟩)
    (drained : List ConversationIdentity) (output : JobOutput Failure)
    (held : (slot.job.recordAnswer ack completion drained).2.output = some output)
    (reached : Invoked seen) : Justified seen output := by
  rcases (slot.job.recordAnswer_cases ack completion drained).2.2 with same | written
  · exact sound.output output (same.symm.trans held) reached
  · refine .inr ⟨ack, ⟨_, sound.noted, ?_⟩, Option.some.inj (written.symm.trans held)⟩
    simp [Entry.acks, Call.ack]

theorem CallStep.sound [DecidableEq Failure] {before after : List (Call Failure Context)}
    (taken : CallStep terminal slot current answer next left)
    (owner : slot.job.cancellationOwner = true)
    (sound : Entry.Sound seen ⟨slot, before ++ current :: after⟩) :
    Entry.Sound (seen ++ [⟨next, before ++ left.toList ++ after⟩])
      ⟨next, before ++ left.toList ++ after⟩ := by
  cases taken with
  | cancelAdmit cause admitted owned decision =>
    rcases held : slot.job.output with _ | existing
    · simp only [Job.admitCancellation, held, Option.isSome_none, Bool.false_eq_true, ↓reduceIte,
        Option.some.injEq, Prod.mk.injEq, owner, Bool.and_true] at decision ⊢
      obtain ⟨running, -⟩ := decision
      cases owned
      · refine ⟨by simp, ?_, sound.task.append, ?_, ?_⟩
        · rw [invoked_append]
          have idle := sound.task
          refine ⟨fun started => .inl (sound.invoked.mp started), ?_⟩
          intro reached
          rcases reached with earlier | now
          · exact sound.invoked.mpr earlier
          · dsimp only at now idle
            rw [now] at idle
            exact idle
        · exact fun _ => ⟨running, rfl⟩
        · simp
      · refine sound.keep rfl (fun _ => rfl) (.inl rfl) (unowned_of_left (by simp)) ?_
        exact held.symm
    · simp [Job.admitCancellation, held] at decision
  | ownerRecord ack completion drained =>
    obtain ⟨started, cancel, _⟩ := slot.job.recordAnswer_cases ack completion drained
    exact sound.advance started cancel.trans sound.task.append (unowned_of_left (by simp))
      (sound.answered drained)
  | ownerOvertaken ack completion drained =>
    obtain ⟨started, cancel, _⟩ := slot.job.recordAnswer_cases ack completion drained
    exact sound.advance started cancel.trans sound.task.append (unowned_of_left (by simp))
      (sound.answered drained)
  | cancelUnowned drained order output recorded =>
    have idle := (sound.unowned (by simp)).1
    have same : (slot.job.cancelUnowned drained).2.started = slot.job.started ∧
        (slot.job.cancelUnowned drained).2.cancel = slot.job.cancel := by
      unfold Job.cancelUnowned
      split <;> exact ⟨rfl, rfl⟩
    refine sound.advance same.1 same.2.trans sound.task.append (unowned_of_left (by simp)) ?_
    intro _ _ reached
    cases idle.symm.trans (sound.invoked.mpr reached)
  | ownerStop taken =>
    refine sound.keep rfl id ?_ (unowned_of_left (by simp)) rfl
    cases taken <;> simp [Task.isFinished]
  | retryStop taken =>
    refine sound.keep rfl id ?_ (unowned_of_left (by simp)) rfl
    cases taken <;> simp [Task.isFinished]
  | reap held =>
    refine sound.keep rfl (fun _ => rfl) ?_ (unowned_of_left (by simp)) rfl
    cases held <;> simp [Task.isFinished]
  | askOwner =>
    exact sound.keep rfl (fun _ => rfl) (.inl rfl) (unowned_of_left (by simp)) rfl
  | _ => exact sound.keep rfl id (.inl rfl) (unowned_of_left (by simp)) rfl

theorem TaskStep.owner (taken : TaskStep terminal slot answer next) :
    next.job.cancellationOwner = slot.job.cancellationOwner := by
  cases taken with
  | start =>
    simp only [Job.start]
    split <;> rfl
  | capture result =>
    simp only [Job.capture]
    split <;> rfl
  | settle output =>
    simp only [Job.settle]
    split <;> rfl
  | _ => rfl

theorem CallStep.owner [DecidableEq Failure]
    (taken : CallStep terminal slot current answer next left) :
    next.job.cancellationOwner = slot.job.cancellationOwner := by
  cases taken with
  | cancelAdmit =>
    simp only [Job.admitCancellation]
    split <;> rfl
  | ownerRecord =>
    simp only [Job.recordAnswer]
    split <;> rfl
  | ownerOvertaken =>
    simp only [Job.recordAnswer]
    split <;> rfl
  | cancelUnowned =>
    simp only [Job.cancelUnowned]
    split <;> rfl
  | _ => rfl

theorem Job.release_cases (job : Job Failure Context) (context : Bool) :
    (job.release context).2.cancellationOwner = job.cancellationOwner ∧
      (job.release context).2.started = job.started ∧
      (job.release context).2.cancel = job.cancel ∧
      (job.release context).2.output = job.output := by
  unfold Job.release
  split
  · exact ⟨rfl, rfl, rfl, rfl⟩
  · split <;> exact ⟨rfl, rfl, rfl, rfl⟩

theorem Job.claim_cases (job : Job Failure Context) (claimant : ConversationIdentity) :
    (job.claim claimant).2 = job ∨ (job.claim claimant).2 = job.addClaimant claimant := by
  unfold Job.claim
  split
  · exact .inl rfl
  · exact .inr rfl

theorem Job.attachment_cases (job : Job Failure Context)
    (origin claimant : ConversationIdentity) (taskFinished : Bool) :
    (job.forkOwnedAttachment origin claimant taskFinished).2 = job ∨
      (job.forkOwnedAttachment origin claimant taskFinished).2 = job.addClaimant claimant := by
  unfold Job.forkOwnedAttachment
  dsimp only
  split
  · exact .inl rfl
  · dsimp only
    split
    · exact .inr rfl
    · exact .inl rfl

theorem Job.markOutputCommitted_cases (job : Job Failure Context)
    (drained : List ConversationIdentity) :
    (job.markOutputCommitted drained).2.cancellationOwner = job.cancellationOwner ∧
      (job.markOutputCommitted drained).2.started = job.started ∧
      (job.markOutputCommitted drained).2.cancel = job.cancel ∧
      (job.markOutputCommitted drained).2.output = job.output := by
  unfold Job.markOutputCommitted
  split
  · exact ⟨rfl, rfl, rfl, rfl⟩
  · split <;> exact ⟨rfl, rfl, rfl, rfl⟩

/-- A section on the claimants changes nothing that is accounted for. -/
theorem Entry.Sound.claimants {entry : Entry Failure Context} (sound : entry.Sound seen)
    {job : Job Failure Context} {claimant : ConversationIdentity}
    (changed : job = entry.slot.job ∨ job = entry.slot.job.addClaimant claimant) :
    Entry.Sound (seen ++ [{ entry with slot.job := job }]) { entry with slot.job := job } := by
  rcases changed with rfl | rfl
  · exact sound.keep rfl id (.inl rfl) id rfl
  · exact sound.keep rfl id (.inl rfl) id rfl

variable [DecidableEq Failure] {entry later : Entry Failure Context}

theorem EntryStep.owner (taken : EntryStep terminal entry answer later) :
    later.slot.job.cancellationOwner = entry.slot.job.cancellationOwner := by
  cases taken with
  | task calls taken => exact taken.owner
  | call before after taken => exact taken.owner
  | release _ context => exact (entry.slot.job.release_cases context).1
  | claim _ claimant =>
    rcases entry.slot.job.claim_cases claimant with same | added
    · exact congrArg Job.cancellationOwner same
    · exact (congrArg Job.cancellationOwner added).trans rfl
  | attach _ claimant =>
    rcases entry.slot.job.attachment_cases entry.slot.operation.origin claimant
      entry.slot.task.isFinished with same | added
    · exact congrArg Job.cancellationOwner same
    · exact (congrArg Job.cancellationOwner added).trans rfl
  | commit _ drained => exact (entry.slot.job.markOutputCommitted_cases drained).1
  | _ => rfl

theorem EntryStep.sound (taken : EntryStep terminal entry answer later)
    (owner : entry.slot.job.cancellationOwner = true) (sound : entry.Sound seen) :
    later.Sound (seen ++ [later]) := by
  cases taken with
  | task calls taken => exact taken.sound sound
  | call before after taken => exact taken.sound owner sound
  | dropped slot before after current =>
    refine sound.keep rfl id (.inl rfl) ?_ rfl
    intro member
    rcases List.mem_append.mp member with early | late
    · exact List.mem_append_left _ early
    · exact List.mem_append_right _ (List.mem_cons_of_mem _ late)
  | cancel => exact sound.keep rfl id (.inl rfl) (by simp) rfl
  | retry => exact sound.keep rfl id (.inl rfl) (by simp) rfl
  | complete => exact sound.keep rfl id (.inl rfl) (by simp) rfl
  | release _ context =>
    obtain ⟨_, started, cancel, output⟩ := entry.slot.job.release_cases context
    refine sound.advance started cancel.trans ?_ id ?_
    · have placed := sound.task
      dsimp only
      split
      · rename_i gated
        rw [gated] at placed
        exact placed
      · exact placed.append
    · intro recorded held
      exact sound.output recorded (output.symm.trans held)
  | claim _ claimant => exact sound.claimants (entry.slot.job.claim_cases claimant)
  | attach _ claimant => exact sound.claimants (entry.slot.job.attachment_cases _ claimant _)
  | commit _ drained =>
    obtain ⟨_, started, cancel, output⟩ := entry.slot.job.markOutputCommitted_cases drained
    exact sound.keep started cancel.trans (.inl rfl) id output
  | _ => exact sound.keep rfl id (.inl rfl) id rfl

end Steps

/-- The owner confirmed that the operation stopped. -/
def Stopped (seen : List (Entry Failure Context)) : Prop :=
  ∃ ack, Answered seen ack ∧ ack.isStopped = true

/-- The result of the provider: what its call returned, or what the owner reports as
the completion it had reached. -/
def Resulted (seen : List (Entry Failure Context)) (output : JobOutput Failure) : Prop :=
  Returned seen output ∨ ∃ result, Answered seen (.completed result) ∧ output = .completed result

theorem Justified.kinds {seen : List (Entry Failure Context)} {output : JobOutput Failure}
    (justified : Justified seen output) :
    Resulted seen output ∨ (Stopped seen ∧ output.isCancelled = true) ∨
      ∃ failure, output = .cancellationUnconfirmed failure := by
  rcases justified with returned | ⟨ack, answered, rfl⟩
  · exact .inl (.inl returned)
  · cases ack with
    | stopped => exact .inr (.inl ⟨⟨_, answered, rfl⟩, rfl⟩)
    | stoppedWithReceipt => exact .inr (.inl ⟨⟨_, answered, rfl⟩, rfl⟩)
    | completed result => exact .inl (.inr ⟨result, answered, rfl⟩)
    | unconfirmed failure => exact .inr (.inr ⟨failure, rfl⟩)

theorem newEntry_sound (admission : Admission) :
    (World.newEntry admission : Entry Failure Context).Sound [World.newEntry admission] := by
  refine ⟨by simp, ?_, rfl, by simp [World.newEntry], by simp [World.newEntry]⟩
  simp [Invoked, World.newEntry]

section Runs

variable [DecidableEq Failure] {scheduler : ℕ} {operation : OperationId}

/-- A step of the world, with the state in which it leaves an operation noted. -/
def WatchedStep (scheduler : ℕ) (operation : OperationId)
    (first : World Failure Context × List (Entry Failure Context))
    (event : Event Failure Context)
    (last : World Failure Context × List (Entry Failure Context)) : Prop :=
  Step first.1 event last.1 ∧ last.2 = first.2 ++ (last.1.jobs scheduler operation).toList

variable {detachedStore : ℕ → String} {events : List (Event Failure Context)}
  {world : World Failure Context} {seen : List (Entry Failure Context)}
  {entry : Entry Failure Context}

theorem watched_sound
    (run : Transition.Run (WatchedStep scheduler operation) (World.empty detachedStore, [])
      events (world, seen))
    (found : world.jobs scheduler operation = some entry)
    (owned : entry.slot.job.cancellationOwner = true) : entry.Sound seen := by
  have every := run.invariant (fun state =>
    (state.1.jobs scheduler operation = none → state.2 = []) ∧
      ∀ entry, state.1.jobs scheduler operation = some entry →
        entry.slot.job.cancellationOwner = true → entry.Sound state.2) ?_ ?_
  · exact every.2 entry found owned
  · simp [World.empty]
  · intro state event next earlier watched
    obtain ⟨taken, noted⟩ := watched
    rw [noted]
    rcases before : state.1.jobs scheduler operation with _ | old
    · obtain ⟨_, appeared⟩ := taken.entry_fresh before
      rw [earlier.1 before]
      refine ⟨fun absent => by simp [absent], ?_⟩
      intro entry now _
      obtain ⟨admission, _, rfl⟩ := appeared entry now
      rw [now]
      exact newEntry_sound admission
    · rcases taken.entry_kept before with ⟨_, same⟩ | ⟨answer, after, _, stepped, now⟩
      · rw [same]
        refine ⟨by simp, ?_⟩
        intro entry shown owned
        cases shown
        exact (earlier.2 old before owned).keep rfl id (.inl rfl) id rfl
      · rw [now]
        refine ⟨by simp, ?_⟩
        intro entry shown owned
        cases shown
        have held := stepped.owner.symm.trans owned
        exact stepped.sound held (earlier.2 old before held)

/-- An owned job whose provider returns no cancellation is recorded as cancelled only
if the provider was never called or the owner answered that it stopped. Otherwise what
is recorded is the provider's result or that the cancellation is unconfirmed. -/
theorem no_false_stop {output : JobOutput Failure}
    (run : Transition.Run (WatchedStep scheduler operation) (World.empty detachedStore, [])
      events (world, seen))
    (found : world.jobs scheduler operation = some entry)
    (owned : entry.slot.job.cancellationOwner = true)
    (honest : ∀ returned, Returned seen returned → returned.isCancelled = false)
    (held : entry.slot.job.output = some output) :
    (output.isCancelled = true → ¬ Invoked seen ∨ Stopped seen) ∧
      (Invoked seen → ¬ Stopped seen →
        Resulted seen output ∨ ∃ failure, output = .cancellationUnconfirmed failure) := by
  have account := (watched_sound run found owned).output output held
  constructor
  · intro cancelled
    by_cases invoked : Invoked seen
    · right
      rcases (account invoked).kinds with (returned | ⟨result, _, rfl⟩) | ⟨stopped, _⟩ | ⟨_, rfl⟩
      · cases (honest output returned).symm.trans cancelled
      · cases cancelled
      · exact stopped
      · cases cancelled
    · exact .inl invoked
  · intro invoked running
    rcases (account invoked).kinds with resulted | ⟨stopped, _⟩ | unconfirmed
    · exact .inl resulted
    · exact absurd stopped running
    · exact .inr unconfirmed

end Runs

/-- The steps of one operation without activation, watched in states that are all quiet. -/
theorem watched_of_entry [DecidableEq Failure] {scheduler : ℕ} {operation : OperationId}
    (quiet : Entry Failure Context → Prop) {world : World Failure Context}
    {entry last : Entry Failure Context} {seen : List (Entry Failure Context)}
    {answers : List (Answer Failure Context)}
    (found : world.jobs scheduler operation = some entry)
    (free : entry.slot.job.activation = none) (old : ∀ earlier ∈ seen, quiet earlier)
    (steps : Transition.Run (fun entry answer next => EntryStep none entry answer next ∧ quiet next)
      entry answers last) :
    ∃ next noted, Transition.Run (WatchedStep scheduler operation) (world, seen)
        (answers.map (.stepped scheduler operation)) (next, noted) ∧
      next.jobs scheduler operation = some last ∧ last.slot.job.activation = none ∧
      ∀ earlier ∈ noted, quiet earlier := by
  induction steps with
  | start => exact ⟨world, seen, .start _, found, free, old⟩
  | next earlier taken ih =>
    rename_i middle after answers answer
    obtain ⟨reached, noted, run, now, unbound, kept⟩ := ih
    have terminal : reached.terminalOf middle.slot.job = none := by
      simp [World.terminalOf, unbound]
    refine ⟨reached.setEntry scheduler operation after, noted ++ [after], ?_, by simp,
      taken.1.extends.2.activation.trans unbound, ?_⟩
    · rw [List.map_append]
      refine run.next ⟨.entry reached scheduler operation middle after answer now
        (terminal ▸ taken.1), ?_⟩
      simp
    · intro visited member
      rcases List.mem_append.mp member with before | last
      · exact kept visited before
      · cases List.mem_singleton.mp last
        exact taken.2

/-- The queued operation with an owner for its cancellation. -/
def ownedOperation : Admission := { queuedOperation with cancellationOwner := true }

/-- The provider has not returned. -/
def Entry.unreturned (entry : Entry Failure Context) : Bool :=
  match entry.slot.task with
  | .captured _ => false
  | _ => true

theorem not_returned_of_quiet {seen : List (Entry Failure Context)}
    (quiet : ∀ earlier ∈ seen, earlier.unreturned = true) (output : JobOutput Failure) :
    ¬ Returned seen output := by
  intro returned
  obtain ⟨entry, member, result, standing, _⟩ := returned
  have unreturned := quiet entry member
  simp [Entry.unreturned, standing] at unreturned

/-- The owned operation starts, and its owner cannot say whether it stopped. -/
theorem ownedOperation_unconfirmed :
    ∃ answers last, Transition.Run
        (fun entry answer next => EntryStep none entry answer next ∧ next.unreturned = true)
        (World.newEntry ownedOperation : Entry String Unit) answers last ∧
      last.slot.job.output = some (.cancellationUnconfirmed "lost") ∧
      last.slot.job.cancellationOwner = true := by
  have released : Transition.Run
      (fun entry answer next => EntryStep none entry answer next ∧ next.unreturned = true)
      (World.newEntry ownedOperation : Entry String Unit) _ _ :=
    .next (.start _) ⟨.release _ false, rfl⟩
  have ready := released.next ⟨.task [] (.proceed _ rfl), rfl⟩
  have started := ready.next ⟨.task [] (.start _ rfl), rfl⟩
  have asked := started.next ⟨.cancel _ .unknown, rfl⟩
  have gated := asked.next ⟨.call [] [] (.cancelGate _ .unknown rfl), rfl⟩
  have admitted := gated.next ⟨.call [] [] (.cancelAdmit _ .unknown .unknown true rfl), rfl⟩
  have owner := admitted.next ⟨.call [] [] (.askOwner _ rfl), rfl⟩
  have unconfirmed := owner.next
    ⟨.call [] [] (.ownerUnconfirmed _ (.unconfirmed "lost") rfl), rfl⟩
  have recorded := unconfirmed.next
    ⟨.call [] [] (.ownerRecord _ (.unconfirmed "lost") none [] (.refl _) _ rfl), rfl⟩
  exact ⟨_, _, recorded, rfl, rfl⟩

/-- A cancellation that the owner could not confirm is recorded as just that. -/
theorem no_false_stop_unconfirmed :
    ∃ events world seen entry, Transition.Run
        (WatchedStep 0 ownedOperation.operation) (World.empty fun _ => "store", []) events
          (world, seen) ∧
      world.jobs 0 ownedOperation.operation = some (entry : Entry String Unit) ∧
      entry.slot.job.output = some (.cancellationUnconfirmed "lost") ∧
      (Invoked seen → ¬ Stopped seen → Resulted seen (.cancellationUnconfirmed "lost") ∨
        ∃ failure, JobOutput.cancellationUnconfirmed "lost" =
          JobOutput.cancellationUnconfirmed failure) := by
  obtain ⟨answers, last, steps, held, owned⟩ := ownedOperation_unconfirmed
  let first : World String Unit := World.empty fun _ => "store"
  have registered : (first.admitOperation 0 ownedOperation).2.jobs 0 ownedOperation.operation =
      some (World.newEntry ownedOperation) := rfl
  have admitted : Transition.Run (WatchedStep 0 ownedOperation.operation) (first, [])
      [.admitted 0 ownedOperation (first.admitOperation 0 ownedOperation).1]
      ((first.admitOperation 0 ownedOperation).2, [World.newEntry ownedOperation]) :=
    .next (.start _) ⟨.register first 0 ownedOperation, rfl⟩
  have fresh : ∀ earlier ∈ [(World.newEntry ownedOperation : Entry String Unit)],
      earlier.unreturned = true := by
    simp [Entry.unreturned, World.newEntry]
  obtain ⟨world, seen, run, found, _, quiet⟩ :=
    watched_of_entry (fun entry => entry.unreturned = true) registered rfl fresh steps
  have whole := admitted.append run
  refine ⟨_, world, seen, last, whole, found, held, ?_⟩
  refine (no_false_stop whole found owned ?_ held).2
  intro output returned
  exact absurd returned (not_returned_of_quiet quiet output)

end ExomonadHarness.Scheduler
