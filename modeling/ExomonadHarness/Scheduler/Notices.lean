import ExomonadHarness.Scheduler.Settlement

/-! The settlement notices of one registered operation: which steps send one, and who
still owes one once an output can be seen. -/

namespace ExomonadHarness.Scheduler

variable {Failure Context : Type}

/-- What a step does on the settlement channel. A notice is forfeited when the step ends
the one that would have sent it. -/
inductive Signal where
  | silent | sent | forfeited
  deriving DecidableEq

def Task.notifies : Task Failure Context → Bool
  | .notifying _ => true
  | _ => false

/-- The task waits for something outside the scheduler, or has ended. -/
def Task.rests : Task Failure Context → Bool
  | .gated | .launched | .ready | .calling | .finished => true
  | _ => false

theorem Task.exists_of_notifies {task : Task Failure Context} (notifies : task.notifies = true) :
    ∃ output, task = .notifying output := by
  cases task with
  | notifying output => exact ⟨output, rfl⟩
  | _ => cases notifies

namespace Call

/-- Whether `cancel_with_cause` is to publish the event itself: its task is gone, failed or
had to be aborted. -/
def publishes (returned publish : Bool) : Call Failure Context → Bool
  | .reaping held => !(held && returned)
  | _ => publish

/-- What a call does on the channel in its next step, where `last` says that it returns. -/
def signal (publish last notifying : Bool) : Call Failure Context → Signal
  | .ownerStopping _ => .sent
  | .projecting => if publish && last then .sent else .silent
  | .masking _ => if publish then .sent else .silent
  | .retryStopping taken => if taken && notifying then .forfeited else .silent
  | _ => .silent

/-- The call has made an output visible and has not sent its notice. -/
def owes (returned publish : Bool) : Call Failure Context → Bool
  | .ownerStopping _ => true
  | .reaping held => !(held && returned)
  | .projecting | .masking _ => publish
  | _ => false

end Call

/-- A registered operation with whether its task ran to its end and, for each call in
progress, whether it is to publish the event. -/
structure Desk (Failure Context : Type) where
  slot : Slot Failure Context
  returned : Bool := false
  calls : List (Call Failure Context × Bool) := []

namespace Desk

def entry (desk : Desk Failure Context) : Entry Failure Context where
  slot := desk.slot
  calls := desk.calls.map Prod.fst

def visible (desk : Desk Failure Context) : Option (JobOutput Failure) :=
  desk.slot.job.visible

/-- Somebody is still to send a notice. -/
def Owes (desk : Desk Failure Context) : Prop :=
  desk.slot.task.notifies = true ∨ ∃ call ∈ desk.calls, call.1.owes desk.returned call.2 = true

/-- No call is in progress, and the task has ended or is parked. -/
def Quiet (desk : Desk Failure Context) : Prop :=
  desk.calls = [] ∧ desk.slot.task.rests = true

/-- Only the commit of an output that waited for it sends a notice. -/
def commitSignal (job : Job Failure Context) : Signal :=
  if job.output.isSome && !job.published && job.requiresPublication then .sent else .silent

end Desk

namespace Job

variable (job : Job Failure Context)

@[simp] theorem visible_start (closed : Bool) : (job.start closed).2.visible = job.visible := by
  unfold start
  split <;> rfl

@[simp] theorem visible_capture (result : ProviderCompletion Failure Context) :
    (job.capture result).visible = job.visible := by
  unfold capture
  split <;> rfl

@[simp] theorem visible_claim (claimant : ConversationIdentity) :
    (job.claim claimant).2.visible = job.visible := by
  unfold claim
  split <;> rfl

@[simp] theorem visible_forkOwnedAttachment (origin claimant : ConversationIdentity)
    (finished : Bool) :
    (job.forkOwnedAttachment origin claimant finished).2.visible = job.visible := by
  unfold forkOwnedAttachment
  dsimp only
  split
  case h_1 => rfl
  case h_2 =>
    dsimp only
    split <;> rfl

@[simp] theorem visible_release (context : Bool) :
    (job.release context).2.visible = job.visible := by
  unfold release
  split
  case isTrue => rfl
  case isFalse => split <;> rfl

@[simp] theorem visible_admitCancellation (cause : CancellationCause) :
    (job.admitCancellation cause).2.visible = job.visible := by
  unfold admitCancellation
  split <;> rfl

theorem visible_markOutputCommitted (drained : List ConversationIdentity)
    (silent : Desk.commitSignal job = .silent) :
    (job.markOutputCommitted drained).2.visible = job.visible := by
  unfold markOutputCommitted
  split
  case isTrue => rfl
  case isFalse settled =>
    split
    case isTrue => rfl
    case isFalse unpublished =>
      have plain : job.requiresPublication = false := by
        cases held : job.output with
        | none => simp [held] at settled
        | some output => simpa [Desk.commitSignal, held, unpublished] using silent
      simp [visible, plain]

/-- An overtaken answer leaves the output that overtook it. -/
theorem visible_recordAnswer {ack : CancellationAcknowledgment Failure}
    {completion : Option (ProviderCompletion Failure Context)}
    {drained : List ConversationIdentity}
    (overtaken : (job.recordAnswer ack completion drained).1 = none) :
    (job.recordAnswer ack completion drained).2.visible = job.visible := by
  unfold recordAnswer at overtaken ⊢
  dsimp only at overtaken ⊢
  split at overtaken
  case isTrue settled =>
    rw [if_pos settled]
    rfl
  case isFalse => cases overtaken

theorem Extends.visible {old new : Job Failure Context} (extended : old.Extends new)
    (seen : old.visible.isSome = true) : new.visible.isSome = true := by
  unfold Job.visible at *
  split at seen
  case isTrue => cases seen
  case isFalse shown =>
    obtain ⟨output, held⟩ := Option.isSome_iff_exists.mp seen
    rw [extended.requiresPublication, extended.output output held, if_neg]
    · rfl
    · intro hidden
      apply shown
      rw [Bool.and_eq_true, Bool.not_eq_true'] at hidden ⊢
      refine ⟨hidden.1, ?_⟩
      by_contra published
      have still := extended.published (by simpa using published)
      rw [still] at hidden
      cases hidden.2

end Job

/-- A step on a registered operation, with what it does on the channel. -/
inductive DeskStep [DecidableEq Failure] (terminal : Option OperationId) :
    Desk Failure Context → Signal → Desk Failure Context → Prop where
  | task {slot next : Slot Failure Context} {answer : Answer Failure Context} (returned : Bool)
      (calls : List (Call Failure Context × Bool)) (taken : TaskStep terminal slot answer next) :
      DeskStep terminal ⟨slot, returned, calls⟩ (if slot.task.notifies then .sent else .silent)
        ⟨next, returned || slot.task.notifies, calls⟩
  | call {slot next : Slot Failure Context} {answer : Answer Failure Context}
      {current : Call Failure Context} {left : Option (Call Failure Context)}
      (returned publish : Bool) (before after : List (Call Failure Context × Bool))
      (taken : CallStep terminal slot current answer next left) :
      DeskStep terminal ⟨slot, returned, before ++ (current, publish) :: after⟩
        (current.signal publish left.isNone slot.task.notifies)
        ⟨next, returned,
          before ++ (left.map (·, current.publishes returned publish)).toList ++ after⟩
  | dropped (slot : Slot Failure Context) (returned publish : Bool)
      (before after : List (Call Failure Context × Bool)) (current : Call Failure Context) :
      DeskStep terminal ⟨slot, returned, before ++ (current, publish) :: after⟩
        (if current.owes returned publish then .forfeited else .silent)
        ⟨{ slot with job := { slot.job with
            cancellationGate := slot.job.cancellationGate && !current.holdsGate } },
          returned, before ++ after⟩
  | cancel (desk : Desk Failure Context) (cause : CancellationCause) :
      DeskStep terminal desk .silent
        { desk with calls := desk.calls ++ [(.cancelGated cause, false)] }
  | retry (desk : Desk Failure Context)
      (owned : (desk.slot.job.started && desk.slot.job.cancellationOwner) = true) :
      DeskStep terminal desk .silent { desk with calls := desk.calls ++ [(.retryGated, false)] }
  | complete (desk : Desk Failure Context) :
      DeskStep terminal desk .silent { desk with
        calls := desk.calls ++ [(.completing desk.slot.job.completion desk.slot.job.output, false)] }
  | register (desk : Desk Failure Context) (started : desk.slot.job.started = true) :
      DeskStep terminal desk .silent { desk with slot.job.completionSource := true }
  | release (desk : Desk Failure Context) (context : Bool) :
      DeskStep terminal desk .silent { desk with
        slot := { desk.slot with
          job := (desk.slot.job.release context).2
          task := match (desk.slot.job.release context).1, desk.slot.task with
            | .ok true, .gated => .launched
            | _, task => task } }
  | claim (desk : Desk Failure Context) (claimant : ConversationIdentity) :
      DeskStep terminal desk .silent
        { desk with slot.job := (desk.slot.job.claim claimant).2 }
  | attach (desk : Desk Failure Context) (claimant : ConversationIdentity) :
      DeskStep terminal desk .silent
        { desk with slot.job := (desk.slot.job.forkOwnedAttachment
            desk.slot.operation.origin claimant desk.slot.task.isFinished).2 }
  | commit (desk : Desk Failure Context) (drained : List ConversationIdentity)
      (order : drained.Perm desk.slot.job.claimants) :
      DeskStep terminal desk (Desk.commitSignal desk.slot.job)
        { desk with slot.job := (desk.slot.job.markOutputCommitted drained).2 }
  | look (desk : Desk Failure Context) : DeskStep terminal desk .silent desk

section

variable {desk next : Desk Failure Context}

theorem Desk.owes_or_visible (seen : desk.visible.isSome = true) (kept : desk.Owes → next.Owes) :
    next.Owes ∨ desk.visible.isSome = true ∧ ¬desk.Owes := by
  by_cases owing : desk.Owes
  · exact .inl (kept owing)
  · exact .inr ⟨seen, owing⟩

theorem Desk.Owes.of_calls (owing : desk.Owes)
    (notifies : desk.slot.task.notifies = true → next.slot.task.notifies = true)
    (calls : ∀ call ∈ desk.calls, call.1.owes desk.returned call.2 = true →
      call ∈ next.calls ∧ next.returned = desk.returned) : next.Owes := by
  rcases owing with standing | ⟨call, member, owes⟩
  · exact .inl (notifies standing)
  · obtain ⟨still, same⟩ := calls call member owes
    exact .inr ⟨call, still, same ▸ owes⟩

/-- Nobody owes a notice where nothing is in progress. -/
theorem Desk.Quiet.not_owes (quiet : desk.Quiet) : ¬desk.Owes := by
  intro owing
  rcases owing with standing | ⟨call, member, -⟩
  · obtain ⟨output, task⟩ := Task.exists_of_notifies standing
    have rests := quiet.2
    simp [task, Task.rests] at rests
  · rw [quiet.1] at member
    cases member

end

section

variable {terminal : Option OperationId} {slot next : Slot Failure Context}
  {answer : Answer Failure Context}

theorem TaskStep.not_finished (taken : TaskStep terminal slot answer next) :
    slot.task ≠ .finished := by
  cases taken with
  | failed standing =>
    rcases standing with standing | standing <;> simp [standing]
  | _ => simp [*]

/-- A task that is about to announce its output ends with that. -/
theorem TaskStep.finished_of_notifies (taken : TaskStep terminal slot answer next)
    (notifies : slot.task.notifies = true) : next.task = .finished := by
  cases taken with
  | notify => rfl
  | failed standing =>
    rcases standing with standing | standing <;> simp [standing, Task.notifies] at notifies
  | _ => simp [*, Task.notifies] at notifies

/-- An output that is visible after a step of the task was announced, is still owed its
notice, or was visible before. -/
theorem TaskStep.notice (taken : TaskStep terminal slot answer next)
    (seen : next.job.visible.isSome = true) :
    slot.task.notifies = true ∨ next.task.notifies = true ∨ slot.job.visible.isSome = true := by
  cases taken with
  | settle => exact .inr (.inl rfl)
  | notify _ standing => exact .inl (by simp [standing, Task.notifies])
  | start => exact .inr (.inr (by simpa using seen))
  | capture => exact .inr (.inr (by simpa using seen))
  | _ => exact .inr (.inr seen)

end

variable [DecidableEq Failure] {terminal : Option OperationId} {desk next : Desk Failure Context}
  {signal : Signal}

/-- Every step is one of the registered operation. -/
theorem DeskStep.entryStep (taken : DeskStep terminal desk signal next) :
    ∃ answer, EntryStep terminal desk.entry answer next.entry := by
  cases taken with
  | task returned calls taken => exact ⟨_, .task _ taken⟩
  | @call _ _ _ _ left _ _ before after taken =>
    have step := EntryStep.call (before.map Prod.fst) (after.map Prod.fst) taken
    cases left with
    | none => exact ⟨_, by simpa [Desk.entry] using step⟩
    | some later => exact ⟨_, by simpa [Desk.entry] using step⟩
  | dropped slot _ _ before after current =>
    have step : EntryStep terminal _ _ _ :=
      .dropped slot (before.map Prod.fst) (after.map Prod.fst) current
    exact ⟨_, by simpa [Desk.entry] using step⟩
  | cancel _ cause => exact ⟨_, by simpa [Desk.entry] using EntryStep.cancel desk.entry cause⟩
  | retry _ owned => exact ⟨_, by simpa [Desk.entry] using EntryStep.retry desk.entry owned⟩
  | complete => exact ⟨_, by simpa [Desk.entry] using EntryStep.complete desk.entry⟩
  | register _ started => exact ⟨_, .register desk.entry started⟩
  | release _ context => exact ⟨_, .release desk.entry context⟩
  | claim _ claimant => exact ⟨_, .claim desk.entry claimant⟩
  | attach _ claimant => exact ⟨_, .attach desk.entry claimant⟩
  | commit _ drained order => exact ⟨_, .commit desk.entry drained order⟩
  | look => exact ⟨_, .look desk.entry⟩

theorem DeskStep.extends (taken : DeskStep terminal desk signal next) :
    desk.slot.job.Extends next.slot.job := by
  obtain ⟨answer, step⟩ := taken.entryStep
  exact step.extends.2

/-- A task that ran to its end has settled its operation. -/
structure Desk.Ended (desk : Desk Failure Context) : Prop where
  announced : desk.slot.Announced
  finished : desk.returned = true → desk.slot.task = .finished
  settled : desk.returned = true → desk.slot.job.output.isSome = true

variable {current : Call Failure Context} {left : Option (Call Failure Context)}

/-- The calls end the task or leave it. -/
theorem CallStep.task_eq {slot next : Slot Failure Context} {answer : Answer Failure Context}
    (taken : CallStep terminal slot current answer next left) :
    next.task = slot.task ∨ next.task = .finished := by
  cases taken with
  | ownerStop taken => cases taken <;> simp
  | reap held => cases held <;> simp
  | retryStop taken => cases taken <;> simp
  | _ => exact .inl rfl

theorem DeskStep.ended (taken : DeskStep terminal desk signal next) (ended : desk.Ended) :
    next.Ended := by
  obtain ⟨answer, step⟩ := taken.entryStep
  have extended := taken.extends
  have settled : desk.returned = true → next.slot.job.output.isSome = true := by
    intro returned
    obtain ⟨output, held⟩ := Option.isSome_iff_exists.mp (ended.settled returned)
    rw [extended.output output held]
    rfl
  refine ⟨step.announced ended.announced, ?_, ?_⟩
  · cases taken with
    | task returned calls taken =>
      intro ending
      rcases Bool.or_eq_true_iff.mp ending with earlier | notifies
      · exact absurd (ended.finished earlier) taken.not_finished
      · exact taken.finished_of_notifies notifies
    | call _ _ _ _ taken =>
      intro returned
      rcases taken.task_eq with same | finished
      · exact same.trans (ended.finished returned)
      · exact finished
    | release _ context =>
      intro returned
      have finished := ended.finished returned
      simp [finished]
    | _ => exact ended.finished
  · cases taken with
    | task returned calls taken =>
      intro ending
      rcases Bool.or_eq_true_iff.mp ending with earlier | notifies
      · exact settled earlier
      · obtain ⟨output, standing⟩ := Task.exists_of_notifies notifies
        rw [extended.output output (ended.announced.notifying output standing)]
        rfl
    | _ => exact settled

theorem CallStep.notice {slot next : Slot Failure Context} {answer : Answer Failure Context}
    {returned : Bool} (publish : Bool) (taken : CallStep terminal slot current answer next left)
    (finished : returned = true → slot.task = .finished)
    (settled : returned = true → slot.job.output.isSome = true)
    (seen : next.job.visible.isSome = true) :
    current.signal publish left.isNone slot.task.notifies ≠ .silent ∨
      (∃ later, left = some later ∧
        later.owes returned (current.publishes returned publish) = true) ∨
      (slot.job.visible.isSome = true ∧ current.owes returned publish = false ∧
        (slot.task.notifies = true → next.task.notifies = true)) := by
  cases taken with
  | cancelAdmit => exact .inr (.inr ⟨by simpa using seen, rfl, id⟩)
  | ownerRecord ack completion drained order output recorded => exact .inr (.inl ⟨_, rfl, rfl⟩)
  | ownerOvertaken ack completion drained overtaken =>
    exact .inr (.inr ⟨slot.job.visible_recordAnswer overtaken ▸ seen, rfl, id⟩)
  | ownerStop => exact .inl (by simp [Call.signal])
  | cancelUnowned drained order output recorded =>
    have fresh : returned = false := by
      by_contra ending
      have held := settled (by simpa using ending)
      simp [Job.cancelUnowned, held] at recorded
    exact .inr (.inl ⟨_, rfl, by simp [Call.owes, fresh]⟩)
  | reap held =>
    cases owing : !(held && returned) with
    | true => exact .inr (.inl ⟨_, rfl, owing⟩)
    | false =>
      obtain ⟨_, ending⟩ : held = true ∧ returned = true := by simpa using owing
      have idle : slot.task.notifies = false := by simp [finished ending, Task.notifies]
      exact .inr (.inr ⟨seen, owing, fun notifies => by simp [idle] at notifies⟩)
  | project completion =>
    cases publish with
    | true => exact .inr (.inl ⟨_, rfl, rfl⟩)
    | false => exact .inr (.inr ⟨seen, rfl, id⟩)
  | projectNone =>
    cases publish with
    | true => exact .inl (by simp [Call.signal])
    | false => exact .inr (.inr ⟨seen, rfl, id⟩)
  | mask completion =>
    cases publish with
    | true => exact .inl (by simp [Call.signal])
    | false => exact .inr (.inr ⟨seen, rfl, id⟩)
  | retryStop aborted =>
    cases forfeited : aborted && slot.task.notifies with
    | true => exact .inl (by simp [Call.signal, forfeited])
    | false =>
      refine .inr (.inr ⟨seen, rfl, fun notifies => ?_⟩)
      cases aborted with
      | true => simp [notifies] at forfeited
      | false => exact notifies
  | _ => exact .inr (.inr ⟨seen, rfl, id⟩)

/-- An output that is visible after a step was announced or forfeited by it, is still owed
its notice, or was visible before with no notice owed. -/
theorem DeskStep.notice (taken : DeskStep terminal desk signal next) (ended : desk.Ended)
    (seen : next.visible.isSome = true) :
    signal ≠ .silent ∨ next.Owes ∨ desk.visible.isSome = true ∧ ¬desk.Owes := by
  cases taken with
  | @task slot _ _ returned calls taken =>
    cases notifies : slot.task.notifies with
    | true => exact .inl (by simp)
    | false =>
      rcases taken.notice seen with standing | standing | visible
      · simp [notifies] at standing
      · exact .inr (.inl (.inl standing))
      · refine .inr (Desk.owes_or_visible visible fun owing => owing.of_calls ?_ ?_)
        · intro standing
          simp [notifies] at standing
        · intro call member _
          exact ⟨member, by simp⟩
  | @call slot _ _ current left returned publish before after taken =>
    rcases taken.notice publish ended.finished ended.settled seen with
      loud | ⟨later, rfl, owes⟩ | ⟨visible, paid, notifies⟩
    · exact .inl loud
    · exact .inr (.inl (.inr ⟨(later, current.publishes returned publish), by simp, owes⟩))
    · refine .inr (Desk.owes_or_visible visible fun owing => owing.of_calls notifies ?_)
      intro call member owes
      refine ⟨?_, rfl⟩
      rcases List.mem_append.mp member with earlier | member
      · simp [earlier]
      · rcases List.mem_cons.mp member with same | later
        · subst same
          rw [paid] at owes
          cases owes
        · simp [later]
  | dropped slot returned publish before after current =>
    cases owes : current.owes returned publish with
    | true => exact .inl (by simp)
    | false =>
      refine .inr (Desk.owes_or_visible seen fun owing => owing.of_calls id ?_)
      intro call member owing
      refine ⟨?_, rfl⟩
      rcases List.mem_append.mp member with earlier | member
      · simp [earlier]
      · rcases List.mem_cons.mp member with same | later
        · subst same
          rw [owes] at owing
          cases owing
        · simp [later]
  | release _ context =>
    have visible : desk.visible.isSome = true := by simpa [Desk.visible] using seen
    refine .inr (Desk.owes_or_visible visible fun owing => owing.of_calls ?_ ?_)
    · intro standing
      obtain ⟨output, task⟩ := Task.exists_of_notifies standing
      simp [task, Task.notifies]
    · intro call member _
      exact ⟨member, rfl⟩
  | commit _ drained order =>
    cases loud : Desk.commitSignal desk.slot.job with
    | silent =>
      have visible : desk.visible.isSome = true := by
        rw [Desk.visible, ← desk.slot.job.visible_markOutputCommitted drained loud]
        exact seen
      exact .inr (Desk.owes_or_visible visible fun owing => owing)
    | _ => exact .inl (by simp)
  | claim =>
    have visible : desk.visible.isSome = true := by simpa [Desk.visible] using seen
    exact .inr (Desk.owes_or_visible visible fun owing => owing)
  | attach =>
    have visible : desk.visible.isSome = true := by simpa [Desk.visible] using seen
    exact .inr (Desk.owes_or_visible visible fun owing => owing)
  | register => exact .inr (Desk.owes_or_visible seen fun owing => owing)
  | look => exact .inr (Desk.owes_or_visible seen fun owing => owing)
  | _ =>
    refine .inr (Desk.owes_or_visible seen fun owing => owing.of_calls id ?_)
    intro call member _
    exact ⟨List.mem_append_left _ member, rfl⟩

end ExomonadHarness.Scheduler
