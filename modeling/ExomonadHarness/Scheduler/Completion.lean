import ExomonadHarness.Scheduler.Settlement

/-! The completion reported for an invocation. Every completion that the scheduler
keeps claims full success only for an output that succeeded. What a source projects
when it is asked again is reported as it is. -/

namespace ExomonadHarness.Scheduler

variable {Failure Context : Type}

/-- Full success is claimed for a success only. -/
def ProviderCompletion.Honest (completion : ProviderCompletion Failure Context) : Prop :=
  completion.fullSuccess = true → completion.output.succeeded = true

theorem ProviderCompletion.bind_honest (output : JobOutput Failure)
    (completion : ProviderCompletion Failure Context) : (completion.bind output).Honest := by
  intro success
  simp only [ProviderCompletion.bind, Bool.and_eq_true] at success
  exact success.2

theorem Job.ownerCompletion_honest [DecidableEq Failure]
    (retained projected : Option (ProviderCompletion Failure Context)) (required : Bool)
    (output : JobOutput Failure) :
    (Job.ownerCompletion retained projected required output).Honest :=
  ProviderCompletion.bind_honest output _

/-- The completions that the record and the task of a job hold. -/
structure Slot.Honest (slot : Slot Failure Context) : Prop where
  completion : ∀ completion, slot.job.completion = some completion → completion.Honest
  captured : ∀ result, slot.task = .captured result → result.Honest

/-- The completions that a call in progress holds, and the output it has read. -/
def Call.Honest (job : Job Failure Context) : Call Failure Context → Prop
  | .ownerRecording _ completion => ∀ held, completion = some held → held.Honest
  | .masking completion => completion.Honest
  | .completing completion output =>
    (∀ held, completion = some held → held.Honest) ∧
      ∀ read, output = some read → job.output = some read
  | _ => True

variable {job : Job Failure Context}

theorem Call.Honest.extend {next : Job Failure Context} {call : Call Failure Context}
    (honest : call.Honest job) (extended : job.Extends next) : call.Honest next := by
  cases call with
  | completing completion output =>
    refine ⟨honest.1, ?_⟩
    intro read shown
    exact extended.output read (honest.2 read shown)
  | _ => exact honest

variable {terminal : Option OperationId} {slot next : Slot Failure Context}
  {answer : Answer Failure Context}

theorem Slot.Honest.extend (honest : slot.Honest)
    (completion : next.job.completion = slot.job.completion)
    (task : next.task = slot.task ∨ ∀ result, next.task ≠ .captured result) :
    next.Honest where
  completion := by
    rw [completion]
    exact honest.completion
  captured := by
    intro result standing
    rcases task with same | other
    · exact honest.captured result (same.symm.trans standing)
    · exact absurd standing (other result)

theorem Job.capture_honest {result : ProviderCompletion Failure Context} (honest : result.Honest)
    (kept : ∀ completion, job.completion = some completion → completion.Honest) :
    ∀ completion, (job.capture result).completion = some completion → completion.Honest := by
  unfold Job.capture
  split
  · intro completion held
    cases held
    intro success
    simp only [Bool.and_eq_true] at success
    exact honest success.1
  · exact kept

theorem TaskStep.honest (taken : TaskStep terminal slot answer next) (honest : slot.Honest) :
    next.Honest := by
  cases taken with
  | start =>
    apply honest.extend
    · simp only [Job.start]
      split <;> rfl
    · right
      intro result
      dsimp only
      split <;> simp
  | finish standing result =>
    refine ⟨honest.completion, ?_⟩
    intro captured standing
    cases standing
    intro success
    simp only [Bool.and_eq_true] at success
    exact success.2
  | capture result standing =>
    refine ⟨Job.capture_honest (honest.captured result standing) honest.completion, ?_⟩
    simp
  | settle output _ drained =>
    apply honest.extend
    · simp only [Job.settle]
      split <;> rfl
    · exact .inr (by simp)
  | retained => exact honest.extend rfl (.inr (by simp))
  | proceed => exact honest.extend rfl (.inr (by simp))
  | notify => exact honest.extend rfl (.inr (by simp))
  | failed => exact honest.extend rfl (.inr (by simp))

theorem Job.recordAnswer_completion {ack : CancellationAcknowledgment Failure}
    {completion : Option (ProviderCompletion Failure Context)} {drained : List ConversationIdentity}
    {held : ProviderCompletion Failure Context}
    (recorded : (job.recordAnswer ack completion drained).2.completion = some held) :
    completion = some held ∨ job.completion = some held := by
  unfold Job.recordAnswer at recorded
  dsimp only at recorded
  split at recorded
  · exact .inr recorded
  · cases completion with
    | none => exact .inr recorded
    | some completion => exact .inl recorded

theorem CallStep.honest [DecidableEq Failure] {current : Call Failure Context}
    {left : Option (Call Failure Context)}
    (taken : CallStep terminal slot current answer next left) (honest : slot.Honest)
    (held : current.Honest slot.job) :
    next.Honest ∧ ∀ call, left = some call → call.Honest next.job := by
  cases taken with
  | cancelAdmit cause admitted owned decision =>
    constructor
    · apply honest.extend
      · simp only [Job.admitCancellation]
        split <;> rfl
      · exact .inl rfl
    · intro call standing
      cases standing
      split <;> trivial
  | ownerProject ack output required retained projected =>
    refine ⟨honest, ?_⟩
    intro call standing
    cases standing
    intro completion shown
    cases shown
    exact Job.ownerCompletion_honest retained projected required output
  | ownerUnconfirmed ack =>
    refine ⟨honest, ?_⟩
    intro call standing
    cases standing
    intro completion shown
    simp at shown
  | ownerRecord ack completion drained =>
    refine ⟨⟨?_, honest.captured⟩, ?_⟩
    · intro shown recorded
      rcases Job.recordAnswer_completion recorded with new | old
      · exact held shown new
      · exact honest.completion shown old
    · intro call standing
      cases standing
      trivial
  | ownerOvertaken ack completion drained =>
    refine ⟨⟨?_, honest.captured⟩, by simp⟩
    intro shown recorded
    rcases Job.recordAnswer_completion recorded with new | old
    · exact held shown new
    · exact honest.completion shown old
  | ownerStop taken =>
    refine ⟨honest.extend rfl ?_, by simp⟩
    cases taken <;> simp
  | retryStop taken =>
    refine ⟨honest.extend rfl ?_, by simp⟩
    cases taken <;> simp
  | cancelUnowned drained =>
    constructor
    · apply honest.extend
      · simp only [Job.cancelUnowned]
        split <;> rfl
      · exact .inl rfl
    · intro call standing
      cases standing
      trivial
  | reap taken =>
    constructor
    · refine honest.extend rfl ?_
      cases taken <;> simp
    · intro call standing
      cases standing
      trivial
  | project completion =>
    refine ⟨honest, ?_⟩
    intro call standing
    cases standing
    exact ProviderCompletion.bind_honest .cancelled completion
  | mask completion =>
    refine ⟨⟨?_, honest.captured⟩, by simp⟩
    intro shown recorded
    cases recorded
    exact held
  | _ =>
    refine ⟨honest.extend rfl (.inl rfl), ?_⟩
    intro call standing
    cases standing <;> trivial

/-- Everything that is held for an operation is honest. -/
structure Entry.Honest (entry : Entry Failure Context) : Prop where
  slot : entry.slot.Honest
  calls : ∀ call ∈ entry.calls, call.Honest entry.slot.job

theorem Entry.Honest.extend {entry after : Entry Failure Context} (honest : entry.Honest)
    (extended : entry.slot.job.Extends after.slot.job)
    (completion : after.slot.job.completion = entry.slot.job.completion)
    (task : after.slot.task = entry.slot.task ∨ ∀ result, after.slot.task ≠ .captured result)
    (calls : ∀ call ∈ after.calls, call ∈ entry.calls ∨ call.Honest after.slot.job) :
    after.Honest where
  slot := honest.slot.extend completion task
  calls := by
    intro call member
    rcases calls call member with old | new
    · exact (honest.calls call old).extend extended
    · exact new

theorem EntryStep.honest [DecidableEq Failure] {entry after : Entry Failure Context}
    (taken : EntryStep terminal entry answer after) (honest : entry.Honest) : after.Honest := by
  have extended := taken.extends.2
  cases taken with
  | task calls taken =>
    refine ⟨taken.honest honest.slot, ?_⟩
    intro call member
    exact (honest.calls call member).extend extended
  | call before behind taken =>
    have own := honest.calls _ (List.mem_append_right before (List.mem_cons_self ..))
    obtain ⟨slot, left⟩ := taken.honest honest.slot own
    refine ⟨slot, ?_⟩
    intro call member
    simp only [List.mem_append, Option.mem_toList] at member
    rcases member with (old | new) | old
    · exact (honest.calls call (by simp [old])).extend extended
    · exact left call new
    · exact (honest.calls call (by simp [old])).extend extended
  | dropped slot before behind current =>
    apply honest.extend extended rfl (.inl rfl)
    intro call member
    left
    rcases List.mem_append.mp member with old | old <;> simp [old]
  | cancel _ cause =>
    apply honest.extend extended rfl (.inl rfl)
    intro call member
    rcases List.mem_append.mp member with old | new
    · exact .inl old
    · rw [List.mem_singleton.mp new]
      exact .inr trivial
  | retry =>
    apply honest.extend extended rfl (.inl rfl)
    intro call member
    rcases List.mem_append.mp member with old | new
    · exact .inl old
    · rw [List.mem_singleton.mp new]
      exact .inr trivial
  | complete =>
    apply honest.extend extended rfl (.inl rfl)
    intro call member
    rcases List.mem_append.mp member with old | new
    · exact .inl old
    · rw [List.mem_singleton.mp new]
      exact .inr ⟨honest.slot.completion, fun _ read => read⟩
  | release _ context =>
    apply honest.extend extended
    · simp only [Job.release]
      split
      · rfl
      · split <;> rfl
    · dsimp only
      split <;> simp
    · exact fun _ old => .inl old
  | claim _ claimant =>
    apply honest.extend extended _ (.inl rfl) fun _ old => .inl old
    simp only [Job.claim]
    split <;> rfl
  | attach _ claimant =>
    apply honest.extend extended _ (.inl rfl) fun _ old => .inl old
    simp only [Job.forkOwnedAttachment]
    split
    · rfl
    · dsimp only
      split <;> rfl
  | commit _ drained =>
    apply honest.extend extended _ (.inl rfl) fun _ old => .inl old
    simp only [Job.markOutputCommitted]
    split
    · rfl
    · split <;> rfl
  | _ => exact honest.extend extended rfl (.inl rfl) fun _ old => .inl old

/-- Full success is reported to a call that finds an output only, and the source projects it
for a success only. -/
def Answer.Reliable : Answer Failure Context → Prop
  | .completed output projected answer =>
    (∀ completion, answer = some completion → completion.fullSuccess = true → output.isSome) ∧
    ∀ read completion, output = some read → projected = some completion →
      completion.fullSuccess = true → read.succeeded = true
  | _ => True

/-- Full success was reported only if the job's output is a success. -/
def Answer.Truthful (job : Job Failure Context) : Answer Failure Context → Prop
  | .completed _ _ answer => ∀ completion, answer = some completion →
    completion.fullSuccess = true → ∃ output, job.output = some output ∧ output.succeeded = true
  | _ => True

theorem Answer.Truthful.extend {next : Job Failure Context} (truthful : answer.Truthful job)
    (extended : job.Extends next) : answer.Truthful next := by
  cases answer with
  | completed output projected answer =>
    intro completion shown success
    obtain ⟨held, recorded, succeeded⟩ := truthful completion shown success
    exact ⟨held, extended.output held recorded, succeeded⟩
  | _ => trivial

/-- What is answered for an output that was read: a kept completion for that output,
or what the source projects. -/
theorem completionAnswer_success [DecidableEq Failure] {operation : OperationId}
    {activation : Option RequestActivation}
    {completion projected : Option (ProviderCompletion Failure Context)}
    {read : JobOutput Failure} {answered : ProviderCompletion Failure Context}
    (shown : completionAnswer operation activation terminal completion projected (some read) =
      some answered)
    (success : answered.fullSuccess = true) :
    ∃ held, held.fullSuccess = true ∧
      (completion = some held ∧ held.output = read ∨ projected = some held) := by
  unfold completionAnswer at shown
  dsimp only at shown
  obtain ⟨held, chosen, masked⟩ := Option.map_eq_some_iff.mp shown
  have full : held.fullSuccess = true := by
    split at masked
    · rwa [masked]
    · split at masked
      · rwa [masked]
      · rw [← masked] at success
        simp at success
  refine ⟨held, full, ?_⟩
  split at chosen
  · exact .inr chosen
  · rename_i matched
    rw [chosen] at matched
    exact .inl ⟨chosen, by simpa using matched⟩

theorem EntryStep.truthful [DecidableEq Failure] {entry after : Entry Failure Context}
    (taken : EntryStep terminal entry answer after) (honest : entry.Honest)
    (reliable : answer.Reliable) : answer.Truthful entry.slot.job := by
  cases taken with
  | task calls taken => cases taken <;> trivial
  | call before behind taken =>
    have own := honest.calls _ (List.mem_append_right before (List.mem_cons_self ..))
    cases taken with
    | complete completion projected output =>
      obtain ⟨settled, projection⟩ := reliable
      obtain ⟨kept, recorded⟩ := own
      intro answered shown success
      obtain ⟨read, rfl⟩ := Option.isSome_iff_exists.mp (settled answered shown success)
      refine ⟨read, recorded read rfl, ?_⟩
      obtain ⟨held, full, ⟨stored, same⟩ | projected⟩ := completionAnswer_success shown success
      · rw [← same]
        exact kept held stored full
      · exact projection read held rfl projected full
    | _ => trivial
  | _ => trivial

section Runs

variable [DecidableEq Failure] {detachedStore : ℕ → String}
  {events : List (Event Failure Context)} {world : World Failure Context}
  {scheduler : ℕ} {operation : OperationId} {entry : Entry Failure Context}

end Runs

end ExomonadHarness.Scheduler
