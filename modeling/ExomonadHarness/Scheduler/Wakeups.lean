import ExomonadHarness.Scheduler.Waiters

/-! No wakeup is lost: while an output that a caller waits for can be seen, the caller is
about to look for it, has a notice to receive, or somebody owes the notice. -/

namespace ExomonadHarness.Scheduler

variable {Failure Context : Type}

/-- A waiting caller will look at the output of an operation without any further notice. -/
def Waiter.Expects (waiter : Waiter Failure) (operation : OperationId) : Prop :=
  match waiter.phase with
  | .checking left => operation ∈ left ∨ waiter.inbox.pending = true
  | .selecting => waiter.inbox.pending = true
  | _ => True

theorem Waiter.Expects.of_pending {waiter : Waiter Failure} (operation : OperationId)
    (pending : waiter.inbox.pending = true) : waiter.Expects operation := by
  unfold Expects
  split
  · exact .inr pending
  · exact pending
  · trivial

theorem WaitStep.outstanding {registered : OperationId → Bool}
    {visible : OperationId → Option (JobOutput Failure)} {waiter next : Waiter Failure}
    (taken : WaitStep registered visible waiter next) :
    next.outstanding = waiter.outstanding := by
  cases taken <;> rfl

/-- A caller that expected a visible output still does after its own step. -/
theorem WaitStep.expects {registered : OperationId → Bool}
    {visible : OperationId → Option (JobOutput Failure)} {waiter next : Waiter Failure}
    {operation : OperationId} (taken : WaitStep registered visible waiter next)
    (member : operation ∈ waiter.outstanding) (seen : (visible operation).isSome = true)
    (expected : waiter.Expects operation) : next.Expects operation := by
  cases taken with
  | unseen other left standing hidden =>
    rw [Waiter.Expects, standing] at expected
    rcases expected with listed | pending
    · rcases List.mem_cons.mp listed with same | later
      · rw [same, hidden] at seen
        cases seen
      · exact .inl later
    · exact .inr pending
  | select standing =>
    rw [Waiter.Expects, standing] at expected
    rcases expected with impossible | pending
    · cases impossible
    · exact pending
  | stirred => exact .inl member
  | lagged => exact .inl member
  | received other =>
    unfold Waiter.Expects
    dsimp only
    split
    case h_1 left checking =>
      split at checking
      · cases checking
      · cases checking
        exact .inl member
    case h_2 selecting => split at selecting <;> cases selecting
    case h_3 => trivial
  | unconfirmed => exact .inl member
  | _ => trivial

/-- A wait that answers with the timer has read no output. -/
theorem WaitResume.outputs_of_timedOut {resumed : WaitResume}
    {outputs : List (OperationId × JobOutput Failure)}
    (timedOut : resumed.settle outputs = .timedOut) : outputs = [] := by
  cases outputs with
  | nil => rfl
  | cons output rest => cases resumed <;> cases timedOut

/-- Every visible output is expected by the callers that wait for it, or owed a notice. -/
structure Hub.Awake (hub : Hub Failure Context) : Prop where
  ended : ∀ operation desk, hub.desks operation = some desk → desk.Ended
  expected : ∀ caller waiter, hub.waiters caller = some waiter →
    ∀ operation ∈ waiter.outstanding, ∀ desk, hub.desks operation = some desk →
      desk.visible.isSome = true → waiter.Expects operation ∨ desk.Owes

namespace Hub

variable {hub : Hub Failure Context} {operation : OperationId}

theorem awake_empty : ({} : Hub Failure Context).Awake where
  ended := by
    intro operation desk found
    cases found
  expected := by
    intro caller waiter found
    cases found

theorem Awake.admitted (awake : hub.Awake) (admission : Admission) :
    (hub.setDesk admission.operation { slot := (World.newEntry admission).slot }).Awake where
  ended := by
    intro operation desk found
    simp only [setDesk] at found
    split at found
    case isTrue =>
      cases found
      exact ⟨⟨by simp [World.newEntry], by simp [World.newEntry]⟩, by simp, by simp⟩
    case isFalse => exact awake.ended operation desk found
  expected := by
    intro caller waiter waiting operation member desk found seen
    simp only [setDesk] at found
    split at found
    case isTrue =>
      cases found
      simp [Desk.visible, Job.visible, World.newEntry] at seen
    case isFalse => exact awake.expected caller waiter waiting operation member desk found seen

theorem announceIf_desks (signal : Signal) (other : OperationId) :
    (hub.announceIf signal operation).desks other = hub.desks other := by
  unfold announceIf
  split <;> rfl

/-- After a notice every caller has something to receive. -/
theorem expects_of_announce {caller : ℕ} {waiter : Waiter Failure} (other : OperationId)
    (waiting : (hub.announce operation).waiters caller = some waiter) :
    waiter.Expects other := by
  obtain ⟨earlier, -, rfl⟩ := Option.map_eq_some_iff.mp waiting
  exact .of_pending other (Inbox.pending_post _ _)

/-- A caller that begins to wait, or moves on, is set to what it then expects. -/
theorem Awake.waiter {caller : ℕ} {next : Waiter Failure} (awake : hub.Awake)
    (expects : ∀ operation ∈ next.outstanding, ∀ desk, hub.desks operation = some desk →
      desk.visible.isSome = true → next.Expects operation ∨ desk.Owes) :
    (hub.setWaiter caller next).Awake where
  ended := awake.ended
  expected := by
    intro other waiter waiting operation member desk found seen
    simp only [setWaiter] at waiting
    split at waiting
    case isTrue =>
      cases waiting
      exact expects operation member desk found seen
    case isFalse => exact awake.expected other waiter waiting operation member desk found seen

/-- Where nothing is in progress, a parked caller has no output to see. -/
theorem Awake.parked {caller : ℕ} {waiter : Waiter Failure} (awake : hub.Awake)
    (quiet : hub.Quiet) (waiting : hub.waiters caller = some waiter) (parked : waiter.Parked)
    (member : operation ∈ waiter.outstanding) : hub.visible operation = none := by
  cases found : hub.desks operation with
  | none => simp [visible, found]
  | some desk =>
    by_contra seen
    have visible : desk.visible.isSome = true := by
      rw [visible, found] at seen
      exact Option.isSome_iff_ne_none.mpr seen
    rcases awake.expected caller waiter waiting operation member desk found visible with
      expected | owing
    · rw [Waiter.Expects, parked.1] at expected
      rw [parked.2] at expected
      cases expected
    · exact (quiet operation desk found).not_owes owing

theorem visible_setDesk {desk next : Desk Failure Context}
    (found : hub.desks operation = some desk) (extended : desk.slot.job.Extends next.slot.job)
    {other : OperationId} (seen : (hub.visible other).isSome = true) :
    ((hub.setDesk operation next).visible other).isSome = true := by
  unfold visible setDesk at *
  dsimp only
  split
  case isTrue same =>
    subst same
    rw [found] at seen
    exact extended.visible seen
  case isFalse => exact seen

/-- A notice changes nothing else of a caller. -/
theorem announceIf_waiters {signal : Signal} {caller : ℕ} {waiter : Waiter Failure}
    (waiting : (hub.announceIf signal operation).waiters caller = some waiter) :
    ∃ earlier, hub.waiters caller = some earlier ∧ waiter.phase = earlier.phase ∧
      waiter.outstanding = earlier.outstanding := by
  unfold announceIf at waiting
  split at waiting
  case isTrue =>
    obtain ⟨earlier, found, rfl⟩ := Option.map_eq_some_iff.mp waiting
    exact ⟨earlier, found, rfl, rfl⟩
  case isFalse => exact ⟨waiter, waiting, rfl, rfl⟩

/-- A caller's place is its own, or was there before. -/
theorem setWaiter_eq_some {caller other : ℕ} {placed waiter : Waiter Failure}
    (waiting : (hub.setWaiter other placed).waiters caller = some waiter) :
    caller = other ∧ waiter = placed ∨ hub.waiters caller = some waiter := by
  simp only [setWaiter] at waiting
  split at waiting
  case isTrue same => exact .inl ⟨same, (Option.some.inj waiting).symm⟩
  case isFalse => exact .inr waiting

variable [DecidableEq Failure]

theorem Awake.desk {signal : Signal} {desk next : Desk Failure Context}
    {terminal : Option OperationId} (awake : hub.Awake) (found : hub.desks operation = some desk)
    (taken : DeskStep terminal desk signal next) (kept : signal ≠ .forfeited) :
    ((hub.setDesk operation next).announceIf signal operation).Awake where
  ended := by
    intro other held present
    rw [announceIf_desks, setDesk] at present
    dsimp only at present
    split at present
    case isTrue =>
      cases present
      exact taken.ended (awake.ended operation desk found)
    case isFalse => exact awake.ended other held present
  expected := by
    intro caller waiter waiting other member held present seen
    rw [announceIf_desks, setDesk] at present
    dsimp only at present
    unfold announceIf at waiting
    split at waiting
    case isTrue => exact .inl (expects_of_announce other waiting)
    case isFalse unsent =>
      split at present
      case isTrue same =>
        cases present
        subst same
        rcases taken.notice (awake.ended other desk found) seen with loud | owing | ⟨visible, paid⟩
        · cases signal with
          | silent => exact absurd rfl loud
          | sent => exact absurd rfl unsent
          | forfeited => exact absurd rfl kept
        · exact .inr owing
        · rcases awake.expected caller waiter waiting other member desk found visible with
            expected | owing
          · exact .inl expected
          · exact absurd owing paid
      case isFalse =>
        exact awake.expected caller waiter waiting other member held present seen

theorem Awake.step {event : HubEvent} {next : Hub Failure Context} (awake : hub.Awake)
    (taken : HubStep hub event next) (kept : ∀ operation, event ≠ .stepped operation .forfeited) :
    next.Awake := by
  cases taken with
  | admitted _ admission => exact awake.admitted admission
  | desk _ operation desk terminal found taken =>
    exact awake.desk found taken fun forfeited => kept operation (by rw [forfeited])
  | wait => exact awake.waiter fun operation member _ _ _ => .inl (.inl member)
  | waitCancelled => exact awake.waiter fun _ _ _ _ _ => .inl trivial
  | waiter _ caller waiter waiting taken =>
    apply awake.waiter
    intro operation member desk found seen
    rw [taken.outstanding] at member
    rcases awake.expected caller waiter waiting operation member desk found seen with
      expected | owing
    · have visible : (hub.visible operation).isSome = true := by
        rw [visible, found]
        exact seen
      exact .inl (taken.expects member visible expected)
    · exact .inr owing

theorem awake_of_run {events : List HubEvent} (run : HubRun {} events hub)
    (kept : ∀ operation, .stepped operation .forfeited ∉ events) : hub.Awake := by
  refine run.history (fun events hub =>
    (∀ operation, .stepped operation .forfeited ∉ events) → hub.Awake) ?_ ?_ kept
  · exact fun _ => awake_empty
  · intro events state event next awake taken kept
    have earlier := awake fun operation member => kept operation (List.mem_append_left _ member)
    refine earlier.step taken ?_
    intro operation same
    exact kept operation (by simp [same])

/-! What can be seen stays visible, so the last reading of a wait speaks for the time when
it began. -/

theorem visible_step {event : HubEvent} {next : Hub Failure Context}
    (taken : HubStep hub event next) (seen : (hub.visible operation).isSome = true) :
    (next.visible operation).isSome = true := by
  cases taken with
  | admitted _ admission fresh =>
    have apart : operation ≠ admission.operation := by
      intro same
      simp [visible, same, fresh] at seen
    simpa [visible, setDesk, apart] using seen
  | desk _ other desk terminal found taken =>
    have kept := visible_setDesk found taken.extends seen
    rw [visible, announceIf_desks]
    exact kept
  | _ => exact seen

/-- A run has come to a caller's last reading of the outputs at the given state. -/
def Began (caller : ℕ) (outstanding : List OperationId) (events : List HubEvent)
    (middle last : Hub Failure Context) : Prop :=
  ∃ earlier later, events = earlier ++ later ∧ HubRun {} earlier middle ∧
    HubRun middle later last ∧ ∃ waiter resumed, middle.waiters caller = some waiter ∧
      waiter.outstanding = outstanding ∧ waiter.phase = .draining resumed outstanding []

/-- What a caller that reads the outputs for its answer, or has answered, can tell of the
time when it began. -/
def Reads (hub : Hub Failure Context) (events : List HubEvent) (caller : ℕ)
    (waiter : Waiter Failure) : Prop :=
  match waiter.phase with
  | .draining _ left outputs => ∃ middle, Began caller waiter.outstanding events middle hub ∧
      ∀ operation ∈ waiter.outstanding, (middle.visible operation).isSome = true →
        operation ∈ left ∨ outputs ≠ []
  | .answered resumed _ => resumed = .timedOut →
      ∃ middle, Began caller waiter.outstanding events middle hub ∧
        ∀ operation ∈ waiter.outstanding, middle.visible operation = none
  | _ => True

section

variable {caller : ℕ} {outstanding : List OperationId} {events : List HubEvent} {event : HubEvent}
  {middle next : Hub Failure Context} {waiter : Waiter Failure}

theorem Began.later (began : Began caller outstanding events middle hub)
    (taken : HubStep hub event next) : Began caller outstanding (events ++ [event]) middle next := by
  obtain ⟨earlier, later, rfl, run, rest, standing⟩ := began
  exact ⟨earlier, later ++ [event], List.append_assoc _ _ _, run, .next rest taken, standing⟩

theorem Began.visible (began : Began caller outstanding events middle hub)
    (seen : (middle.visible operation).isSome = true) : (hub.visible operation).isSome = true := by
  obtain ⟨earlier, later, -, -, rest, -⟩ := began
  exact rest.invariant (fun state => (state.visible operation).isSome = true) seen
    fun held taken => visible_step taken held

/-- What a caller can tell is not changed by the steps of others. -/
theorem Reads.later {moved : Waiter Failure} (reads : hub.Reads events caller waiter)
    (taken : HubStep hub event next) (phase : moved.phase = waiter.phase)
    (outstanding : moved.outstanding = waiter.outstanding) :
    next.Reads (events ++ [event]) caller moved := by
  unfold Reads at *
  rw [phase, outstanding]
  split
  case h_1 standing =>
    rw [standing] at reads
    obtain ⟨middle, began, told⟩ := reads
    exact ⟨middle, began.later taken, told⟩
  case h_2 standing =>
    rw [standing] at reads
    intro timedOut
    obtain ⟨middle, began, told⟩ := reads timedOut
    exact ⟨middle, began.later taken, told⟩
  case h_3 => trivial

/-- The last reading begins. -/
theorem reads_of_draining {resumed : WaitResume} (run : HubRun {} events hub)
    (waiting : hub.waiters caller = some waiter)
    (standing : waiter.phase = .draining resumed waiter.outstanding []) :
    hub.Reads events caller waiter := by
  rw [Reads, standing]
  refine ⟨hub, ⟨events, [], by simp, run, .start _, waiter, resumed, waiting, rfl, standing⟩, ?_⟩
  exact fun operation member _ => .inl member

theorem Reads.moved {moved : Waiter Failure} (run : HubRun {} events hub)
    (reads : hub.Reads events caller waiter) (waiting : hub.waiters caller = some waiter)
    (taken : WaitStep hub.registered hub.visible waiter moved) :
    (hub.setWaiter caller moved).Reads (events ++ [.waited caller]) caller moved := by
  have step : HubStep hub (.waited caller) (hub.setWaiter caller moved) :=
    .waiter hub caller waiter waiting taken
  have held : (hub.setWaiter caller moved).waiters caller = some moved := by simp [setWaiter]
  have begins : ∀ resumed, moved.phase = .draining resumed moved.outstanding [] →
      (hub.setWaiter caller moved).Reads (events ++ [.waited caller]) caller moved :=
    fun _ standing => reads_of_draining (.next run step) held standing
  cases taken with
  | found => exact begins _ rfl
  | cancelled => exact begins _ rfl
  | expired => exact begins _ rfl
  | confirmed => exact begins _ rfl
  | mail => exact begins _ rfl
  | drain resumed operation left outputs standing =>
    rw [Reads, standing] at reads
    obtain ⟨middle, began, told⟩ := reads
    refine ⟨middle, began.later step, fun other member seen => ?_⟩
    rcases told other member seen with listed | nonempty
    · rcases List.mem_cons.mp listed with same | later
      · obtain ⟨output, visible⟩ := Option.isSome_iff_exists.mp (began.visible seen)
        right
        simp [← same, visible]
      · exact .inl later
    · exact .inr (by simp [nonempty])
  | answer resumed outputs standing =>
    rw [Reads, standing] at reads
    obtain ⟨middle, began, told⟩ := reads
    intro timedOut
    refine ⟨middle, began.later step, fun other member => ?_⟩
    have empty := WaitResume.outputs_of_timedOut timedOut
    by_contra seen
    rcases told other member (Option.isSome_iff_ne_none.mpr seen) with listed | nonempty
    · cases listed
    · exact nonempty empty
  | received =>
    unfold Reads
    dsimp only
    split
    case h_1 standing => split at standing <;> cases standing
    case h_2 standing => split at standing <;> cases standing
    case h_3 => trivial
  | _ => trivial

theorem reads_of_run (run : HubRun {} events hub) (waiting : hub.waiters caller = some waiter) :
    hub.Reads events caller waiter := by
  induction run generalizing caller waiter with
  | start => cases waiting
  | next earlier taken ih =>
    have step := taken
    cases taken with
    | admitted => exact (ih waiting).later step rfl rfl
    | desk _ operation desk terminal found taken =>
      obtain ⟨before, stood, phase, outstanding⟩ := announceIf_waiters waiting
      exact (ih stood).later step phase outstanding
    | wait _ other outstanding bounded fresh =>
      rcases setWaiter_eq_some waiting with ⟨rfl, rfl⟩ | stood
      · trivial
      · exact (ih stood).later step rfl rfl
    | waitCancelled _ other outstanding bounded fresh =>
      rcases setWaiter_eq_some waiting with ⟨rfl, rfl⟩ | stood
      · exact reads_of_draining (.next earlier step) waiting rfl
      · exact (ih stood).later step rfl rfl
    | waiter _ other before found taken =>
      rcases setWaiter_eq_some waiting with ⟨rfl, rfl⟩ | stood
      · exact (ih found).moved earlier found taken
      · exact (ih stood).later step rfl rfl

end

end Hub

/-- As long as no notice is forfeited, no caller is left parked with an output to see where
nothing is in progress on its scheduler. A wait that ends with the timer began its last
reading when none of its operations had a visible output. -/
theorem hub_wakes {events : List HubEvent} {hub : Hub Failure Context} [DecidableEq Failure]
    (run : HubRun {} events hub) :
    ((∀ operation, .stepped operation .forfeited ∉ events) → hub.Quiet →
      ∀ caller waiter, hub.waiters caller = some waiter → waiter.Parked →
        ∀ operation ∈ waiter.outstanding, hub.visible operation = none) ∧
    ∀ caller waiter outputs, hub.waiters caller = some waiter →
      waiter.phase = .answered .timedOut outputs →
        ∃ middle, Hub.Began caller waiter.outstanding events middle hub ∧
          ∀ operation ∈ waiter.outstanding, middle.visible operation = none := by
  constructor
  · intro kept quiet caller waiter waiting parked operation member
    exact (Hub.awake_of_run run kept).parked quiet waiting parked member
  · intro caller waiter outputs waiting answered
    have reads := Hub.reads_of_run run waiting
    rw [Hub.Reads, answered] at reads
    exact reads rfl

/-- An operation whose output needs no commit. -/
def backgroundOperation : Admission :=
  { queuedOperation with requiresPublication := false }

/-- The operation is admitted, and a caller looks for its output and parks. -/
theorem hub_parked :
    ∃ events hub waiter, HubRun ({} : Hub String Unit) events hub ∧
      (∀ operation, .stepped operation .forfeited ∉ events) ∧
      hub.desks backgroundOperation.operation =
        some { slot := (World.newEntry backgroundOperation).slot } ∧
      (∀ operation, operation ≠ backgroundOperation.operation → hub.desks operation = none) ∧
      hub.waiters 0 = some waiter ∧ waiter.Parked ∧
      waiter.outstanding = [backgroundOperation.operation] := by
  have admitted : HubRun ({} : Hub String Unit) _ _ :=
    .next (.start _) (.admitted _ backgroundOperation rfl)
  have waiting := admitted.next (.wait _ 0 [backgroundOperation.operation] false rfl)
  have looked := waiting.next (.waiter _ 0 _ rfl (.unseen _ _ [] rfl rfl))
  have parked := looked.next (.waiter _ 0 _ rfl (.select _ rfl))
  refine ⟨_, _, _, parked, ?_, rfl, ?_, rfl, ⟨rfl, rfl⟩, rfl⟩
  · intro operation member
    simp at member
  · intro operation apart
    simp [Hub.setWaiter, Hub.setDesk, apart]

theorem hub_wakes_parked :
    ∃ events hub, HubRun ({} : Hub String Unit) events hub ∧ hub.Quiet ∧
      hub.visible backgroundOperation.operation = none := by
  obtain ⟨events, hub, waiter, run, kept, found, others, waiting, parked, outstanding⟩ := hub_parked
  have quiet : hub.Quiet := by
    intro operation desk held
    by_cases same : operation = backgroundOperation.operation
    · rw [same, found] at held
      cases held
      exact ⟨rfl, rfl⟩
    · rw [others operation same] at held
      cases held
  exact ⟨events, hub, run, quiet, (hub_wakes run).1 kept quiet 0 waiter waiting parked _
    (by simp [outstanding])⟩

/-- Steps on one operation that send no notice leave everything else. -/
theorem HubRun.unannounced [DecidableEq Failure] {first hub : Hub Failure Context}
    {events : List HubEvent} {operation : OperationId} {desk next : Desk Failure Context}
    {signals : List Signal} (run : HubRun first events hub)
    (found : hub.desks operation = some desk)
    (steps : Transition.Run (DeskStep none) desk signals next) (unsent : .sent ∉ signals) :
    ∃ later last, HubRun first later last ∧ last.desks operation = some next ∧
      (∀ other, other ≠ operation → last.desks other = hub.desks other) ∧
      last.waiters = hub.waiters := by
  induction steps with
  | start => exact ⟨events, hub, run, found, fun _ _ => rfl, rfl⟩
  | @next _ _ signals signal _ taken ih =>
    obtain ⟨later, last, run, held, others, waiters⟩ :=
      ih fun member => unsent (List.mem_append_left _ member)
    have silent : signal ≠ .sent := fun same => unsent (by simp [same])
    have step := HubStep.desk last operation _ none held taken
    rw [Hub.announceIf, if_neg silent] at step
    refine ⟨_, _, run.next step, by simp [Hub.setDesk], fun other apart => ?_, waiters⟩
    simp [Hub.setDesk, apart, others other apart]

/-- A provider is called, and the caller that cancels the operation gives up while it waits
for the task to end. -/
theorem cancellation_given_up :
    ∃ signals next, Transition.Run (DeskStep none)
        ({ slot := (World.newEntry backgroundOperation).slot } : Desk String Unit) signals next ∧
      .sent ∉ signals ∧ next.Quiet ∧ next.visible = some .cancelled := by
  have released : Transition.Run (DeskStep none)
      ({ slot := (World.newEntry backgroundOperation).slot } : Desk String Unit) _ _ :=
    .next (.start _) (.release _ false)
  have proceeded := released.next (.task false [] (.proceed _ rfl))
  have started := proceeded.next (.task false [] (.start _ rfl))
  have asked := started.next (.cancel _ .unknown)
  have gated := asked.next (.call false false [] [] (.cancelGate _ .unknown rfl))
  have admitted := gated.next (.call false false [] [] (.cancelAdmit _ .unknown .unknown false rfl))
  have cancelled := admitted.next
    (.call false false [] [] (.cancelUnowned _ [] (.refl _) .cancelled rfl))
  have dropped := cancelled.next (.dropped _ false false [] [] (.reaping true))
  refine ⟨_, _, dropped, ?_, ⟨rfl, rfl⟩, rfl⟩
  decide

/-- The other caller stays parked although the output can be seen. -/
theorem hub_sleeps_on :
    ∃ events hub waiter, HubRun ({} : Hub String Unit) events hub ∧ hub.Quiet ∧
      hub.waiters 0 = some waiter ∧ waiter.Parked ∧
      backgroundOperation.operation ∈ waiter.outstanding ∧
      hub.visible backgroundOperation.operation = some .cancelled := by
  obtain ⟨events, hub, waiter, run, -, found, others, waiting, parked, outstanding⟩ := hub_parked
  obtain ⟨signals, next, steps, unsent, quiet, seen⟩ := cancellation_given_up
  obtain ⟨later, last, longer, held, apart, waiters⟩ := run.unannounced found steps unsent
  refine ⟨later, last, waiter, longer, ?_, waiters ▸ waiting, parked, by simp [outstanding], ?_⟩
  · intro operation desk stood
    by_cases same : operation = backgroundOperation.operation
    · rw [same, held] at stood
      cases stood
      exact quiet
    · rw [apart operation same, others operation same] at stood
      cases stood
  · rw [Hub.visible, held]
    exact seen

end ExomonadHarness.Scheduler
