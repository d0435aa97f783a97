import ExomonadHarness.Scheduler.Settlement

/-! The publication of a job to its claimants: an abstract protocol that every step
on a job follows, and what its runs list. A conversation that was told nothing is
listed when the job settles, and again if it asked anew before the publication. -/

namespace ExomonadHarness.Scheduler

/-- What the protocol of a job's claimants depends on. -/
structure Publication where
  required : Bool
  settled : Bool
  published : Bool
  claimants : List ConversationIdentity
  listed : List ConversationIdentity

namespace Publication

/-- What a step of the protocol is about. -/
inductive Label where
  | quiet
  | claim (claimant : ConversationIdentity)
  | settle
  deriving DecidableEq

/-- A claim waits while nothing may be seen; the settlement lists who waits, and the
publication those who came since. -/
inductive Move : Publication → Label → Publication → Prop where
  | quiet (state : Publication) : Move state .quiet state
  | claim (state : Publication) (claimant : ConversationIdentity)
      (hidden : state.settled = true → state.required = true ∧ state.published = false) :
      Move state (.claim claimant)
        { state with claimants := state.claimants.insert claimant }
  | settle (state : Publication) (unsettled : state.settled = false)
      (drained : List ConversationIdentity) (order : drained.Perm state.claimants) :
      Move state .settle { state with settled := true, claimants := [], listed := drained }
  | settled (state : Publication) (already : state.settled = true) : Move state .settle state
  | commit (state : Publication) (settled : state.settled = true)
      (unpublished : state.published = false) (drained : List ConversationIdentity)
      (order : drained.Perm state.claimants) :
      Move state .quiet
        { state with published := true, claimants := [], listed := state.listed ++ drained }

def Label.claimant : Label → Option ConversationIdentity
  | .claim claimant => some claimant
  | _ => none

/-- The conversations told nothing before the settlement. -/
def before : List Label → List ConversationIdentity
  | [] | .settle :: _ => []
  | .claim claimant :: rest => claimant :: before rest
  | .quiet :: rest => before rest

/-- The conversations told nothing since the settlement. -/
def after : List Label → List ConversationIdentity
  | [] => []
  | .settle :: rest => rest.filterMap Label.claimant
  | .claim _ :: rest | .quiet :: rest => after rest

theorem append_unsettled {labels : List Label} (unsettled : Label.settle ∉ labels)
    (label : Label) :
    before (labels ++ [label]) = before labels ++ label.claimant.toList ∧
      after (labels ++ [label]) = [] := by
  induction labels with
  | nil => cases label <;> simp [before, after, Label.claimant]
  | cons head rest ih =>
    have tail := ih fun inside => unsettled (List.mem_cons_of_mem head inside)
    cases head with
    | settle => simp at unsettled
    | claim claimant => simpa [before, after] using tail
    | quiet => simpa [before, after] using tail

theorem append_settled {labels : List Label} (settled : Label.settle ∈ labels)
    (label : Label) :
    before (labels ++ [label]) = before labels ∧
      after (labels ++ [label]) = after labels ++ label.claimant.toList := by
  induction labels with
  | nil => simp at settled
  | cons head rest ih =>
    cases head with
    | settle => cases label <;> simp [before, after, Label.claimant]
    | claim claimant => simpa [before, after] using ih (by simpa using settled)
    | quiet => simpa [before, after] using ih (by simpa using settled)

theorem append_quiet (labels : List Label) :
    before (labels ++ [.quiet]) = before labels ∧ after (labels ++ [.quiet]) = after labels := by
  induction labels with
  | nil => simp [before, after]
  | cons head rest ih => cases head <;> simp_all [before, after, Label.claimant]

theorem append_settle_again {labels : List Label} (settled : Label.settle ∈ labels) :
    before (labels ++ [.settle]) = before labels ∧
      after (labels ++ [.settle]) = after labels := by
  simpa [Label.claimant] using append_settled settled .settle

/-- What a publication owes to the labels of its run. -/
structure Explained (labels : List Label) (state : Publication) : Prop where
  settled : state.settled = true ↔ Label.settle ∈ labels
  nodup : state.claimants.Nodup
  waiting : state.settled = false → state.published = false ∧
    ∀ claimant, claimant ∈ state.claimants ↔ claimant ∈ before labels
  since : state.settled = true → state.published = false → state.listed.Nodup ∧
    (∀ claimant, claimant ∈ state.listed ↔ claimant ∈ before labels) ∧
    ∀ claimant, claimant ∈ state.claimants ↔ claimant ∈ after labels
  done : state.published = true → ∀ claimant, state.listed.count claimant =
    (if claimant ∈ before labels then 1 else 0) + if claimant ∈ after labels then 1 else 0
  seen : state.required = false → after labels = []

theorem Explained.settled_of_published {labels : List Label} {state : Publication}
    (explained : Explained labels state) (published : state.published = true) :
    state.settled = true := by
  by_contra unsettled
  have unpublished := (explained.waiting (by simpa using unsettled)).1
  simp [published] at unpublished

variable {labels : List Label} {state next : Publication} {label : Label}

/-- The labels may grow by what neither claims nor settles for the first time. -/
theorem Explained.congr (explained : Explained labels state) {more : List Label}
    (settled : Label.settle ∈ more ↔ Label.settle ∈ labels)
    (same : before more = before labels ∧ after more = after labels) :
    Explained more state where
  settled := by rw [settled]; exact explained.settled
  nodup := explained.nodup
  waiting := by rw [same.1]; exact explained.waiting
  since := by rw [same.1, same.2]; exact explained.since
  done := by rw [same.1, same.2]; exact explained.done
  seen := by rw [same.2]; exact explained.seen

theorem Explained.claim (explained : Explained labels state) (claimant : ConversationIdentity)
    (hidden : state.settled = true → state.required = true ∧ state.published = false) :
    Explained (labels ++ [.claim claimant])
      { state with claimants := state.claimants.insert claimant } where
  settled := by simpa using explained.settled
  nodup := explained.nodup.insert
  waiting := by
    intro unsettled
    obtain ⟨unpublished, waiting⟩ := explained.waiting unsettled
    have fresh : Label.settle ∉ labels := by
      rw [← explained.settled]
      simpa using unsettled
    refine ⟨unpublished, ?_⟩
    intro other
    rw [(append_unsettled fresh _).1]
    simp [Label.claimant, waiting other, or_comm]
  since := by
    intro settled unpublished
    obtain ⟨nodup, listed, since⟩ := explained.since settled unpublished
    obtain ⟨beforeSame, afterGrown⟩ :=
      append_settled (explained.settled.mp settled) (.claim claimant)
    rw [beforeSame, afterGrown]
    refine ⟨nodup, listed, ?_⟩
    intro other
    simp [Label.claimant, since other, or_comm]
  done := by
    intro published
    have held := hidden (explained.settled_of_published published)
    exact absurd published (by simp [held.2])
  seen := by
    intro optional
    by_cases settled : state.settled = true
    · have required := (hidden settled).1
      exact absurd optional (by simp [required])
    · apply (append_unsettled _ _).2
      rw [← explained.settled]
      exact settled

theorem Explained.settle (explained : Explained labels state) (unsettled : state.settled = false)
    {drained : List ConversationIdentity} (order : drained.Perm state.claimants) :
    Explained (labels ++ [.settle])
      { state with settled := true, claimants := [], listed := drained } := by
  obtain ⟨unpublished, waiting⟩ := explained.waiting unsettled
  have fresh : Label.settle ∉ labels := by
    rw [← explained.settled]
    simpa using unsettled
  obtain ⟨beforeGrown, afterEmpty⟩ := append_unsettled fresh .settle
  refine ⟨by simp, List.nodup_nil, by simp, ?_, ?_, ?_⟩
  · intro _ _
    rw [beforeGrown, afterEmpty]
    refine ⟨order.nodup_iff.mpr explained.nodup, ?_, by simp⟩
    intro claimant
    rw [order.mem_iff]
    simpa [Label.claimant] using waiting claimant
  · intro published
    simp [unpublished] at published
  · intro _
    exact afterEmpty

theorem Explained.commit (explained : Explained labels state) (settled : state.settled = true)
    (unpublished : state.published = false) {drained : List ConversationIdentity}
    (order : drained.Perm state.claimants) :
    Explained (labels ++ [.quiet])
      { state with
        published := true, claimants := [], listed := state.listed ++ drained } := by
  obtain ⟨nodup, listed, since⟩ := explained.since settled unpublished
  obtain ⟨beforeSame, afterSame⟩ := append_quiet labels
  refine ⟨by simpa using explained.settled, List.nodup_nil, ?_, by simp, ?_, ?_⟩
  · intro unsettled
    simp [settled] at unsettled
  · intro _ claimant
    have drainedNodup := order.nodup_iff.mpr explained.nodup
    rw [beforeSame, afterSame, List.count_append, nodup.count, drainedNodup.count]
    simp only [listed, order.mem_iff, since]
  · rw [afterSame]
    exact explained.seen

/-- What one step keeps. -/
theorem Explained.move (explained : Explained labels state) (moved : Move state label next) :
    Explained (labels ++ [label]) next := by
  cases moved with
  | quiet => exact explained.congr (by simp) (append_quiet labels)
  | claim claimant hidden => exact explained.claim claimant hidden
  | settle unsettled drained order => exact explained.settle unsettled order
  | settled already =>
    have settled := explained.settled.mp already
    exact explained.congr (by simp [settled]) (append_settle_again settled)
  | commit settled unpublished drained order => exact explained.commit settled unpublished order

/-- Once a publication owes nothing, each conversation is listed once for each side of
the settlement on which it was told nothing. -/
theorem Explained.count (explained : Explained labels state) (settled : state.settled = true)
    (owed : state.required = true → state.published = true) (claimant : ConversationIdentity) :
    state.listed.count claimant =
      (if claimant ∈ before labels then 1 else 0) +
        if claimant ∈ after labels then 1 else 0 := by
  by_cases published : state.published = true
  · exact explained.done published claimant
  · have unpublished : state.published = false := by simpa using published
    have optional : state.required = false := by
      by_contra required
      exact published (owed (by simpa using required))
    obtain ⟨nodup, listed, _⟩ := explained.since settled unpublished
    rw [nodup.count, explained.seen optional]
    simp [listed claimant]

/-- Where nobody that is listed claims again, nobody is left without an output on both
sides of the settlement. -/
theorem Explained.disjoint (explained : Explained labels state) (moved : Move state label next)
    (unlisted : ∀ claimant, label = .claim claimant → claimant ∉ state.listed)
    (disjoint : ∀ claimant ∈ after labels, claimant ∉ before labels) :
    ∀ claimant ∈ after (labels ++ [label]), claimant ∉ before (labels ++ [label]) := by
  by_cases settled : Label.settle ∈ labels
  · obtain ⟨beforeSame, afterGrown⟩ := append_settled settled label
    rw [beforeSame, afterGrown]
    intro claimant member
    rcases List.mem_append.mp member with old | new
    · exact disjoint claimant old
    · cases moved with
      | claim other hidden =>
        have listed := explained.since (explained.settled.mpr settled)
          (hidden (explained.settled.mpr settled)).2
        rw [← listed.2.1]
        apply unlisted
        simpa [Label.claimant, eq_comm] using new
      | _ => simp [Label.claimant] at new
  · rw [(append_unsettled settled label).2]
    simp

theorem mem_before_or_after (labels : List Label) (claimant : ConversationIdentity) :
    claimant ∈ labels.filterMap Label.claimant ↔
      claimant ∈ before labels ∨ claimant ∈ after labels := by
  induction labels with
  | nil => simp [before, after]
  | cons head rest ih =>
    cases head with
    | quiet =>
      rw [List.filterMap_cons_none rfl]
      exact ih
    | settle =>
      rw [List.filterMap_cons_none rfl]
      simp only [before, after, List.not_mem_nil, false_or]
    | claim other =>
      have head : (Label.claim other).claimant = some other := rfl
      rw [List.filterMap_cons_some head]
      simp only [before, after, List.mem_cons, ih, or_assoc]

/-- Then a publication that owes nothing lists exactly those left without an output, and
each of them once. -/
theorem Explained.count_once (explained : Explained labels state)
    (disjoint : ∀ claimant ∈ after labels, claimant ∉ before labels)
    (settled : state.settled = true) (owed : state.required = true → state.published = true)
    (claimant : ConversationIdentity) :
    state.listed.count claimant =
      if claimant ∈ labels.filterMap Label.claimant then 1 else 0 := by
  rw [explained.count settled owed claimant]
  simp only [mem_before_or_after]
  by_cases early : claimant ∈ before labels
  · have late : claimant ∉ after labels := fun late => disjoint claimant late early
    simp [early, late]
  · simp [early]

end Publication

variable {Failure Context : Type}

def Job.publication (job : Job Failure Context) : Publication where
  required := job.requiresPublication
  settled := job.output.isSome
  published := job.published
  claimants := job.claimants
  listed := job.settledClaimants

/-- A claim or an attachment without output waits for one. -/
def Answer.label : Answer Failure Context → Publication.Label
  | .claimed claimant none | .attached claimant (.ok (none, _)) => .claim claimant
  | .settled _ _ => .settle
  | _ => .quiet

namespace Job

open Publication

variable (job : Job Failure Context)

/-- A section that leaves the claimants, the output and the publication alone. -/
theorem move_quiet {new : Job Failure Context} (same : new.publication = job.publication) :
    Move job.publication .quiet new.publication :=
  same ▸ .quiet _

theorem hidden_of_visible (unseen : job.visible = none) :
    job.publication.settled = true →
      job.publication.required = true ∧ job.publication.published = false := by
  intro settled
  unfold visible at unseen
  split at unseen
  · rename_i owed
    simpa [publication] using owed
  · rw [publication] at settled
    simp [unseen] at settled

theorem move_claim (claimant : ConversationIdentity) :
    Move job.publication
      (Answer.claimed claimant (job.claim claimant).1 : Answer Failure Context).label
      (job.claim claimant).2.publication := by
  unfold claim
  split
  · exact .quiet _
  · rename_i unseen
    exact .claim _ claimant (job.hidden_of_visible unseen)

theorem move_forkOwnedAttachment (origin claimant : ConversationIdentity)
    (taskFinished : Bool) :
    Move job.publication
      (Answer.attached claimant (job.forkOwnedAttachment origin claimant taskFinished).1 :
        Answer Failure Context).label
      (job.forkOwnedAttachment origin claimant taskFinished).2.publication := by
  unfold forkOwnedAttachment
  dsimp only
  split
  · exact .quiet _
  · rcases unseen : job.visible with _ | output
    · exact .claim _ claimant (job.hidden_of_visible unseen)
    · exact .quiet _

variable {drained : List ConversationIdentity}

theorem move_markOutputCommitted (order : drained.Perm job.claimants) :
    Move job.publication .quiet (job.markOutputCommitted drained).2.publication := by
  unfold markOutputCommitted
  split
  · exact .quiet _
  · rename_i settled
    split
    · exact .quiet _
    · rename_i unpublished
      exact .commit _ (by simpa [publication, Option.isSome_iff_ne_none] using settled)
        (by simpa [publication] using unpublished) drained order

theorem move_record (unsettled : job.output = none) (output : JobOutput Failure)
    (order : drained.Perm job.claimants) :
    Move job.publication .settle (job.record output drained).publication :=
  .settle _ (by simp [publication, unsettled]) drained order

theorem move_settle (output : JobOutput Failure)
    (providerCompletion : Option (Except Failure Json.Value)) (order : drained.Perm job.claimants) :
    Move job.publication .settle (job.settle output providerCompletion drained).2.publication := by
  unfold settle
  dsimp only
  split
  · rename_i existing held
    exact .settled _ (by simp [publication, held])
  · rename_i unsettled
    exact job.move_record unsettled output order

end Job

variable {terminal : Option OperationId} {slot next : Slot Failure Context}
  {answer : Answer Failure Context}

theorem TaskStep.publication (taken : TaskStep terminal slot answer next) :
    Publication.Move slot.job.publication answer.label next.job.publication := by
  cases taken with
  | start =>
    apply slot.job.move_quiet
    simp only [Job.start]
    split <;> rfl
  | capture result =>
    apply slot.job.move_quiet
    simp only [Job.capture]
    split <;> rfl
  | settle output _ drained order => exact slot.job.move_settle output _ order
  | _ => exact .quiet _

theorem CallStep.publication [DecidableEq Failure] {current : Call Failure Context}
    {left : Option (Call Failure Context)}
    (taken : CallStep terminal slot current answer next left) :
    Publication.Move slot.job.publication answer.label next.job.publication := by
  cases taken with
  | cancelAdmit cause =>
    apply slot.job.move_quiet
    simp only [Job.admitCancellation]
    split <;> rfl
  | ownerRecord ack completion drained order output recorded =>
    unfold Job.recordAnswer at recorded ⊢
    dsimp only at recorded ⊢
    split at recorded
    · simp at recorded
    · rename_i unsettled
      rw [if_neg unsettled]
      exact slot.job.move_record (by simpa using unsettled) ack.output order
  | ownerOvertaken ack completion drained overtaken =>
    unfold Job.recordAnswer at overtaken ⊢
    dsimp only at overtaken ⊢
    split at overtaken
    · rename_i settled
      rw [if_pos settled]
      exact .quiet _
    · simp at overtaken
  | cancelUnowned drained order output recorded =>
    unfold Job.cancelUnowned at recorded ⊢
    split at recorded
    · simp at recorded
    · rename_i unsettled
      rw [if_neg unsettled]
      exact slot.job.move_record (by simpa using unsettled) .cancelled order
  | _ => exact .quiet _

theorem EntryStep.publication [DecidableEq Failure] {entry next : Entry Failure Context}
    (taken : EntryStep terminal entry answer next) :
    Publication.Move entry.slot.job.publication answer.label next.slot.job.publication := by
  cases taken with
  | task calls taken => exact taken.publication
  | call before after taken => exact taken.publication
  | release _ context =>
    apply entry.slot.job.move_quiet
    simp only [Job.release]
    split
    · rfl
    · split <;> rfl
  | claim _ claimant => exact entry.slot.job.move_claim claimant
  | attach _ claimant => exact entry.slot.job.move_forkOwnedAttachment _ claimant _
  | commit _ drained order => exact entry.slot.job.move_markOutputCommitted order
  | _ => exact .quiet _

section Runs

variable [DecidableEq Failure] {detachedStore : ℕ → String}
  {events : List (Event Failure Context)} {world : World Failure Context}
  {scheduler : ℕ} {operation : OperationId} {entry : Entry Failure Context}

/-- The conversations that a claim or an attachment left without an output. -/
def waiting (scheduler : ℕ) (operation : OperationId) (events : List (Event Failure Context)) :
    List ConversationIdentity :=
  ((answersOf scheduler operation events).map Answer.label).filterMap Publication.Label.claimant

/-- A conversation that is already listed does not claim again while the output may not
be seen. -/
def ClaimsOnce (entry : Entry Failure Context) : Answer Failure Context → Prop
  | .claimed claimant _ | .attached claimant _ =>
    claimant ∈ entry.slot.job.settledClaimants → entry.slot.job.visible.isSome
  | _ => True

theorem EntryStep.unlisted {terminal : Option OperationId} {entry next : Entry Failure Context}
    {answer : Answer Failure Context} (taken : EntryStep terminal entry answer next)
    (once : ClaimsOnce entry answer) (claimant : ConversationIdentity)
    (told : answer.label = .claim claimant) :
    claimant ∉ entry.slot.job.publication.listed := by
  cases taken with
  | task calls taken => cases taken <;> simp [Answer.label] at told
  | call before after taken => cases taken <;> simp [Answer.label] at told
  | claim _ other =>
    rw [Job.claim_visible] at told
    rcases seen : entry.slot.job.visible with _ | output
    · simp only [seen, Answer.label, Publication.Label.claim.injEq] at told
      subst told
      intro listed
      have shown := once listed
      simp [seen] at shown
    · simp [seen, Answer.label] at told
  | attach _ other =>
    rcases attached : (entry.slot.job.forkOwnedAttachment entry.slot.operation.origin other
      entry.slot.task.isFinished).1 with error | ⟨_ | output, publication⟩
    · simp [attached, Answer.label] at told
    · have seen := Job.attachment_visible _ _ _ _ attached
      simp only [attached, Answer.label, Publication.Label.claim.injEq] at told
      subst told
      intro listed
      have shown := once listed
      simp [← seen] at shown
    · simp [attached, Answer.label] at told
  | _ => simp [Answer.label] at told

/-- In a run in which nobody that is listed claims again before the publication, a job
that is settled and owes no publication lists exactly the conversations that were left
without an output, and each of them once. -/
theorem claimants_once
    (run : Transition.Run (StepWhen ClaimsOnce) (World.empty detachedStore) events world)
    (found : world.jobs scheduler operation = some entry)
    (settled : entry.slot.job.output.isSome)
    (committed : entry.slot.job.requiresPublication = true → entry.slot.job.published = true)
    (claimant : ConversationIdentity) :
    entry.slot.job.settledClaimants.count claimant =
      if claimant ∈ waiting scheduler operation events then 1 else 0 := by
  have kept := run_entry_when ClaimsOnce (fun answers entry =>
    Publication.Explained (answers.map Answer.label) entry.slot.job.publication ∧
      ∀ claimant ∈ Publication.after (answers.map Answer.label),
        claimant ∉ Publication.before (answers.map Answer.label)) ?_ ?_ run found
  · exact kept.1.count_once kept.2 settled committed claimant
  · intro admission
    refine ⟨?_, by simp [Publication.after]⟩
    constructor <;>
      simp [World.newEntry, Job.publication, Publication.before, Publication.after]
  · intro terminal answers entry answer after held taken once
    rw [List.map_append]
    exact ⟨held.1.move taken.publication,
      held.1.disjoint taken.publication (taken.unlisted once) held.2⟩

end Runs

/-- The queued operation is claimed, cancelled, perhaps claimed again, and published. -/
theorem queuedOperation_claimed (claimant : ConversationIdentity) :
    (∃ last, EntryRun ClaimsOnce (World.newEntry queuedOperation : Entry String Unit)
        [.claimed claimant none, .silent, .silent, .silent, .settled .cancelled [claimant],
          .committed (.ok ())] last ∧
      last.slot.job.output = some .cancelled ∧ last.slot.job.published = true) ∧
    ∃ last, EntryRun (fun _ _ => True) (World.newEntry queuedOperation : Entry String Unit)
        [.claimed claimant none, .silent, .silent, .silent, .settled .cancelled [claimant],
          .claimed claimant none, .committed (.ok ())] last ∧
      last.slot.job.output = some .cancelled ∧ last.slot.job.published = true ∧
      last.slot.job.settledClaimants = [claimant, claimant] := by
  have claimed : EntryRun ClaimsOnce (World.newEntry queuedOperation : Entry String Unit) _ _ :=
    EntryRun.step (.start _) (.claim _ claimant) (fun listed => by cases listed)
  have asked := EntryRun.step claimed (.cancel _ .unknown) trivial
  have gated := EntryRun.step asked (.call [] [] (.cancelGate _ .unknown rfl)) trivial
  have admitted := EntryRun.step gated
    (.call [] [] (.cancelAdmit _ .unknown .unknown false rfl)) trivial
  have settled := EntryRun.step admitted
    (.call [] [] (.cancelUnowned _ [claimant] (.refl _) .cancelled rfl)) trivial
  have published := EntryRun.step settled (.commit _ [] (.refl _)) trivial
  have again := EntryRun.step (settled.mono fun taken => ⟨taken.1, trivial⟩)
    (.claim _ claimant) trivial
  have committed := EntryRun.step again (.commit _ [claimant] (.refl _)) trivial
  exact ⟨⟨_, published, rfl, rfl⟩, _, committed, rfl, rfl, rfl⟩

/-- A conversation that claims again between the settlement and its publication is
listed twice. -/
theorem claimants_twice :
    ∃ events world entry claimant, Run (World.empty fun _ => "store") events world ∧
      world.jobs 0 queuedOperation.operation = some (entry : Entry String Unit) ∧
      entry.slot.job.output = some .cancelled ∧ entry.slot.job.published = true ∧
      claimant ∈ waiting 0 queuedOperation.operation events ∧
      entry.slot.job.settledClaimants.count claimant = 2 := by
  obtain ⟨_, last, steps, held, published, listed⟩ :=
    queuedOperation_claimed (.standalone "store" "agent")
  obtain ⟨events, world, run, found, told⟩ :=
    run_of_admission (fun _ => "store") 0 queuedOperation rfl (by decide) steps
  refine ⟨events, world, last, .standalone "store" "agent", run_of_when run, found, held,
    published, ?_, ?_⟩
  · rw [waiting, told]
    exact List.mem_cons_self ..
  · rw [listed]
    decide

/-- A conversation that claims before the settlement only is listed once. -/
theorem claimants_once_claimed :
    ∃ events world entry, Transition.Run (StepWhen ClaimsOnce) (World.empty fun _ => "store")
        events world ∧
      world.jobs 0 queuedOperation.operation = some (entry : Entry String Unit) ∧
      ∀ claimant, entry.slot.job.settledClaimants.count claimant =
        if claimant ∈ waiting 0 queuedOperation.operation events then 1 else 0 := by
  obtain ⟨⟨last, steps, held, published⟩, _⟩ :=
    queuedOperation_claimed (.standalone "store" "agent")
  obtain ⟨events, world, run, found, _⟩ :=
    run_of_admission (fun _ => "store") 0 queuedOperation rfl (by decide) steps
  refine ⟨events, world, last, run, found, ?_⟩
  exact claimants_once run found (by simp [held]) fun _ => published

end ExomonadHarness.Scheduler
