import ExomonadHarness.Browser.LedgerRuns

/-! Evidence of one host journal converges: whatever part of it arrives, in whatever
order, the record ends with the outcome the host settled and no contradiction is seen. -/

namespace ExomonadHarness.Browser

open Store Checked

def withWakeError (receipt : CommandReceipt) (error : String) : CommandReceipt :=
  match receipt.outcome with
  | .accepted continuation target envelope _ =>
    { receipt with outcome := .accepted continuation target envelope (some error) }
  | _ => receipt

/-- The receipt of an admitted input names the envelope. -/
def receiptEnvelope (receipt : CommandReceipt) : Option ℕ :=
  match receipt.outcome with
  | .accepted _ _ envelope _ => some envelope
  | _ => none

/-- What the host's journal says of one operation in the end. The status and the receipt
agree on the envelope, and only a wake error is ever added to the receipt. -/
structure HostHistory where
  run : String
  submission : HostCommandSubmission
  receipt : CommandReceipt
  wakeError : String
  envelopeId : Option ℕ
  request : RequestId
  matching : receiptMatches submission receipt = true
  envelope : ∀ named ∈ receiptEnvelope receipt, envelopeId = some named
  unwoken : ∀ continuation target named wake,
    receipt.outcome = .accepted continuation target named wake → wake = none

namespace HostHistory

variable (history : HostHistory)

def state : EmbeddedCommandState := receiptState history.receipt

def receipts : List CommandReceipt :=
  [history.receipt, withWakeError history.receipt history.wakeError]

def observations : List (Option InputObservation) :=
  [none, some .awaiting, some (.included history.request)]

/-- A status of this operation, in any spelling of its identities. -/
def Names (run : String) (status : EmbeddedCommandRecord) : Prop :=
  run = history.run ∧
    canonicalOperationId status.operationId = canonicalOperationId history.submission.operationId

/-- What the host reports once it has settled the operation. -/
structure Settles (status : EmbeddedCommandRecord) : Prop where
  state : status.state = history.state
  receipt : ∃ receipt ∈ history.receipts, status.receipt = some receipt
  envelope : status.envelopeId = history.envelopeId
  observation : status.inputObservation ∈ history.observations
  formed : status.inputObservation ≠ none →
    history.state = .inputAdmitted ∧ history.envelopeId.isSome = true

/-- Evidence of another operation or another run. -/
inductive Foreign : LedgerOperation → Prop where
  | status {run : String} {status : EmbeddedCommandRecord} (other : ¬history.Names run status) :
      Foreign (.status run status)
  | receipt {receipt : CommandReceipt}
      (other : canonicalOperationId receipt.commandId ≠
          canonicalOperationId history.submission.operationId ∨
        ∃ target, receiptTarget receipt = some target ∧
          target.run ≠ history.submission.command.target.run) : Foreign (.receipt receipt)

/-- Evidence of this journal, and evidence of others. -/
inductive Reports : LedgerOperation → Prop where
  | pending {run : String} {status : EmbeddedCommandRecord} (names : history.Names run status)
      (same : sameHostCommand history.submission.command status.command = true)
      (state : status.state = .queued ∨ status.state = .dispatching)
      (bare : status.receipt = none ∧ status.envelopeId = none ∧ status.inputObservation = none) :
      Reports (.status run status)
  | settled {run : String} {status : EmbeddedCommandRecord} (names : history.Names run status)
      (same : sameHostCommand history.submission.command status.command = true)
      (settles : history.Settles status) : Reports (.status run status)
  | receipt {receipt : CommandReceipt} (listed : receipt ∈ history.receipts) :
      Reports (.receipt receipt)
  | foreign {operation : LedgerOperation} (other : history.Foreign operation) : Reports operation

/-- Evidence that settles the operation and is not ignored for want of a target. -/
inductive Final : LedgerOperation → Prop where
  | status {run : String} {status : EmbeddedCommandRecord} (names : history.Names run status)
      (settles : history.Settles status) : Final (.status run status)
  | receipt {receipt : CommandReceipt} (listed : receipt ∈ history.receipts)
      (target : (receiptTarget receipt).isSome = true) : Final (.receipt receipt)

end HostHistory

/-- What one record becomes. -/
def receive (record : BrowserCommandRecord) : LedgerOperation → BrowserCommandRecord
  | .status run status =>
    if sameOperation record run status.operationId then applyStatus record status else record
  | .receipt receipt =>
    if (receiptTarget receipt).isSome && receiptMatches record.submission receipt then
      mergeEvidence record .receipt (receiptEvidence receipt)
    else record
  | .retain .. | .observe .. => record

variable {records next : List BrowserCommandRecord} {operation : LedgerOperation}
variable {history : HostHistory} {record : BrowserCommandRecord}

theorem operationKey_receive (record : BrowserCommandRecord) (operation : LedgerOperation) :
    operationKey (receive record operation) = operationKey record := by
  cases operation with
  | retain | observe => rfl
  | status run status =>
    rw [receive]
    split
    · exact operationKey_applyStatus record status
    · rfl
  | receipt receipt =>
    rw [receive]
    split
    · exact operationKey_mergeEvidence record _ _
    · rfl

theorem applyCommandStatus_eq_ok {run : String} {status : EmbeddedCommandRecord} :
    applyCommandStatus records run status = .ok next ↔
      (∀ record ∈ records, sameOperation record run status.operationId = true →
        sameHostCommand record.submission.command status.command = true) ∧
      next = records.map (receive · (.status run status)) := by
  rw [applyCommandStatus, mapM_eq_ok]
  induction records generalizing next with
  | nil => simp
  | cons record rest ih =>
    rw [List.forall₂_cons_left_iff]
    simp only [ih, List.forall_mem_cons, List.map_cons, receive]
    by_cases operation : sameOperation record run status.operationId = true
    · by_cases command : sameHostCommand record.submission.command status.command = true
      · simp [operation, command]
      · simp [operation, command]
    · simp [operation]

theorem applyCommandReceipt_eq (records : List BrowserCommandRecord) (receipt : CommandReceipt) :
    applyCommandReceipt records receipt = records.map (receive · (.receipt receipt)) := by
  unfold applyCommandReceipt
  split
  case isTrue ignored =>
    have same : ∀ record ∈ records, receive record (.receipt receipt) = record := by
      intro record _
      simp only [Bool.or_eq_true, Bool.not_eq_true', Option.isNone_iff_eq_none] at ignored
      rcases ignored with missing | invalid
      · simp [receive, missing]
      · simp [receive, receiptMatches, invalid]
    rw [List.map_congr_left same, List.map_id']
  case isFalse known =>
    simp only [Bool.or_eq_true, not_or, Option.isNone_iff_eq_none, ← Option.isSome_iff_ne_none]
      at known
    simp [receive, known.1]

/-! The receipts of one journal. -/

namespace HostHistory

theorem facts {receipt : CommandReceipt} (listed : receipt ∈ history.receipts) :
    receiptMatches history.submission receipt = true ∧ receiptState receipt = history.state ∧
      receiptEnvelope receipt = receiptEnvelope history.receipt := by
  rcases List.mem_cons.mp listed with same | listed
  · subst same
    exact ⟨history.matching, rfl, rfl⟩
  · rw [List.mem_singleton] at listed
    subst listed
    have matching := history.matching
    unfold withWakeError
    split
    case h_1 wake outcome =>
      simp only [receiptMatches, receiptTarget, outcome, receiptState, state, receiptEnvelope]
        at matching ⊢
      rw [outcomeFits_accepted] at matching
      exact ⟨matching, trivial, trivial⟩
    case h_2 => exact ⟨matching, rfl, rfl⟩

theorem receiptConflict_eq_none {held seen : CommandReceipt} (first : held ∈ history.receipts)
    (second : seen ∈ history.receipts) (settled : Bool) :
    receiptConflict settled held.outcome seen.outcome = none := by
  simp only [receipts, List.mem_cons, List.not_mem_nil, or_false] at first second
  cases outcome : history.receipt.outcome with
  | accepted continuation target envelope wake =>
    have none_yet := history.unwoken _ _ _ _ outcome
    subst none_yet
    rcases first with same | same <;> rcases second with other | other <;> subst same <;>
      subst other <;> simp [withWakeError, outcome, receiptConflict]
  | _ =>
    rcases first with same | same <;> rcases second with other | other <;> subst same <;>
      subst other <;> simp [withWakeError, outcome, receiptConflict]

theorem combineReceipts_mem {held seen : CommandReceipt} (first : held ∈ history.receipts)
    (second : seen ∈ history.receipts) :
    ∃ receipt ∈ history.receipts, combineReceipts (some held) (some seen) = some receipt := by
  simp only [receipts, List.mem_cons, List.not_mem_nil, or_false, exists_eq_or_imp,
    exists_eq_left] at first second ⊢
  have unwoken := history.unwoken
  obtain ⟨run, submission, ⟨id, outcome⟩, error, envelopeId, request, _, _, _⟩ := history
  cases outcome with
  | accepted continuation target envelope wake =>
    have none_yet := unwoken _ _ _ _ rfl
    subst none_yet
    rcases first with same | same <;> rcases second with other | other <;> subst same <;>
      subst other <;> simp [withWakeError, combineReceipts]
  | _ =>
    rcases first with same | same <;> rcases second with other | other <;> subst same <;>
      subst other <;> simp [withWakeError, combineReceipts]

theorem stateFits_state : stateFits history.submission.command history.state = true := by
  have matching := history.matching
  simp only [receiptMatches, Bool.and_eq_true] at matching
  have fits := matching.2
  unfold state receiptState
  cases outcome : history.receipt.outcome <;> cases command : history.submission.command <;>
    simp_all [stateFits, outcomeFits]

theorem finalState_state (history : HostHistory) :
    finalState history.state = true ∨ history.state = .unconfirmed := by
  unfold state receiptState
  cases history.receipt.outcome <;> simp [finalState]

theorem outdated_state (history : HostHistory) (record : BrowserCommandRecord) :
    outdated record history.state = false := by
  unfold outdated state receiptState
  cases history.receipt.outcome <;> cases record.state <;> simp

end HostHistory

/-! What holds of the record at each point. -/

namespace HostHistory

/-- The record has the outcome the host settled. -/
structure Outcome (history : HostHistory) (record : BrowserCommandRecord) : Prop where
  authority : record.authority.authoritative = true
  state : record.state = history.state
  receipt : ∃ receipt ∈ history.receipts, record.receipt = some receipt
  envelope : record.envelopeId = none ∨ record.envelopeId = history.envelopeId
  observation : record.inputObservation ∈ history.observations

/-- No final evidence has arrived. -/
structure Early (record : BrowserCommandRecord) : Prop where
  state : record.state = .queued ∨ record.state = .dispatching
  receipt : record.receipt = none
  envelope : record.envelopeId = none
  observation : record.inputObservation = none

structure Tracks (history : HostHistory) (record : BrowserCommandRecord) : Prop where
  run : record.hostRun = history.run
  submission : record.submission = history.submission
  issues : record.issues = []
  progress : Early record ∨ history.Outcome record

/-- The final evidence of the journal, from a status or from a receipt alone. -/
structure Settling (history : HostHistory) (seen : Evidence) : Prop where
  state : seen.state = history.state
  receipt : ∃ receipt ∈ history.receipts, seen.receipt = some receipt
  envelope : seen.envelopeId = none ∨ seen.envelopeId = history.envelopeId

variable {seen : Evidence} {authority : Authority}

theorem Early.isSettledCommand (early : Early record) : isSettledCommand record = false := by
  rcases early.state with same | same <;> simp [Browser.isSettledCommand, same, finalState]

theorem Tracks.taken (tracks : history.Tracks record) (settling : history.Settling seen) :
    Taken record seen := by
  obtain ⟨receipt, listed, given⟩ := settling.receipt
  obtain ⟨matching, state, -⟩ := facts listed
  refine ⟨?_, ?_, ?_, ?_, ?_, ?_, ?_⟩
  · rw [tracks.submission, settling.state]
    exact stateFits_state
  · rw [settling.state]
    exact outdated_state history record
  · simp [given, tracks.submission, matching]
  · simp [given, settling.state, state]
  · intro settled
    rcases tracks.progress with early | outcome
    · rw [early.isSettledCommand] at settled
      cases settled
    · rw [outcome.state, settling.state]
  · rcases tracks.progress with early | outcome
    · rw [early.envelope]
      rfl
    · rcases outcome.envelope with same | same <;> rcases settling.envelope with other | other <;>
        simp [same, other]
  · intro held inside seen' given'
    rcases tracks.progress with early | outcome
    · rw [early.receipt] at inside
      cases inside
    · obtain ⟨kept, known, same⟩ := outcome.receipt
      rw [same] at inside
      rw [given] at given'
      cases inside
      cases given'
      exact receiptConflict_eq_none known listed _

theorem Tracks.merge_settling (tracks : history.Tracks record) (settling : history.Settling seen)
    (source : authority = .status ∨ authority = .receipt) :
    mergeEvidence record authority seen = takeEvidence record authority seen ∧
      history.Tracks (takeEvidence record authority seen) ∧
      history.Outcome (takeEvidence record authority seen) := by
  have taken := tracks.taken settling
  have outcome : history.Outcome (takeEvidence record authority seen) := by
    obtain ⟨receipt, listed, given⟩ := settling.receipt
    refine ⟨authoritative_of_source source, settling.state, ?_, ?_, ?_⟩
    · rcases tracks.progress with early | outcome
      · refine ⟨receipt, listed, ?_⟩
        simp [takeEvidence, early.receipt, given, combineReceipts]
      · obtain ⟨held, known, same⟩ := outcome.receipt
        obtain ⟨combined, inside, result⟩ := combineReceipts_mem known listed
        exact ⟨combined, inside, by simp only [takeEvidence, same, given, result]⟩
    · have before : record.envelopeId = none ∨ record.envelopeId = history.envelopeId :=
        tracks.progress.elim (fun early => .inl early.envelope) Outcome.envelope
      rcases settling.envelope with same | same <;> rcases before with other | other <;>
        simp [takeEvidence, same, other]
    · rcases tracks.progress with early | outcome
      · simp [takeEvidence, early.observation, observations]
      · exact outcome.observation
  refine ⟨?_, ⟨tracks.run, tracks.submission, tracks.issues, .inr outcome⟩, outcome⟩
  rw [mergeEvidence, mergeRefused_eq_none.mpr taken]
  rfl

/-- Evidence from before the outcome. -/
theorem Tracks.merge_pending (tracks : history.Tracks record)
    (state : seen.state = .queued ∨ seen.state = .dispatching)
    (bare : seen.receipt = none ∧ seen.envelopeId = none) :
    (history.Outcome record → mergeEvidence record .status seen = record) ∧
      history.Tracks (mergeEvidence record .status seen) := by
  have fits : stateFits record.submission.command seen.state = true := by
    rcases state with same | same <;> rw [same] <;> cases record.submission.command <;> rfl
  have pending : finalState seen.state = false := by
    rcases state with same | same <;> rw [same] <;> rfl
  have settled (outcome : history.Outcome record) : mergeRefused record seen = some record := by
    rcases history.finalState_state with final | unconfirmed
    · simp [mergeRefused, fits, bare.1, isSettledCommand, outcome.authority, outcome.state, final,
        pending]
    · have old : outdated record seen.state = true := by
        rcases state with same | same <;>
          simp [outdated, outcome.authority, outcome.state, unconfirmed, same]
      simp [mergeRefused, fits, old]
  refine ⟨fun outcome => by rw [mergeEvidence, settled outcome]; rfl, ?_⟩
  rcases tracks.progress with early | outcome
  · have refused : mergeRefused record seen =
        if outdated record seen.state then some record else none := by
      simp [mergeRefused, fits, bare.1, bare.2, early.isSettledCommand]
    rw [mergeEvidence, refused]
    split
    · exact tracks
    · refine ⟨tracks.run, tracks.submission, tracks.issues, .inl ⟨state, ?_, ?_, early.observation⟩⟩
      · simp [takeEvidence, early.receipt, bare.1, combineReceipts]
      · simp [takeEvidence, early.envelope, bare.2]
  · rw [mergeEvidence, settled outcome]
    exact tracks

/-! One piece of evidence, and all of them. -/

variable {status : EmbeddedCommandRecord}

theorem Tracks.sameOperation_iff (tracks : history.Tracks record) {run : String} :
    sameOperation record run status.operationId = true ↔ history.Names run status := by
  simp only [sameOperation, Names, tracks.run, tracks.submission, Bool.and_eq_true,
    decide_eq_true_eq]
  constructor
  · intro same
    exact ⟨same.1.symm, same.2.symm⟩
  · intro same
    exact ⟨same.1.symm, same.2.symm⟩

theorem Tracks.receive_foreign (tracks : history.Tracks record)
    (other : history.Foreign operation) : receive record operation = record := by
  cases other with
  | status other =>
    rw [receive, if_neg]
    exact fun same => other (tracks.sameOperation_iff.mp same)
  | receipt other =>
    rw [receive, if_neg]
    simp only [receiptMatches, tracks.submission, Bool.and_eq_true, decide_eq_true_eq,
      Option.all_eq_true]
    intro given
    obtain ⟨-, ⟨⟨-, id⟩, target⟩, -⟩ := given
    rcases other with other | ⟨found, named, other⟩
    · exact other id
    · exact other (congrArg HostIdentity.run (target found named))

/-- What each piece of evidence leaves as it is. -/
structure Advances (history : HostHistory) (record later : BrowserCommandRecord) : Prop where
  tracks : history.Tracks later
  outcome : history.Outcome record → history.Outcome later
  envelope : history.Outcome record → record.envelopeId = history.envelopeId →
    later.envelopeId = history.envelopeId
  inclusion : record.inputObservation = some (.included history.request) →
    later.inputObservation = some (.included history.request)

theorem Tracks.advances_refl (tracks : history.Tracks record) : history.Advances record record :=
  ⟨tracks, id, fun _ same => same, id⟩

theorem Tracks.advances_take {seen : Evidence} {authority : Authority}
    (tracks : history.Tracks record) (settling : history.Settling seen)
    (source : authority = .status ∨ authority = .receipt) :
    history.Advances record (takeEvidence record authority seen) := by
  obtain ⟨-, later, outcome⟩ := tracks.merge_settling settling source
  refine ⟨later, fun _ => outcome, fun _ same => ?_, id⟩
  rcases settling.envelope with other | other <;> simp [takeEvidence, other, same]

theorem Settles.settling (settles : history.Settles status) :
    history.Settling status.evidence :=
  ⟨settles.state, settles.receipt, .inr settles.envelope⟩

theorem settling_receipt {receipt : CommandReceipt} (listed : receipt ∈ history.receipts) :
    history.Settling (receiptEvidence receipt) :=
  ⟨(facts listed).2.1, ⟨receipt, listed, rfl⟩, .inl rfl⟩

/-- The input a final status reports. -/
theorem Tracks.observe (tracks : history.Tracks record) (settles : history.Settles status) :
    ∃ observation ∈ history.observations,
      applyStatus record status = { takeEvidence record .status status.evidence with
        inputObservation := observation } ∧
      (record.inputObservation = some (.included history.request) ∨
          status.inputObservation = some (.included history.request) →
        observation = some (.included history.request)) := by
  obtain ⟨merged, -, outcome⟩ := tracks.merge_settling settles.settling (.inl rfl)
  have before := outcome.observation
  rw [applyStatus, merged]
  cases reported : status.inputObservation with
  | none =>
    refine ⟨record.inputObservation, before, ?_, ?_⟩
    · simp only [observeInput, reported]
      rfl
    · intro included
      exact included.elim id (fun nothing => by cases nothing)
  | some observation =>
    obtain ⟨state, envelope⟩ := settles.formed (by simp [reported])
    have known : status.envelopeId.isSome = true := settles.envelope ▸ envelope
    have same : status.envelopeId.or record.envelopeId = status.envelopeId := by
      obtain ⟨id, given⟩ := Option.isSome_iff_exists.mp known
      rw [given]
      rfl
    have listed := settles.observation
    rw [reported] at listed
    have keeps : observeInput record (takeEvidence record .status status.evidence) status =
        keepInclusion (takeEvidence record .status status.evidence) record.inputObservation
          observation := by
      have taken : (takeEvidence record .status status.evidence).state = .inputAdmitted :=
        settles.state.trans state
      have named : (takeEvidence record .status status.evidence).envelopeId = status.envelopeId :=
        same
      simp [observeInput, reported, taken, named, settles.state, state]
    have held : record.inputObservation ∈ history.observations := before
    have unchanged : record.inputObservation = some (.included history.request) →
        takeEvidence record .status status.evidence = { takeEvidence record .status status.evidence
          with inputObservation := some (.included history.request) } := by
      intro included
      simp [takeEvidence, included]
    rw [keeps]
    clear keeps reported
    simp only [observations, List.mem_cons, List.not_mem_nil, or_false, Option.some.injEq,
      reduceCtorEq, false_or] at held listed
    rcases held with held | held | held <;> rcases listed with given | given <;>
      subst given <;> rw [held]
    · exact ⟨some .awaiting, by simp [observations], rfl, by simp⟩
    · exact ⟨some (.included history.request), by simp [observations], rfl, by simp⟩
    · exact ⟨some .awaiting, by simp [observations], rfl, by simp⟩
    · exact ⟨some (.included history.request), by simp [observations], rfl, by simp⟩
    · exact ⟨some (.included history.request), by simp [observations], unchanged held, by simp⟩
    · refine ⟨some (.included history.request), by simp [observations], ?_, by simp⟩
      simpa [keepInclusion] using unchanged held

theorem Outcome.withObservation {observation : Option InputObservation}
    (outcome : history.Outcome record) (listed : observation ∈ history.observations) :
    history.Outcome { record with inputObservation := observation } :=
  ⟨outcome.authority, outcome.state, outcome.receipt, outcome.envelope, listed⟩

theorem Tracks.advances (tracks : history.Tracks record) (reported : history.Reports operation) :
    history.Advances record (receive record operation) := by
  cases reported with
  | pending names same state bare =>
    clear same
    rename_i run status
    have seen : status.evidence.receipt = none ∧ status.evidence.envelopeId = none :=
      ⟨bare.1, bare.2.1⟩
    obtain ⟨same, later⟩ := tracks.merge_pending (show status.evidence.state = _ ∨ _ from state) seen
    have result : applyStatus record status = mergeEvidence record .status status.evidence := by
      simp [applyStatus, observeInput, bare.2.2]
    rw [receive, if_pos (tracks.sameOperation_iff.mpr names), result]
    refine ⟨later, fun outcome => by rwa [same outcome], fun outcome => by rw [same outcome]; exact id,
      fun included => ?_⟩
    rcases tracks.progress with early | outcome
    · rw [early.observation] at included
      cases included
    · rwa [same outcome]
  | settled names _ settles =>
    rw [receive, if_pos (tracks.sameOperation_iff.mpr names)]
    obtain ⟨observation, listed, result, included⟩ := tracks.observe settles
    have took := tracks.advances_take settles.settling (.inl rfl : Authority.status = _ ∨ _)
    obtain ⟨-, -, outcome⟩ := tracks.merge_settling settles.settling (.inl rfl : Authority.status = _ ∨ _)
    rw [result]
    have done := outcome.withObservation listed
    exact ⟨⟨took.tracks.run, took.tracks.submission, took.tracks.issues, .inr done⟩, fun _ => done,
      took.envelope, fun before => included (.inl before)⟩
  | receipt listed =>
    rw [receive]
    split
    · rw [(tracks.merge_settling (settling_receipt listed) (.inr rfl)).1]
      exact tracks.advances_take (settling_receipt listed) (.inr rfl)
    · exact tracks.advances_refl
  | foreign other =>
    rw [tracks.receive_foreign other]
    exact tracks.advances_refl

theorem Advances.trans {middle later : BrowserCommandRecord}
    (first : history.Advances record middle) (second : history.Advances middle later) :
    history.Advances record later where
  tracks := second.tracks
  outcome := fun outcome => second.outcome (first.outcome outcome)
  envelope := fun outcome same => second.envelope (first.outcome outcome) (first.envelope outcome same)
  inclusion := fun included => second.inclusion (first.inclusion included)

theorem Tracks.advances_foldl {operations : List LedgerOperation} (tracks : history.Tracks record)
    (reported : ∀ operation ∈ operations, history.Reports operation) :
    history.Advances record (operations.foldl receive record) := by
  induction operations generalizing record with
  | nil => exact tracks.advances_refl
  | cons operation rest ih =>
    have first := tracks.advances (reported operation List.mem_cons_self)
    exact first.trans (ih first.tracks fun later member =>
      reported later (List.mem_cons_of_mem operation member))

theorem Tracks.receive_settled {run : String} (tracks : history.Tracks record)
    (names : history.Names run status) (settles : history.Settles status) :
    history.Outcome (receive record (.status run status)) ∧
      (receive record (.status run status)).envelopeId = history.envelopeId ∧
      (status.inputObservation = some (.included history.request) →
        (receive record (.status run status)).inputObservation =
          some (.included history.request)) := by
  rw [receive, if_pos (tracks.sameOperation_iff.mpr names)]
  obtain ⟨observation, listed, result, included⟩ := tracks.observe settles
  obtain ⟨-, -, outcome⟩ :=
    tracks.merge_settling settles.settling (.inl rfl : Authority.status = _ ∨ _)
  rw [result]
  refine ⟨outcome.withObservation listed, ?_, fun reported => included (.inr reported)⟩
  rcases outcome.envelope with missing | same
  · have nothing : status.envelopeId.or record.envelopeId = none := missing
    rw [Option.or_eq_none_iff, settles.envelope] at nothing
    exact missing.trans nothing.1.symm
  · exact same

theorem Tracks.receive_final (tracks : history.Tracks record) (final : history.Final operation) :
    history.Outcome (receive record operation) := by
  cases final with
  | status names settles => exact (tracks.receive_settled names settles).1
  | receipt listed target =>
    have matching := (facts listed).1
    rw [receive, tracks.submission, target, matching, Bool.and_true, if_pos rfl,
      (tracks.merge_settling (settling_receipt listed) (.inr rfl)).1]
    exact (tracks.merge_settling (settling_receipt listed) (.inr rfl)).2.2

/-- In the ledger the record becomes what the evidence makes of it, and no other record
is of its operation. -/
theorem Tracks.perform (tracks : history.Tracks record) (reported : history.Reports operation)
    (distinct : (records.map operationKey).Nodup) (member : record ∈ records) :
    receive record operation ∈ operation.perform records ∧
      ((operation.perform records).map operationKey).Nodup := by
  have mapped {operation : LedgerOperation}
      (ran : operation.run records = .ok (records.map (receive · operation))) :
      receive record operation ∈ operation.perform records ∧
        ((operation.perform records).map operationKey).Nodup := by
    rw [LedgerOperation.perform, ran]
    refine ⟨List.mem_map_of_mem member, ?_⟩
    have keys : (operationKey ∘ fun record => receive record operation) = operationKey :=
      funext fun record => operationKey_receive record operation
    rw [List.map_map, keys]
    exact distinct
  have own {run : String} {status : EmbeddedCommandRecord} (names : history.Names run status)
      (same : sameHostCommand history.submission.command status.command = true) :
      applyCommandStatus records run status = .ok (records.map (receive · (.status run status))) := by
    refine applyCommandStatus_eq_ok.mpr ⟨fun other inside operation => ?_, rfl⟩
    have key : operationKey other = operationKey record := by
      have mine := tracks.sameOperation_iff.mpr names
      simp only [sameOperation, Bool.and_eq_true, decide_eq_true_eq] at mine operation
      exact Prod.ext (operation.1.trans mine.1.symm) (operation.2.trans mine.2.symm)
    rw [List.inj_on_of_nodup_map distinct inside member key, tracks.submission]
    exact same
  cases reported with
  | pending names same | settled names same => exact mapped (own names same)
  | receipt => exact mapped (congrArg Except.ok (applyCommandReceipt_eq records _))
  | foreign other =>
    cases other with
    | receipt => exact mapped (congrArg Except.ok (applyCommandReceipt_eq records _))
    | status other =>
      rename_i run status
      cases ran : applyCommandStatus records run status with
      | ok next => exact mapped (ran.trans (congrArg Except.ok (applyCommandStatus_eq_ok.mp ran).2))
      | error failure =>
        have unchanged : (LedgerOperation.status run status).perform records = records := by
          simp only [LedgerOperation.perform, LedgerOperation.run, ran]
        rw [unchanged, tracks.receive_foreign (.status other)]
        exact ⟨member, distinct⟩

theorem Tracks.foldl_perform {operations : List LedgerOperation} (tracks : history.Tracks record)
    (reported : ∀ operation ∈ operations, history.Reports operation)
    (distinct : (records.map operationKey).Nodup) (member : record ∈ records) :
    operations.foldl receive record ∈ operations.foldl LedgerOperation.perform records := by
  induction operations generalizing records record with
  | nil => exact member
  | cons operation rest ih =>
    have known := reported operation List.mem_cons_self
    obtain ⟨inside, apart⟩ := tracks.perform known distinct member
    exact ih (tracks.advances known).tracks
      (fun later member => reported later (List.mem_cons_of_mem operation member)) apart inside

/-- Evidence of one journal converges. The operation's record in the ledger never shows
an issue; once final evidence has arrived it has the host's outcome for good, with the
host's envelope in its own field once a final status has arrived; an observed inclusion
stays; and evidence of others changes nothing. -/
theorem command_evidence_converges (history : HostHistory) {records : List BrowserCommandRecord}
    {operations : List LedgerOperation} {record : BrowserCommandRecord}
    (reported : ∀ operation ∈ operations, history.Reports operation)
    (distinct : (records.map operationKey).Nodup) (member : record ∈ records)
    (tracks : history.Tracks record) :
    operations.foldl receive record ∈ operations.foldl LedgerOperation.perform records ∧
      ∀ before after, operations = before ++ after →
        (before.foldl receive record).issues = [] ∧
        ((∃ operation ∈ before, history.Final operation) →
          history.Outcome (before.foldl receive record) ∧
            history.Outcome (operations.foldl receive record)) ∧
        ((∃ run status, .status run status ∈ before ∧ history.Names run status ∧
            history.Settles status) →
          (before.foldl receive record).envelopeId = history.envelopeId ∧
            (operations.foldl receive record).envelopeId = history.envelopeId) ∧
        ((∃ run status, .status run status ∈ before ∧ history.Names run status ∧
            history.Settles status ∧ status.inputObservation = some (.included history.request)) →
          (before.foldl receive record).inputObservation = some (.included history.request)) ∧
        ((before.foldl receive record).inputObservation = some (.included history.request) →
          (operations.foldl receive record).inputObservation = some (.included history.request)) ∧
        ∀ operation, history.Foreign operation →
          receive (before.foldl receive record) operation = before.foldl receive record := by
  refine ⟨tracks.foldl_perform reported distinct member, ?_⟩
  intro before after parts
  subst parts
  have early := tracks.advances_foldl fun operation member =>
    reported operation (List.mem_append_left after member)
  have late := early.tracks.advances_foldl fun operation member =>
    reported operation (List.mem_append_right before member)
  rw [← List.foldl_append] at late
  have upTo {operation : LedgerOperation} (member : operation ∈ before) :
      ∃ found, history.Tracks found ∧
        history.Advances (receive found operation) (before.foldl receive record) := by
    obtain ⟨first, rest, parts⟩ := List.append_of_mem member
    subst parts
    have start : history.Advances record (first.foldl receive record) :=
      tracks.advances_foldl fun operation inside => reported operation (by simp [inside])
    have step := start.tracks.advances (reported operation (by simp))
    have final : history.Advances (receive (first.foldl receive record) operation)
        (rest.foldl receive (receive (first.foldl receive record) operation)) :=
      step.tracks.advances_foldl fun operation inside => reported operation (by simp [inside])
    refine ⟨_, start.tracks, ?_⟩
    rw [List.foldl_append, List.foldl_cons]
    exact final
  refine ⟨early.tracks.issues, ?_, ?_, ?_, late.inclusion, ?_⟩
  · intro some_final
    obtain ⟨operation, member, final⟩ := some_final
    obtain ⟨found, known, rest⟩ := upTo member
    have outcome := rest.outcome (known.receive_final final)
    exact ⟨outcome, late.outcome outcome⟩
  · intro some_status
    obtain ⟨run, status, member, names, settles⟩ := some_status
    obtain ⟨found, known, rest⟩ := upTo member
    obtain ⟨outcome, envelope, -⟩ := known.receive_settled names settles
    have same := rest.envelope outcome envelope
    exact ⟨same, late.envelope (rest.outcome outcome) same⟩
  · intro some_status
    obtain ⟨run, status, member, names, settles, included⟩ := some_status
    obtain ⟨found, known, rest⟩ := upTo member
    exact rest.inclusion ((known.receive_settled names settles).2.2 included)
  · intro operation other
    exact early.tracks.receive_foreign other

/-! An admitted input. -/

def sampleReceipt : CommandReceipt :=
  ⟨sampleId, .accepted none (some sampleTarget) 42 none⟩

def sampleHistory : HostHistory where
  run := "run"
  submission := ⟨sampleId, sampleInput⟩
  receipt := sampleReceipt
  wakeError := "no wake"
  envelopeId := some 42
  request := "request"
  matching := rfl
  envelope := by simp [receiptEnvelope, sampleReceipt]
  unwoken := by
    intro continuation target named wake same
    cases same
    rfl

def sampleRecord : BrowserCommandRecord where
  hostRun := "run"
  submission := ⟨sampleId, sampleInput⟩
  authority := .locally
  state := .queued

def sampleStatus : EmbeddedCommandRecord where
  operationId := sampleId
  command := sampleInput
  state := .inputAdmitted
  envelopeId := some 42
  receipt := some sampleReceipt
  inputObservation := some (.included "request")

theorem sampleRecord_tracks : sampleHistory.Tracks sampleRecord :=
  ⟨rfl, rfl, rfl, .inl ⟨.inl rfl, rfl, rfl, rfl⟩⟩

theorem sampleStatus_settles : sampleHistory.Settles sampleStatus :=
  ⟨rfl, ⟨sampleReceipt, List.mem_cons_self, rfl⟩, rfl, by simp [observations, sampleStatus,
    sampleHistory], fun _ => ⟨rfl, rfl⟩⟩

/-- A final receipt alone leaves the record's own envelope id unset; the final status that
follows sets it. -/
theorem receipt_leaves_envelope_unset :
    sampleHistory.Tracks sampleRecord ∧ sampleHistory.Final (.receipt sampleReceipt) ∧
      (receive sampleRecord (.receipt sampleReceipt)).envelopeId = none ∧
      sampleHistory.envelopeId = some 42 ∧ sampleHistory.Final (.status "run" sampleStatus) ∧
      (receive (receive sampleRecord (.receipt sampleReceipt))
        (.status "run" sampleStatus)).envelopeId = some 42 :=
  ⟨sampleRecord_tracks, .receipt List.mem_cons_self rfl, rfl, rfl,
    .status ⟨rfl, rfl⟩ sampleStatus_settles, rfl⟩

/-- The receipt, then the status that reports the input as included. -/
def sampleOperations : List LedgerOperation :=
  [.receipt sampleReceipt, .status "run" sampleStatus]

theorem command_evidence_converges_input :
    let final := sampleOperations.foldl receive sampleRecord
    final ∈ sampleOperations.foldl LedgerOperation.perform [sampleRecord] ∧
      sampleHistory.Outcome final ∧ final.inputObservation = some (.included "request") := by
  have reported : ∀ operation ∈ sampleOperations, sampleHistory.Reports operation := by
    simp only [sampleOperations, List.forall_mem_cons, List.not_mem_nil, false_imp_iff,
      implies_true, and_true]
    exact ⟨.receipt List.mem_cons_self, .settled ⟨rfl, rfl⟩ rfl sampleStatus_settles⟩
  have distinct : ([sampleRecord].map operationKey).Nodup := List.nodup_singleton _
  obtain ⟨inside, each⟩ := command_evidence_converges sampleHistory reported distinct
    (List.mem_singleton_self sampleRecord) sampleRecord_tracks
  obtain ⟨-, final, -, included, -⟩ := each sampleOperations [] (List.append_nil _).symm
  have last : .status "run" sampleStatus ∈ sampleOperations := by simp [sampleOperations]
  refine ⟨inside, (final ⟨_, last, .status ⟨rfl, rfl⟩ sampleStatus_settles⟩).2, ?_⟩
  exact included ⟨_, _, last, ⟨rfl, rfl⟩, sampleStatus_settles, rfl⟩

end HostHistory

end ExomonadHarness.Browser
