import ExomonadHarness.Browser.Ledger
import ExomonadHarness.Browser.Spelling

/-! Which records the reader of the ledger takes back, and that the ledger's operations
keep a record such. -/

namespace ExomonadHarness.Browser

open Store

variable {record merged : BrowserCommandRecord} {seen : Evidence} {authority : Authority}

/-! Records that are read back. -/

/-- What `decodeRecord` asks of a stored record. -/
structure Sound (record : BrowserCommandRecord) : Prop where
  addressed : addressed record = true
  shape : record.receipt.all isCommandReceipt = true
  observation : record.inputObservation.isSome = true →
    record.authority.authoritative = true ∧ isEmbeddedCommandRecord (asStatus record) = true
  evidence : record.authority.authoritative = true → evidenceHolds record = true

section

variable {Text : Type}

theorem decodeRecord_entry {stated : Option Authority} {legacy : Bool} :
    decodeRecord legacy (.entry stated record : Row Text) = some merged ↔
      (legacy = true ∨ stated.isSome = true) ∧
      merged = { record with authority := if legacy then .legacy else stated.getD .legacy } ∧
      addressed record = true ∧ record.receipt.all isCommandReceipt = true ∧
      (record.inputObservation.isSome = true → stated.any Authority.authoritative = true ∧
        isEmbeddedCommandRecord (asStatus record) = true) ∧
      (merged.authority.authoritative = true → evidenceHolds merged = true) := by
  simp only [decodeRecord]
  generalize (if legacy = true then Authority.legacy else stated.getD .legacy) = chosen
  split_ifs with other unstated shape observed refused
  · simp_all
  · simp_all
  · simp_all
  · simp only [false_iff]
    intro holds
    obtain ⟨-, -, -, -, fits, -⟩ := holds
    simp only [Bool.and_eq_true] at observed
    simp [fits observed.1] at observed
  · simp only [false_iff]
    intro holds
    obtain ⟨-, same, -, -, -, fits⟩ := holds
    subst same
    simp only [Bool.and_eq_true] at refused
    simp [fits refused.1] at refused
  · simp only [Option.some.injEq]
    constructor
    · intro same
      subst same
      refine ⟨by cases legacy <;> cases stated <;> simp_all, rfl, by simpa using other,
        by simpa using shape, ?_, ?_⟩
      · intro some_observed
        simpa [some_observed] using observed
      · intro authoritative
        simpa [authoritative] using refused
    · intro holds
      exact holds.2.1.symm

/-- A record is taken back as it was written exactly when it is sound. -/
theorem decodeRecord_written :
    decodeRecord false (.entry (some record.authority) record : Row Text) = some record ↔
      Sound record := by
  rw [decodeRecord_entry]
  constructor
  · intro holds
    obtain ⟨-, -, addressed, shape, observation, evidence⟩ := holds
    exact ⟨addressed, shape, observation, evidence⟩
  · intro sound
    exact ⟨.inr rfl, rfl, sound.addressed, sound.shape, sound.observation, sound.evidence⟩

/-- What the reader takes over is sound, if a legacy record reports no input. -/
theorem Sound.of_decodeRecord {legacy : Bool} {stated : Option Authority}
    (decoded : decodeRecord legacy (.entry stated record : Row Text) = some merged)
    (unobserved : legacy = true → record.inputObservation = none) : Sound merged := by
  obtain ⟨known, same, addressed, shape, observation, evidence⟩ := decodeRecord_entry.mp decoded
  subst same
  refine ⟨addressed, shape, ?_, evidence⟩
  intro observed
  cases legacy with
  | true =>
    have nothing : record.inputObservation.isSome = true := observed
    rw [unobserved rfl] at nothing
    cases nothing
  | false =>
    obtain ⟨authoritative, fits⟩ := observation observed
    cases stated with
    | none => cases authoritative
    | some authority => exact ⟨authoritative, fits⟩

end

/-! The operations on one record. -/

theorem issue_eq (record : BrowserCommandRecord) (message : String) :
    ∃ issues, issue record message = { record with issues } := by
  unfold issue
  split
  · exact ⟨record.issues, rfl⟩
  · exact ⟨_, rfl⟩

theorem Sound.issue (sound : Sound record) (message : String) :
    Sound (Browser.issue record message) := by
  obtain ⟨issues, same⟩ := issue_eq record message
  rw [same]
  exact ⟨sound.addressed, sound.shape, sound.observation, sound.evidence⟩

theorem Sound.observed (sound : Sound record) (observed : Observation) :
    Sound { record with observed } :=
  ⟨sound.addressed, sound.shape, sound.observation, sound.evidence⟩

/-- Evidence that is not taken over leaves the record, but for an issue. -/
theorem mergeRefused_eq_some (refused : mergeRefused record seen = some merged) :
    merged = record ∨ ∃ message, merged = issue record message := by
  unfold mergeRefused at refused
  split_ifs at refused
  any_goals first
    | exact .inl (Option.some.inj refused).symm
    | exact .inr ⟨_, (Option.some.inj refused).symm⟩
  split at refused
  case h_1 =>
    obtain ⟨message, -, same⟩ := Option.map_eq_some_iff.mp refused
    exact .inr ⟨message, same.symm⟩
  case h_2 => cases refused

/-- What evidence that is taken over agrees with. -/
structure Taken (record : BrowserCommandRecord) (seen : Evidence) : Prop where
  fits : stateFits record.submission.command seen.state = true
  current : outdated record seen.state = false
  matching : seen.receipt.all (receiptMatches record.submission) = true
  outcome : seen.receipt.all (receiptState · = seen.state) = true
  settled : isSettledCommand record = true → record.state = seen.state
  envelope : differ record.envelopeId seen.envelopeId = false
  receipts : ∀ held ∈ record.receipt, ∀ receipt ∈ seen.receipt,
    receiptConflict (isSettledCommand record) held.outcome receipt.outcome = none

theorem mergeRefused_eq_none : mergeRefused record seen = none ↔ Taken record seen := by
  unfold mergeRefused
  split_ifs with unfit old mismatch contradicts late differs envelope
  case neg =>
    constructor
    · intro free
      refine ⟨by simpa using unfit, by simpa using old, ?_, ?_, ?_, by simpa using envelope, ?_⟩
      · cases given : seen.receipt <;> simp_all
      · cases given : seen.receipt <;> simp_all
      · intro settled
        simpa [settled] using differs
      · intro held inside receipt given
        rw [Option.mem_def] at inside given
        simpa [inside, given] using free
    · intro taken
      split
      case h_1 held receipt inside given => simp [taken.receipts held inside receipt given]
      case h_2 => rfl
  all_goals
    simp only [false_iff]
    intro taken
  · simp [taken.fits] at unfit
  · simp [taken.current] at old
  · have all := taken.matching
    cases given : seen.receipt <;> simp_all
  · have all := taken.outcome
    cases given : seen.receipt <;> simp_all
  · simp only [Bool.and_eq_true] at late
    have same := taken.settled late.1
    simp only [isSettledCommand, Bool.and_eq_true] at late
    simp [← same, late.1.2] at late
  · simp only [Bool.and_eq_true, decide_eq_true_eq] at differs
    exact differs.2 (taken.settled differs.1)
  · simp [taken.envelope] at envelope

theorem mergeEvidence_cases (record : BrowserCommandRecord) (authority : Authority)
    (seen : Evidence) :
    (∃ issues, mergeEvidence record authority seen = { record with issues }) ∧
        mergeRefused record seen ≠ none ∨
      mergeEvidence record authority seen = takeEvidence record authority seen ∧
        Taken record seen := by
  unfold mergeEvidence
  cases refused : mergeRefused record seen with
  | none => exact .inr ⟨rfl, mergeRefused_eq_none.mp refused⟩
  | some merged =>
    refine .inl ⟨?_, by simp⟩
    rcases mergeRefused_eq_some refused with same | ⟨message, same⟩
    · exact ⟨record.issues, same⟩
    · obtain ⟨issues, issued⟩ := issue_eq record message
      exact ⟨issues, same.trans issued⟩

theorem combineReceipts_shape {held receipt : Option CommandReceipt}
    (first : held.all isCommandReceipt = true) (second : receipt.all isCommandReceipt = true) :
    (combineReceipts held receipt).all isCommandReceipt = true := by
  unfold combineReceipts
  split
  · exact first
  · rename_i continuation target envelope wake id continuation' target' envelope' wake'
    simp only [Option.all_some, isCommandReceipt, receiptTarget, Bool.and_eq_true] at first second ⊢
    refine ⟨⟨second.1.1, ?_⟩, ?_⟩
    · cases target' with
      | none => exact first.1.2
      | some => exact second.1.2
    · cases continuation' with
      | none => exact first.2
      | some => exact second.2
  · exact second

variable {receipt : CommandReceipt}

theorem combineReceipts_target {held : Option CommandReceipt}
    (target : (receiptTarget receipt).isSome = true) :
    (combineReceipts held (some receipt)).any (fun kept => (receiptTarget kept).isSome) = true := by
  unfold combineReceipts
  split
  · rename_i nothing
    cases nothing
  · rename_i given
    cases given
    simp only [receiptTarget, Option.any_some, Option.isSome_or] at target ⊢
    simp [target]
  · simpa using target

/-- The receipt a record keeps under evidence without one is of its own operation and of the
reported state; a receipt names the envelope the record then has; and the target that an
admission without one takes from an earlier admission is the operation's. -/
structure Coherent (record : BrowserCommandRecord) (seen : Evidence) : Prop where
  held : seen.receipt = none → ∀ held ∈ record.receipt,
    receiptMatches record.submission held = true ∧ receiptState held = seen.state
  envelope : ∀ receipt ∈ seen.receipt.or record.receipt,
    envelopeDiffers (seen.envelopeId.or record.envelopeId) receipt = false
  target : ∀ held ∈ record.receipt, ∀ receipt ∈ seen.receipt,
    receiptState held = .inputAdmitted → receiptState receipt = .inputAdmitted →
    receiptTarget receipt = none →
    (receiptTarget held).all (· = record.submission.command.target) = true

/-- A receipt replaces the one that is held, unless both admit an input. -/
theorem combineReceipts_some (held : Option CommandReceipt) (receipt : CommandReceipt) :
    (combineReceipts held (some receipt) = some receipt ∧ ∀ kept ∈ held,
        receiptState kept = .inputAdmitted → receiptState receipt ≠ .inputAdmitted) ∨
      ∃ kept id continuation target envelope wake continuation' target' envelope' wake',
        held = some ⟨kept, .accepted continuation target envelope wake⟩ ∧
        receipt = ⟨id, .accepted continuation' target' envelope' wake'⟩ := by
  obtain ⟨id, outcome⟩ := receipt
  cases held with
  | none => cases outcome <;> exact .inl ⟨rfl, by simp⟩
  | some kept =>
    obtain ⟨other, prior⟩ := kept
    cases prior <;> cases outcome <;>
      first
      | exact .inr ⟨_, _, _, _, _, _, _, _, _, _, rfl, rfl⟩
      | exact .inl ⟨rfl, by simp [receiptState]⟩

theorem outcomeFits_accepted {command : HostCommand} {continuation continuation' target target'
    envelope envelope' wake wake'} :
    outcomeFits command (.accepted continuation target envelope wake) =
      outcomeFits command (.accepted continuation' target' envelope' wake') := by
  cases command <;> rfl

theorem coherent_held (given : seen.receipt = none) : Coherent record seen ↔
    ∀ held ∈ record.receipt, receiptMatches record.submission held = true ∧
      receiptState held = seen.state ∧
      envelopeDiffers (seen.envelopeId.or record.envelopeId) held = false := by
  constructor
  · intro coherent held inside
    obtain ⟨own, state⟩ := coherent.held given held inside
    exact ⟨own, state, coherent.envelope held (by rwa [given])⟩
  · intro reads
    refine ⟨fun _ held inside => ?_, fun receipt inside => ?_, fun _ _ receipt inside => ?_⟩
    · exact ⟨(reads held inside).1, (reads held inside).2.1⟩
    · rw [given] at inside
      exact (reads receipt inside).2.2
    · rw [given] at inside
      cases inside

theorem coherent_replaced (given : seen.receipt = some receipt)
    (unlike : ∀ held ∈ record.receipt, receiptState held = .inputAdmitted →
      receiptState receipt ≠ .inputAdmitted) :
    Coherent record seen ↔
      envelopeDiffers (seen.envelopeId.or record.envelopeId) receipt = false := by
  constructor
  · intro coherent
    exact coherent.envelope receipt (by rw [given]; rfl)
  · intro same
    refine ⟨fun absent => ?_, fun other inside => ?_, fun held inside other listed => ?_⟩
    · cases absent.symm.trans given
    · rw [given] at inside
      cases inside
      exact same
    · rw [given] at listed
      cases listed
      exact fun first second => absurd second (unlike held inside first)

/-- Of two admissions the record holds the later, with what only the earlier says. -/
theorem coherent_combined {kept id : String} {continuation continuation' wake wake' target target'
    envelope envelope'}
    (held : record.receipt = some ⟨kept, .accepted continuation target envelope wake⟩)
    (given : seen.receipt = some ⟨id, .accepted continuation' target' envelope' wake'⟩)
    (own : receiptMatches record.submission
      ⟨id, .accepted continuation' target' envelope' wake'⟩ = true) :
    Coherent record seen ↔
      receiptMatches record.submission ⟨id, .accepted (continuation'.or continuation)
        (target'.or target) envelope' (wake'.or wake)⟩ = true ∧
      envelopeDiffers (seen.envelopeId.or record.envelopeId)
        ⟨id, .accepted continuation' target' envelope' wake'⟩ = false := by
  simp only [receiptMatches, receiptTarget, Bool.and_eq_true] at own
  constructor
  · intro coherent
    refine ⟨?_, coherent.envelope _ (by rw [given]; rfl)⟩
    simp only [receiptMatches, receiptTarget, Bool.and_eq_true]
    refine ⟨⟨own.1.1, ?_⟩, outcomeFits_accepted.trans own.2⟩
    cases target' with
    | none => exact coherent.target _ held _ given rfl rfl rfl
    | some target' => exact own.1.2
  · intro reads
    refine ⟨fun absent => ?_, fun other inside => ?_, fun prior inside other listed => ?_⟩
    · cases absent.symm.trans given
    · rw [given] at inside
      cases inside
      exact reads.2
    · rw [held] at inside
      rw [given] at listed
      cases inside
      cases listed
      rintro - - absent
      simp only [receiptTarget] at absent
      subst absent
      simp only [receiptMatches, receiptTarget, Bool.and_eq_true, Option.none_or] at reads
      exact reads.1.1.2

/-- What the reader asks of the receipt that the record then holds. -/
theorem Taken.coherent_iff (taken : Taken record seen) : Coherent record seen ↔
    ∀ held ∈ combineReceipts record.receipt seen.receipt,
      receiptMatches record.submission held = true ∧ receiptState held = seen.state ∧
        envelopeDiffers (seen.envelopeId.or record.envelopeId) held = false := by
  have matching := taken.matching
  have outcome := taken.outcome
  cases given : seen.receipt with
  | none =>
    have kept : combineReceipts record.receipt none = record.receipt := by
      cases record.receipt <;> rfl
    rw [kept, coherent_held given]
  | some receipt =>
    rw [given] at matching outcome
    have state : receiptState receipt = seen.state := by simpa using outcome
    rcases combineReceipts_some record.receipt receipt with ⟨same, unlike⟩ |
      ⟨kept, id, continuation, target, envelope, wake, continuation', target', envelope', wake',
        held, rfl⟩
    · rw [same, coherent_replaced given unlike]
      simpa [state] using fun _ => matching
    · rw [coherent_combined held given matching, held, combineReceipts]
      constructor
      · rintro ⟨own, same⟩ _ ⟨⟩
        exact ⟨own, state, same⟩
      · intro reads
        exact ⟨(reads _ rfl).1, (reads _ rfl).2.2⟩

theorem receiptMatches_canonical {submission : HostCommandSubmission}
    (valid : isOperationId submission.operationId = true) :
    receiptMatches ⟨canonicalOperationId submission.operationId, submission.command⟩ receipt =
      receiptMatches submission receipt := by
  simp only [receiptMatches, canonicalOperationId_canonical valid]

/-- A record of an admitted input, as the host would report it. -/
theorem isEmbeddedCommandRecord_asStatus (addressed : Browser.addressed record = true)
    (shape : record.receipt.all isCommandReceipt = true) (evidence : evidenceHolds record = true)
    (state : record.state = .inputAdmitted) (envelope : record.envelopeId.isSome = true)
    (named : record.inputObservation ≠ some (.included "")) :
    isEmbeddedCommandRecord (asStatus record) = true := by
  simp only [Browser.addressed, Bool.and_eq_true] at addressed
  simp only [evidenceHolds, Bool.and_eq_true] at evidence
  obtain ⟨⟨valid, command⟩, -⟩ := addressed
  obtain ⟨⟨fits, -⟩, receipts⟩ := evidence
  simp only [isEmbeddedCommandRecord, asStatus, Bool.and_eq_true]
  refine ⟨⟨⟨⟨⟨isOperationId_canonical valid, command⟩, shape⟩, fits⟩, ?_⟩, ?_⟩
  · split
    · rfl
    · rename_i observation same
      rw [same] at named
      simpa [state, envelope] using named
  · cases held : record.receipt with
    | none => rfl
    | some receipt =>
      simp only [held, Option.all_some, Bool.and_eq_true] at receipts ⊢
      obtain ⟨⟨matching, same⟩, envelopes⟩ := receipts
      refine ⟨⟨(receiptMatches_canonical valid).trans matching, same⟩, ?_⟩
      cases found : receipt.outcome with
      | accepted => simpa [envelopeDiffers, found] using envelopes
      | _ => rfl

theorem authoritative_of_source (source : authority = .status ∨ authority = .receipt) :
    authority.authoritative = true := by
  rcases source with same | same <;> subst same <;> rfl

/-- An admitted input that is observed stays one under evidence that is taken over. -/
theorem Sound.observed_state (sound : Sound record) (observed : record.inputObservation.isSome = true)
    (taken : Taken record seen) : seen.state = .inputAdmitted ∧ record.envelopeId.isSome = true ∧
      record.inputObservation ≠ some (.included "") := by
  obtain ⟨authoritative, fits⟩ := sound.observation observed
  obtain ⟨observation, given⟩ := Option.isSome_iff_exists.mp observed
  simp only [isEmbeddedCommandRecord, asStatus, given, Bool.and_eq_true, decide_eq_true_eq] at fits
  obtain ⟨⟨-, ⟨state, envelope⟩, named⟩, -⟩ := fits
  have settled : isSettledCommand record = true := by
    simp [isSettledCommand, authoritative, state, finalState]
  refine ⟨(taken.settled settled).symm.trans state, envelope, ?_⟩
  rw [given]
  intro same
  exact named (Option.some.inj same)

/-- A record that takes evidence over is read back exactly when the two cohere. -/
theorem sound_takeEvidence (sound : Sound record) (taken : Taken record seen)
    (shape : seen.receipt.all isCommandReceipt = true)
    (source : authority = .status ∨
      authority = .receipt ∧ ∃ receipt, seen.receipt = some receipt ∧
        (receiptTarget receipt).isSome = true) :
    Sound (takeEvidence record authority seen) ↔ Coherent record seen := by
  have authoritative : authority.authoritative = true :=
    authoritative_of_source (source.imp_right And.left)
  constructor
  · intro kept
    rw [taken.coherent_iff]
    intro held inside
    have evidence := kept.evidence authoritative
    simp only [evidenceHolds, takeEvidence, Bool.and_eq_true] at evidence
    rw [Option.mem_def] at inside
    simp only [inside, Option.all_some, Bool.and_eq_true, Bool.not_eq_true'] at evidence
    obtain ⟨-, ⟨matching, state⟩, envelope⟩ := evidence
    exact ⟨matching, of_decide_eq_true state, envelope⟩
  · intro coherent
    rw [taken.coherent_iff] at coherent
    have evidence : evidenceHolds (takeEvidence record authority seen) = true := by
      simp only [evidenceHolds, takeEvidence, Bool.and_eq_true, Bool.or_eq_true]
      refine ⟨⟨taken.fits, ?_⟩, ?_⟩
      · rcases source with same | ⟨same, receipt, given, target⟩
        · simp [same]
        · exact .inr (given ▸ combineReceipts_target target)
      · rw [Option.all_eq_true]
        intro held inside
        obtain ⟨matching, state, envelope⟩ := coherent held inside
        simp [matching, state, envelope]
    have shapes := combineReceipts_shape sound.shape shape
    refine ⟨sound.addressed, shapes, ?_, fun _ => evidence⟩
    intro observed
    obtain ⟨state, envelope, named⟩ := sound.observed_state observed taken
    refine ⟨authoritative, isEmbeddedCommandRecord_asStatus sound.addressed shapes evidence state
      ?_ named⟩
    simp only [takeEvidence, Option.isSome_or, envelope, Bool.or_true]

theorem Sound.mergeEvidence (sound : Sound record)
    (shape : seen.receipt.all isCommandReceipt = true)
    (source : authority = .status ∨
      authority = .receipt ∧ ∃ receipt, seen.receipt = some receipt ∧
        (receiptTarget receipt).isSome = true)
    (coherent : mergeRefused record seen = none → Coherent record seen) :
    Sound (Browser.mergeEvidence record authority seen) := by
  rcases mergeEvidence_cases record authority seen with ⟨⟨issues, same⟩, -⟩ | ⟨same, taken⟩
  · rw [same]
    exact ⟨sound.addressed, sound.shape, sound.observation, sound.evidence⟩
  · rw [same]
    exact (sound_takeEvidence sound taken shape source).mpr
      (coherent (mergeRefused_eq_none.mpr taken))

/-- When the input a status reports is kept, the record takes the status over or already
holds host evidence. -/
def Owns (record : BrowserCommandRecord) (status : EmbeddedCommandRecord) : Prop :=
  mergeRefused record status.evidence = none ∨ status.inputObservation = none ∨
    record.state ≠ .inputAdmitted ∨ record.envelopeId ≠ status.envelopeId ∨
    record.authority.authoritative = true

theorem Sound.observeInput {status : EmbeddedCommandRecord} (sound : Sound merged)
    (formed : isEmbeddedCommandRecord status = true)
    (owned : status.inputObservation = none ∨ merged.state ≠ .inputAdmitted ∨
      merged.envelopeId ≠ status.envelopeId ∨ merged.authority.authoritative = true) :
    Sound (Browser.observeInput record merged status) := by
  unfold Browser.observeInput
  split
  case h_1 => exact sound
  case h_2 reported given =>
    split
    · exact sound
    · rename_i observes
      simp only [Bool.or_eq_true, not_or, decide_eq_true_eq, not_not, ne_eq] at observes
      obtain ⟨⟨state, -⟩, envelope⟩ := observes
      have authoritative : merged.authority.authoritative = true := by
        rcases owned with nothing | other | other | known
        · rw [given] at nothing
          cases nothing
        · exact absurd state other
        · exact absurd envelope other
        · exact known
      simp only [isEmbeddedCommandRecord, given, Bool.and_eq_true, decide_eq_true_eq] at formed
      obtain ⟨⟨-, ⟨-, known⟩, named⟩, -⟩ := formed
      unfold keepInclusion
      split
      · split
        · exact sound.issue _
        · exact sound
      · exact sound
      · have evidence := sound.evidence authoritative
        refine ⟨sound.addressed, sound.shape, fun _ => ⟨authoritative, ?_⟩, fun _ => evidence⟩
        refine isEmbeddedCommandRecord_asStatus sound.addressed sound.shape evidence state
          (envelope ▸ known) ?_
        intro same
        exact named (Option.some.inj same)

theorem Sound.applyStatus {status : EmbeddedCommandRecord} (sound : Sound record)
    (formed : isEmbeddedCommandRecord status = true) (owned : Owns record status)
    (coherent : mergeRefused record status.evidence = none → Coherent record status.evidence) :
    Sound (Browser.applyStatus record status) := by
  have shape : status.receipt.all isCommandReceipt = true := by
    simp only [isEmbeddedCommandRecord, Bool.and_eq_true] at formed
    exact formed.1.1.1.2
  refine Sound.observeInput (sound.mergeEvidence shape (.inl rfl) coherent) formed ?_
  rcases mergeEvidence_cases record .status status.evidence with ⟨⟨issues, same⟩, refused⟩ | ⟨same, -⟩
  · rw [same]
    exact owned.resolve_left refused
  · rw [same]
    exact .inr (.inr (.inr rfl))

end ExomonadHarness.Browser
