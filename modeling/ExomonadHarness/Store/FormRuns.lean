import ExomonadHarness.Store.FormRestart

/-! Form leases over every sequence of calls. -/

namespace ExomonadHarness.Store

open ExomonadHarness.Json ExomonadHarness.Presentation Checked Transaction Attempt

/-- What an accepted call changes in the tables. -/
inductive FormChange (host : Host) (call : FormCall) (archive : FormArchive) :
    FormArchive → Prop where
  | observed : FormChange host call archive archive
  | opened {identity : FormKey} {opening : ActorFormOpen} {row : StoredActorForm}
      {forms : Table FormRow.identity} (own : (opening.origin, opening.mountId) = identity)
      (unnamed : call.attempt = none)
      (fresh : row = .opened opening (archive.lastEvent + 1)) (admissible : row.Admissible host)
      (inserted : archive.forms.insert? ⟨identity, row⟩ = some forms) :
      FormChange host call archive { archive with forms, lastEvent := archive.lastEvent + 1 }
  | operated {identity : FormKey} {operation : String} {payload : Option FormDraft}
      {row : StoredActorForm} {operations : Table FormOperation.key}
      (found : archive.row? identity = some row) (pending : row.state.pending = true)
      (unnamed : call.attempt = none)
      (admissible : (row.operated operation payload).Admissible host)
      (valid : validOperation operation = true)
      (inserted : archive.operations.insert? ⟨identity, operation, payload⟩ = some operations) :
      FormChange host call archive
        ({ archive with operations }.revise identity (row.operated operation payload))
  | settled {identity : FormKey} {row written : StoredActorForm}
      (found : archive.row? identity = some row) (pending : row.state.pending = true)
      (opening : written.opening = row.opening) (sequence : written.sequence = row.sequence)
      (admissible : written.Admissible host)
      (current : ∀ named ∈ call.attempt, named.1 = identity ∧ row.attemptId = some named.2)
      (answers : written.answer = row.answer ∨ row.state = .submitted ∧ ∃ attempt presentation,
        call = .commit identity.1 identity.2 attempt presentation) :
      FormChange host call archive (archive.revise identity written)
  | interrupted (unnamed : call.attempt = none)
      (admissible : ∀ raw ∈ archive.pending, raw.presentation.interrupt.Admissible host) :
      FormChange host call archive (archive.interruptAll archive.pending)

/-- The row a settlement writes, if it writes one. -/
theorem SettleForm.apply_eq_inr {settlement : SettleForm} {row written : StoredActorForm}
    (settled : settlement.apply row = .inr written) :
    row.state.pending = true ∧ written.opening = row.opening ∧ written.sequence = row.sequence ∧
      ((∃ attempt answer, settlement = .commit attempt answer ∧ row.attemptId = some attempt ∧
          row.state = .submitted) ∨
        written.answer = row.answer ∧ ((∃ attempt errors, settlement = .reject attempt errors ∧
          row.attemptId = some attempt) ∨ settlement = .close)) := by
  cases settlement with
  | commit attempt answer =>
    simp only [apply] at settled
    split_ifs at settled with other repeated unavailable
    cases settled
    rw [not_not] at other unavailable
    exact ⟨by rw [unavailable]; rfl, rfl, rfl, .inl ⟨attempt, answer, rfl, other, unavailable⟩⟩
  | reject attempt errors =>
    simp only [apply] at settled
    split_ifs at settled with other repeated unavailable
    cases settled
    rw [not_not] at other unavailable
    exact ⟨by rw [unavailable]; rfl, rfl, rfl, .inr ⟨rfl, .inl ⟨attempt, errors, rfl, other⟩⟩⟩
  | close =>
    simp only [apply] at settled
    split_ifs at settled with pending
    cases settled
    exact ⟨pending, rfl, rfl, .inr ⟨rfl, .inr rfl⟩⟩

section

variable {host : MediaHost} {storeId : String} {store : FormStore} {call : FormCall}
variable {archive next : FormArchive}

variable {identity : FormKey} {payload : Option FormDraft}

theorem FormChange.of_settle {settlement : SettleForm} {answer : FormAnswer}
    (steady : archive.Steady host.toHost)
    (answered : Answers (answerSettled (settleForm host identity settlement)) archive answer next)
    (named : ∀ wanted ∈ call.attempt, wanted.1 = identity ∧
      ((∃ view, settlement = .commit wanted.2 view) ∨
        ∃ errors, settlement = .reject wanted.2 errors))
    (commits : ∀ attempt view, settlement = .commit attempt view →
      ∃ presentation, call = .commit identity.1 identity.2 attempt presentation) :
    FormChange host.toHost call archive next := by
  rw [answerSettled, answers_map] at answered
  obtain ⟨_, answered, _⟩ := answered
  obtain ⟨row, loads, observed | ⟨written, settled, valid, _, reached⟩⟩ :=
    answers_settleForm.mp answered
  · obtain ⟨_, _, _, same⟩ := observed
    rw [same]
    exact .observed
  · subst reached
    obtain ⟨pending, opening, sequence, how⟩ := SettleForm.apply_eq_inr settled
    refine .settled (loads.found steady).1 pending opening sequence
      (StoredActorForm.validate_eq_ok.mp valid).1 ?_ ?_
    · intro wanted member
      obtain ⟨same, kind⟩ := named wanted member
      refine ⟨same, ?_⟩
      rcases how with ⟨attempt, view, rfl, current, _⟩ | ⟨_, ⟨attempt, errors, rfl, current⟩ | rfl⟩
      · rcases kind with ⟨_, equal⟩ | ⟨_, equal⟩ <;> cases equal
        exact current
      · rcases kind with ⟨_, equal⟩ | ⟨_, equal⟩ <;> cases equal
        exact current
      · rcases kind with ⟨_, equal⟩ | ⟨_, equal⟩ <;> cases equal
    · rcases how with ⟨attempt, view, rfl, _, submitted⟩ | ⟨kept, _⟩
      · obtain ⟨presentation, same⟩ := commits attempt view rfl
        exact .inr ⟨submitted, attempt, presentation, same⟩
      · exact .inl kept

theorem FormChange.of_transacts {tx : FormTx FormAnswer} {answer : FormAnswer}
    (steady : archive.Steady host.toHost) (transacts : call.Transacts host tx)
    (answered : Answers tx archive answer next) :
    FormChange host.toHost call archive next := by
  cases transacts with
  | opens =>
    rw [answerForm, answers_map] at answered
    obtain ⟨⟨row, changed⟩, answered, _⟩ := answered
    obtain ⟨_, observed | ⟨_, fresh, valid, forms, inserted, reached⟩⟩ :=
      answers_openForm.mp answered
    · rw [observed.2.1]
      exact .observed
    · rw [reached]
      exact .opened rfl rfl fresh (StoredActorForm.validate_eq_ok.mp valid).1 inserted
  | @operates call identity operation payload names legal =>
    rw [answerForm, answers_map] at answered
    obtain ⟨_, answered, _⟩ := answered
    obtain ⟨row, loads, observed | ⟨available, _, valid, operations, inserted, _, reached⟩⟩ :=
      answers_formBrowserOperation.mp answered
    · obtain ⟨_, _, _, _, same⟩ := observed
      rw [same]
      exact .observed
    · subst reached
      have pending : row.state.pending = true := by
        rcases available with opened | ⟨_, submitted⟩
        · rw [opened]
          rfl
        · rw [submitted]
          rfl
      have unnamed : call.attempt = none := by
        cases call <;> first | rfl | cases names
      exact .operated (loads.found steady).1 pending unnamed
        (StoredActorForm.validate_eq_ok.mp valid).1 legal inserted
  | rejects =>
    refine .of_settle steady answered ?_ fun attempt view impossible => by cases impossible
    intro wanted member
    cases member
    exact ⟨rfl, .inr ⟨_, rfl⟩⟩
  | commits =>
    refine .of_settle steady answered ?_ ?_
    · intro wanted member
      cases member
      exact ⟨rfl, .inl ⟨_, rfl⟩⟩
    · intro attempt view same
      cases same
      exact ⟨_, rfl⟩
  | closes =>
    refine .of_settle steady answered ?_ fun attempt view impossible => by cases impossible
    intro wanted member
    cases member
  | restarts =>
    rw [answers_map] at answered
    obtain ⟨_, answered, _⟩ := answered
    obtain ⟨valid, _, reached⟩ := (answers_interruptForms steady).mp answered
    rw [reached]
    exact .interrupted rfl fun raw member =>
      (StoredActorForm.validate_eq_ok.mp (valid raw member).2).1

/-- A call is refused and changes no table, or changes them in one of these ways. -/
theorem FormCall.change (steady : store.archive.Steady host.toHost) (call : FormCall) :
    ((∃ failure, (call.run host storeId store).1 = .error failure) ∧
        (call.run host storeId store).2.archive = store.archive) ∨
      ((∃ answer, (call.run host storeId store).1 = .ok answer) ∧
        FormChange host.toHost call store.archive (call.run host storeId store).2.archive) := by
  rcases FormCall.run_cases host storeId store call with
    refused | ⟨tx, answer, reached, answered, accepted⟩
  · exact .inl refused
  · exact .inr ⟨⟨answer, accepted⟩, .of_transacts steady (FormCall.transacts reached) answered⟩

namespace FormChange

theorem keeps (change : FormChange host.toHost call archive next)
    (sound : archive.Sound host.toHost) : next.Sound host.toHost ∧ archive.Succeeds next := by
  cases change with
  | observed => exact ⟨sound, .refl archive⟩
  | opened own unnamed fresh admissible inserted =>
    refine ⟨sound.insert inserted admissible ?_ ?_, .insert inserted⟩
    · rw [fresh]
      exact own
    · rw [fresh]
      exact le_rfl
  | operated found pending unnamed admissible valid inserted =>
    have recorded := sound.record inserted valid found
    refine ⟨recorded.revise found admissible rfl rfl,
      (FormArchive.Succeeds.record inserted).trans ?_⟩
    exact .revise recorded found pending rfl rfl
  | settled found pending opening sequence admissible current answers =>
    exact ⟨sound.revise found admissible opening sequence,
      .revise sound found pending opening sequence⟩
  | interrupted unnamed admissible =>
    exact sound.interruptAll (fun raw member => FormArchive.mem_pending.mp member)
      archive.nodup_pending admissible

end FormChange

/-- A browser operation that is accepted is recorded with its payload. -/
theorem FormCall.recorded {operation : String} {answer : FormAnswer}
    (named : call.operation = some (identity, operation, payload))
    (accepted : (call.run host storeId store).1 = .ok answer) :
    ∃ old, (call.run host storeId store).2.archive.operations.find? (identity, operation) =
      some old ∧ old.payload = payload := by
  rcases FormCall.run_cases host storeId store call with
    ⟨⟨failure, refused⟩, _⟩ | ⟨tx, _, reached, answered, _⟩
  · cases refused.symm.trans accepted
  · cases FormCall.transacts reached with
    | operates names valid =>
      cases named.symm.trans names
      rw [answerForm, answers_map] at answered
      obtain ⟨_, answered, _⟩ := answered
      obtain ⟨row, loads, ⟨old, recorded, same, _, reached⟩ |
        ⟨_, _, _, operations, inserted, _, reached⟩⟩ := answers_formBrowserOperation.mp answered
      · rw [reached]
        exact ⟨old, recorded, same⟩
      · rw [reached, FormArchive.operations_revise]
        exact ⟨_, Table.find?_insert_self inserted, rfl⟩
    | _ => cases named

/-- A browser operation of a known mount comes to its transaction. -/
theorem FormCall.reaches_operation (host : MediaHost) (storeId : String) {operation : String}
    (named : call.operation = some (identity, operation, payload))
    (key : formKey identity.1 identity.2 = .ok identity) (valid : validOperation operation = true)
    (media : Media) :
    Reaches (call.prelude host storeId) media
      (answerForm (formBrowserOperation host identity operation payload)) media := by
  cases call with
  | submit origin mount operation draft =>
    cases draft with
    | none => cases named
    | some draft =>
      cases named
      simp only [prelude, submitActorForm, reaches_map, reaches_bind, reaches_lift, okOr_eq_ok,
        reaches_browserOperation]
      exact ⟨_, ⟨draft, media, ⟨rfl, rfl⟩, key, valid, rfl, rfl⟩, rfl⟩
  | dismiss origin mount operation =>
    cases named
    simp only [prelude, dismissActorForm, reaches_map, reaches_browserOperation]
    exact ⟨_, ⟨key, valid, rfl, trivial⟩, rfl⟩
  | _ => cases named

/-- A recorded operation called again with its payload answers the row as it is,
exactly when the row can be read back. -/
theorem FormCall.repeated {operation : String} {old : FormOperation} {row : StoredActorForm}
    (sound : store.archive.Sound host.toHost) (steady : store.archive.Steady host.toHost)
    (named : call.operation = some (identity, operation, payload))
    (recorded : store.archive.operations.find? (identity, operation) = some old)
    (same : old.payload = payload) (found : store.archive.row? identity = some row) :
    call.run host storeId store = (.ok (.form row false), store) ↔
      row.depth ≤ maxNesting ∧ row.length host.toHost ≤ maxFormBytes := by
  have admissible := sound.admissible found
  have own := sound.own found
  have key : formKey identity.1 identity.2 = .ok identity := by
    rw [← own]
    exact admissible.key
  have reached := FormCall.reaches_operation host storeId named key
    (sound.named recorded) store.media
  constructor
  · intro accepted
    rcases FormCall.run_cases host storeId store call with
      ⟨⟨failure, refused⟩, _⟩ | ⟨tx, _, prepared, answered, _⟩
    · rw [accepted] at refused
      cases refused
    · have equal : tx = answerForm (formBrowserOperation host identity operation payload) := by
        have both := prepared.symm.trans reached
        injection both with both _
        injection both
      rw [equal, answerForm, answers_map] at answered
      obtain ⟨_, answered, _⟩ := answered
      obtain ⟨stored, loads, _⟩ := answers_formBrowserOperation.mp answered
      obtain ⟨kept, shallow⟩ := loads.found steady
      cases found.symm.trans kept
      exact ⟨shallow, loads.fits⟩
  · intro readable
    have loads : Loads host.toHost store.archive identity row :=
      ⟨⟨row, found, readable.1, (steady found).symm⟩, admissible, readable.2, own⟩
    have answered : Answers (answerForm (formBrowserOperation host identity operation payload))
        store.archive (.form row false) store.archive := by
      rw [answerForm, answers_map]
      exact ⟨(row, false), answers_formBrowserOperation.mpr
        ⟨row, loads, .inl ⟨old, recorded, same, rfl, rfl⟩⟩, rfl⟩
    exact FormCall.run_of_answers reached answered

end

inductive FormEvent where
  | call (call : FormCall) (answer : Except StoreError FormAnswer)
  | elsewhere

/-- The store takes form calls after which its forms are read back as they were written, and
other parts of it write events and media. -/
inductive FormStep (host : MediaHost) (storeId : String) :
    FormStore → FormEvent → FormStore → Prop where
  | call (store : FormStore) (call : FormCall)
      (steady : (call.run host storeId store).2.archive.Steady host.toHost) :
      FormStep host storeId store (.call call (call.run host storeId store).1)
        (call.run host storeId store).2
  | elsewhere (store : FormStore) (media : Media) :
      FormStep host storeId store .elsewhere { archive := store.archive.elapse, media }

section

variable {host : MediaHost} {storeId : String} {store later : FormStore} {event : FormEvent}
variable {events : List FormEvent}

theorem FormStep.keeps (taken : FormStep host storeId store event later)
    (steady : store.archive.Steady host.toHost) (sound : store.archive.Sound host.toHost) :
    later.archive.Sound host.toHost ∧ store.archive.Succeeds later.archive := by
  cases taken with
  | call call =>
    rcases call.change steady with ⟨_, same⟩ | ⟨_, change⟩
    · rw [same]
      exact ⟨sound, .refl _⟩
    · exact change.keeps sound
  | elsewhere media => exact ⟨sound.elapse, .elapse _⟩

theorem FormArchive.Sound.empty (host : Host) : FormArchive.empty.Sound host where
  admissible found := by cases found
  own found := by cases found
  revision found := by cases found
  mounted found := by cases found
  named found := by cases found

theorem FormStep.steady (taken : FormStep host storeId store event later)
    (steady : store.archive.Steady host.toHost) : later.archive.Steady host.toHost := by
  cases taken with
  | call _ kept => exact kept
  | elsewhere => exact steady

theorem FormArchive.Sound.of_run (run : Transition.Run (FormStep host storeId) .empty events store) :
    store.archive.Sound host.toHost ∧ store.archive.Steady host.toHost :=
  run.invariant (fun store => store.archive.Sound host.toHost ∧ store.archive.Steady host.toHost)
    ⟨.empty _, fun _ _ found => by cases found⟩ fun kept taken =>
      ⟨(taken.keeps kept.2 kept.1).1, taken.steady kept.2⟩

theorem FormArchive.Succeeds.of_run (sound : store.archive.Sound host.toHost)
    (steady : store.archive.Steady host.toHost)
    (run : Transition.Run (FormStep host storeId) store events later) :
    store.archive.Succeeds later.archive := by
  have both := run.invariant
    (fun reached => (reached.archive.Sound host.toHost ∧ reached.archive.Steady host.toHost) ∧
      store.archive.Succeeds reached.archive)
    ⟨⟨sound, steady⟩, .refl _⟩ fun kept taken =>
      have step := taken.keeps kept.1.2 kept.1.1
      ⟨⟨step.1, taken.steady kept.1.2⟩, kept.2.trans step.2⟩
  exact both.2

end

def plainOrigin : ActorOutputOrigin := ⟨"run", 7, 1⟩

def textOpening (label : ℕ) : ActorFormOpen where
  origin := plainOrigin
  mountId := "mount"
  execution := .actorProgram
  conversation := none
  form := ⟨1, .text "f" (Length.filler label) none⟩

def textDraft (bytes : ℕ) : FormDraft :=
  [("f", .text (Length.filler bytes))]

/-- The row of a submitted text form. -/
def submittedText (label bytes revision : ℕ) : StoredActorForm where
  sequence := 1
  revisionSequence := revision
  opening := textOpening label
  state := .submitted
  attemptId := some "attempt"
  draft := some (textDraft bytes)
  errors := []
  answer := none

section

variable (host : Host) (label bytes : ℕ)

theorem textForm_length : (textOpening label).form.length host = 71 + label := by
  have constant : Length.object [("version", Length.nat 1), ("root", Length.object
      (controlFields "text" "f" "" ++ [("initial", Length.null)]))] = 71 := by decide
  rw [← constant]
  simp only [textOpening, FormSpec.length, FormNode.length, controlFields, Length.object,
    Length.separated, Length.text_filler, Length.option, Option.map_none, Option.getD_none,
    List.map_cons, List.map_nil, List.cons_append, List.nil_append, List.sum_cons, List.sum_nil,
    List.length_cons, List.length_nil, show Length.text "" = 2 from rfl]
  omega

theorem textDraft_length : draftLength host (textDraft bytes) = 8 + bytes := by
  have key : Length.text "f" = 3 := by decide
  simp only [textDraft, draftLength, ControlValue.length, Length.object, Length.separated,
    Length.text_filler, List.map_cons, List.map_nil, List.sum_cons, List.sum_nil,
    List.length_cons, List.length_nil, key]
  omega

theorem textOpening_length : (textOpening label).length host = 210 + label := by
  have constant : Length.object [("origin", plainOrigin.length), ("mountId", Length.text "mount"),
      ("execution", ActorOutputExecution.length .actorProgram), ("conversation", Length.null),
      ("form", 71)] = 210 := by decide
  rw [← constant, ActorFormOpen.length, textForm_length]
  simp only [textOpening, Length.object, Length.separated, Length.option, Option.map_none,
    Option.getD_none, List.map_cons, List.map_nil, List.sum_cons, List.sum_nil, List.length_cons,
    List.length_nil]
  omega

/-- The length of a row of the text form whose draft and errors are of these lengths. -/
theorem textRow_length {row : StoredActorForm} (opening : row.opening = textOpening label)
    (unanswered : row.answer = none) (clean : row.errors = []) :
    row.length host = 311 + label + Length.nat row.sequence + Length.nat row.revisionSequence +
      Length.text row.state.name + Length.option (row.attemptId.map Length.text) +
      Length.option (row.draft.map (draftLength host)) := by
  have constant : Length.object [("sequence", 0), ("revisionSequence", 0), ("opening", 210),
      ("state", 0), ("attemptId", 0), ("draft", 0), ("errors", errorsLength []),
      ("answer", Length.null)] = 311 := by decide
  rw [← constant, StoredActorForm.length, opening, unanswered, clean, textOpening_length]
  simp only [Length.object, Length.separated, Length.option, Option.map_none, Option.getD_none,
    List.map_cons, List.map_nil, List.sum_cons, List.sum_nil, List.length_cons, List.length_nil]
  omega

theorem submittedText_length (revision : ℕ) :
    (submittedText label bytes revision).length host =
      340 + label + bytes + Length.nat revision := by
  have state : Length.text "submitted" = 11 := by decide
  have attempt : Length.text "attempt" = 9 := by decide
  have first : Length.nat 1 = 1 := by decide
  rw [textRow_length host label rfl rfl rfl]
  simp only [submittedText, ActorFormState.name, Option.map_some, Length.option, Option.getD_some,
    textDraft_length, state, attempt, first]
  omega

end

def textKey : FormKey := (plainOrigin, "mount")

def submitText (bytes : ℕ) : FormCall :=
  .submit plainOrigin "mount" "attempt" (some (textDraft bytes))

/-- The label and the draft fit the limits of a form and of a draft. -/
structure TextFits (label bytes : ℕ) : Prop where
  form : 71 + label ≤ maxPresentationBytes
  draft : 8 + bytes ≤ maxPresentationBytes
  row : 341 + label + bytes ≤ maxFormBytes

section

variable {host : MediaHost} {storeId : String} {label bytes : ℕ} {store : FormStore}

theorem textForm_validate (fits : TextFits label bytes) :
    (textOpening label).form.validate host.toHost = .ok () := by
  have walked : ((textOpening label).form.root.walk host.toHost 0 []).isSome = true := rfl
  have short := fits.form
  rw [FormSpec.validate, require_eq_ok, textForm_length, walked]
  simp [textOpening, short]

theorem textDraft_validate (fits : TextFits label bytes) :
    (textOpening label).form.validateDraft host.toHost (textDraft bytes) = .ok () := by
  have accepted : (textOpening label).form.root.accepts host.toHost (textDraft bytes) = true := rfl
  have short := fits.draft
  simp only [FormSpec.validateDraft, bind_eq_ok, require_eq_ok, textDraft_length, accepted]
  exact ⟨⟨⟩, by simp [textDraft, short], trivial⟩

theorem opened_validate (fits : TextFits label bytes) :
    (StoredActorForm.opened (textOpening label) 1).validate host.toHost = .ok () := by
  refine StoredActorForm.validate_eq_ok.mpr ⟨?_, ?_⟩
  · exact {
      key := rfl
      execution := rfl
      shape := rfl
      sequence := Nat.one_pos
      revision := le_rfl
      form := textForm_validate fits
      errors := ⟨[], rfl⟩
      draft := fun _ absent => by cases absent
      answer := fun _ absent => by cases absent }
  · have state : Length.text "open" = 6 := by decide
    have first : Length.nat 1 = 1 := by decide
    have room := fits.row
    rw [textRow_length host.toHost label rfl rfl rfl]
    simp only [StoredActorForm.opened, ActorFormState.name, Option.map_none, Length.option,
      Option.getD_none, Length.null, state, first]
    omega

theorem submittedText_admissible (fits : TextFits label bytes) {revision : ℕ}
    (started : 1 ≤ revision) : (submittedText label bytes revision).Admissible host.toHost where
  key := rfl
  execution := rfl
  shape := rfl
  sequence := Nat.one_pos
  revision := started
  form := textForm_validate fits
  errors := ⟨[], rfl⟩
  draft := fun _ present => by
    cases present
    exact textDraft_validate fits
  answer := fun _ absent => by cases absent

theorem submittedText_validate (fits : TextFits label bytes) :
    (submittedText label bytes 1).validate host.toHost = .ok () := by
  refine StoredActorForm.validate_eq_ok.mpr ⟨submittedText_admissible fits le_rfl, ?_⟩
  have first : Length.nat 1 = 1 := by decide
  have room := fits.row
  rw [submittedText_length, first]
  omega

/-- Other events pass. -/
theorem run_idle (host : MediaHost) (storeId : String) (store : FormStore) (idle : ℕ) :
    ∃ events, Transition.Run (FormStep host storeId) store events
      { store with archive :=
        { store.archive with lastEvent := store.archive.lastEvent + idle } } := by
  induction idle with
  | zero => exact ⟨[], .start store⟩
  | succ idle ih =>
    obtain ⟨events, run⟩ := ih
    exact ⟨_, .next run (.elsewhere _ store.media)⟩

/-- The tables after the text form was opened and other events passed. -/
def openedArchive (label idle : ℕ) : FormArchive where
  forms := ⟨[⟨textKey, .opened (textOpening label) 1⟩], List.nodup_singleton _⟩
  operations := .empty
  lastEvent := 1 + idle

def allowAll : FormAuthority := fun _ => .ok true

theorem run_open (storeId : String) (fits : TextFits label bytes) :
    FormCall.run host storeId (.open allowAll (textOpening label)) .empty =
      (.ok (.form (.opened (textOpening label) 1) true), ⟨openedArchive label 0, .empty⟩) := by
  have reached : Reaches (FormCall.prelude host storeId (.open allowAll (textOpening label))) .empty
      (answerForm (openForm host allowAll textKey (textOpening label))) .empty := by
    simp only [FormCall.prelude, openActorForm, reaches_map, reaches_bind, reaches_lift,
      reaches_pure, mapError_eq_ok, require_eq_ok]
    exact ⟨_, ⟨textKey, _, ⟨rfl, rfl⟩, (), _, ⟨textForm_validate fits, rfl⟩,
      (textOpening label).form, .empty, rfl, ⟨⟩, _, ⟨rfl, rfl⟩, ⟨⟩, _, ⟨rfl, rfl⟩, rfl, rfl⟩, rfl⟩
  have answered : Answers (answerForm (openForm host allowAll textKey (textOpening label))) .empty
      (.form (.opened (textOpening label) 1) true) (openedArchive label 0) := by
    rw [answerForm, answers_map]
    exact ⟨(_, true), answers_openForm.mpr ⟨rfl, .inr ⟨rfl, rfl, opened_validate fits,
      (openedArchive label 0).forms, rfl, rfl⟩⟩, rfl⟩
  exact FormCall.run_of_answers reached answered

theorem run_submit (storeId : String) (fits : TextFits label bytes) (idle : ℕ) :
    FormCall.run host storeId (submitText bytes) ⟨openedArchive label idle, .empty⟩ =
      (.ok (.form (submittedText label bytes (idle + 2)) true),
        ⟨FormArchive.revise { openedArchive label idle with
          operations := ⟨[⟨textKey, "attempt", some (textDraft bytes)⟩], List.nodup_singleton _⟩ }
          textKey (submittedText label bytes 1), .empty⟩) := by
  refine FormCall.run_of_answers
    (FormCall.reaches_operation host storeId rfl rfl rfl .empty) ?_
  rw [answerForm, answers_map]
  have loads : Loads host.toHost (openedArchive label idle) textKey
      (.opened (textOpening label) 1) := by
    obtain ⟨admissible, short⟩ := StoredActorForm.validate_eq_ok.mp (opened_validate fits)
    have shallow : 4 ≤ maxNesting := by decide
    exact ⟨⟨_, rfl, shallow, rfl⟩, admissible, short, rfl⟩
  refine ⟨_, answers_formBrowserOperation.mpr ⟨_, loads, .inr ⟨.inl rfl, ?_,
    submittedText_validate fits, _, rfl, rfl, rfl⟩⟩, ?_⟩
  · intro value present
    cases present
    exact textDraft_validate fits
  · have number : idle + 2 = 1 + idle + 1 := by omega
    rw [number]
    rfl

/-- A text form holds no double. -/
theorem openedArchive_steady (host : MediaHost) (label idle : ℕ) :
    (openedArchive label idle).Steady host.toHost := by
  intro identity row found
  have member := Table.mem_of_find? (FormArchive.row?_eq_some.mp found)
  cases List.mem_singleton.mp member
  rfl

theorem run_opened (storeId : String) (fits : TextFits label bytes) :
    Transition.Run (FormStep host storeId) .empty
      [.call (.open allowAll (textOpening label)) (.ok (.form (.opened (textOpening label) 1) true))]
      ⟨openedArchive label 0, .empty⟩ := by
  have run : Transition.Run (FormStep host storeId) .empty _ _ :=
    .next (.start FormStore.empty) (.call .empty (.open allowAll (textOpening label)) (by
      rw [run_open storeId fits]
      exact openedArchive_steady host label 0))
  rw [run_open storeId fits] at run
  exact run

/-- The form is opened with the first event, others pass, and it is submitted. -/
theorem run_submittedText (host : MediaHost) (storeId : String) (fits : TextFits label bytes)
    (idle : ℕ) :
    ∃ events store, Transition.Run (FormStep host storeId) .empty events store ∧
      store.archive.row? textKey = some (submittedText label bytes (idle + 2)) ∧
      store.archive.operations.find? (textKey, "attempt") =
        some ⟨textKey, "attempt", some (textDraft bytes)⟩ := by
  have first : Transition.Run (FormStep host storeId) .empty _ _ := run_opened storeId fits
  obtain ⟨waited, second⟩ := run_idle host storeId ⟨openedArchive label 0, .empty⟩ idle
  have third : Transition.Run (FormStep host storeId) _ _ _ :=
    .next (.start ⟨openedArchive label idle, .empty⟩) (.call _ (submitText bytes) (by
      rw [run_submit storeId fits idle]
      exact (openedArchive_steady host label idle).revise rfl))
  rw [run_submit storeId fits idle] at third
  have number : 1 + idle + 1 = idle + 2 := by omega
  refine ⟨_, _, (first.append second).append third, ?_, rfl⟩
  rw [FormArchive.row?_revise, if_pos rfl]
  exact congrArg (fun revision => some (submittedText label bytes revision)) number

end

/-- The text form needs none of its host's answers. -/
def bareHost : MediaHost where
  validateSvg _ := .ok ()
  printed _ := 3
  back := id
  ofInt _ := .max
  digest _ _ := ""
  decodeBase64 _ := none

end ExomonadHarness.Store
