import ExomonadHarness.Store.ActorOutput
import ExomonadHarness.Support.Transaction

/-! `store/forms.rs`: the durable leases of human forms. A row is the presentation
of one mount; the operations of its browser are recorded beside it. -/

namespace ExomonadHarness.Store

open ExomonadHarness.Json ExomonadHarness.Presentation Checked Transaction
open Scheduler (ConversationIdentity)

structure ActorFormOpen where
  origin : ActorOutputOrigin
  mountId : String
  execution : ActorOutputExecution
  conversation : Option ConversationIdentity
  form : FormSpec
  deriving DecidableEq

inductive ActorFormState where
  | «open»
  | submitted
  | answered
  | dismissed
  | cancelled
  | interrupted
  deriving DecidableEq

namespace ActorFormState

def name : ActorFormState → String
  | «open» => "open"
  | submitted => "submitted"
  | answered => "answered"
  | dismissed => "dismissed"
  | cancelled => "cancelled"
  | interrupted => "interrupted"

/-- The states a form can still leave. -/
def pending (state : ActorFormState) : Bool :=
  state = «open» || state = submitted

end ActorFormState

structure StoredActorForm where
  sequence : ℕ
  revisionSequence : ℕ
  opening : ActorFormOpen
  state : ActorFormState
  attemptId : Option String
  draft : Option FormDraft
  errors : List FormError
  answer : Option View
  deriving DecidableEq

/-- `key`: the text of an origin and a mount, as the pair it encodes. -/
abbrev FormKey := ActorOutputOrigin × String

def formKey (origin : ActorOutputOrigin) (mount : String) : Except StoreError FormKey := do
  validateOrigin origin
  require (!mount.isEmpty && mount.utf8ByteSize ≤ 256) .invalidForm
  return (origin, mount)

def ActorFormOpen.length (host : Host) (opening : ActorFormOpen) : ℕ :=
  Length.object [("origin", opening.origin.length), ("mountId", Length.text opening.mountId),
    ("execution", opening.execution.length),
    ("conversation", Length.option (opening.conversation.map conversationLength)),
    ("form", opening.form.length host)]

/-- The most bytes a stored form may take. -/
def maxFormBytes : ℕ := maxHistoryBytes - 8192

namespace StoredActorForm

def length (host : Host) (row : StoredActorForm) : ℕ :=
  Length.object [("sequence", Length.nat row.sequence),
    ("revisionSequence", Length.nat row.revisionSequence), ("opening", row.opening.length host),
    ("state", Length.text row.state.name),
    ("attemptId", Length.option (row.attemptId.map Length.text)),
    ("draft", Length.option (row.draft.map (draftLength host))),
    ("errors", errorsLength row.errors), ("answer", Length.option (row.answer.map View.length))]

def depth (row : StoredActorForm) : ℕ :=
  nest [nest [flatDepth, flatDepth, flatDepth, nest [row.opening.form.root.depth]],
    row.draft.elim 0 draftDepth, errorsDepth row.errors, row.answer.elim 0 View.depth]

/-- The row that is read from the text of one: only its doubles may be others. -/
def reread (host : Host) (row : StoredActorForm) : StoredActorForm :=
  { row with
    opening := { row.opening with
      form := { row.opening.form with root := row.opening.form.root.reread host.back } }
    draft := row.draft.map (rereadDraft host.back) }

/-- `serde_json::from_str`, on the text of a row given as the row it prints. -/
def fromStr (host : Host) (row : StoredActorForm) : Except StoreError StoredActorForm := do
  require (row.depth ≤ maxNesting) .json
  return row.reread host

/-- The attempt, the draft, the answer and the errors fit the state. -/
def shape (row : StoredActorForm) : Bool :=
  let submission := row.attemptId.isSome && row.draft.isSome
  let noSubmission := row.attemptId.isNone && row.draft.isNone
  match row.state with
  | .open => row.answer.isNone && (submission || noSubmission)
  | .submitted => submission && row.answer.isNone && row.errors.isEmpty
  | .answered => submission && row.answer.isSome && row.errors.isEmpty
  | .dismissed | .cancelled | .interrupted => row.answer.isNone && (submission || noSubmission)

def validate (host : Host) (row : StoredActorForm) : Except StoreError Unit := do
  let _ ← formKey row.opening.origin row.opening.mountId
  (validateExecution row.opening.execution).mapError fun _ => .invalidForm
  require (row.shape && 0 < row.sequence && row.sequence ≤ row.revisionSequence &&
    row.length host ≤ maxFormBytes) .invalidForm
  (row.opening.form.validate host).mapError .ofPresentation
  let _ ← (parseErrors (some row.errors)).mapError .ofPresentation
  forM row.draft.toList fun draft =>
    (row.opening.form.validateDraft host draft).mapError .ofPresentation
  forM row.answer.toList fun answer => (answer.validate host.validateSvg).mapError .ofPresentation

def decode (host : Host) (raw : StoredActorForm) : Except StoreError StoredActorForm := do
  let row ← raw.fromStr host
  row.validate host
  return row

end StoredActorForm

/-- A row of `actor_forms`. -/
structure FormRow where
  identity : FormKey
  presentation : StoredActorForm
  deriving DecidableEq

/-- A row of `actor_form_operations`; a dismissal has no draft. The text of a payload is
compared and never read back. -/
structure FormOperation where
  identity : FormKey
  operation : String
  payload : Option FormDraft
  deriving DecidableEq

def FormOperation.key (row : FormOperation) : FormKey × String :=
  (row.identity, row.operation)

/-- The tables the form operations use, with the last id given to an event. -/
structure FormArchive where
  forms : Table FormRow.identity
  operations : Table FormOperation.key
  lastEvent : ℕ

def FormArchive.empty : FormArchive where
  forms := .empty
  operations := .empty
  lastEvent := 0

abbrev FormTx (α : Type) := Tx FormArchive StoreError α

variable (host : MediaHost)

def load (identity : FormKey) : FormTx StoredActorForm := do
  let archive ← get
  let stored ← answer (okOr (archive.forms.find? identity) .formUnavailable)
  let row ← answer (stored.presentation.decode host.toHost)
  let own ← answer (formKey row.opening.origin row.opening.mountId)
  answer (require (own = identity) .invalidForm)
  return row

/-- `INSERT INTO events`, with the id it was given. -/
def appendEvent : FormTx ℕ := do
  modify fun archive => { archive with lastEvent := archive.lastEvent + 1 }
  return (← get).lastEvent

theorem FormRow.identity_ite (identity : FormKey) (presentation : StoredActorForm)
    (row : FormRow) :
    FormRow.identity (if row.identity = identity then { row with presentation } else row) =
      row.identity := by
  split <;> rfl

/-- `UPDATE actor_forms SET presentation`. -/
def FormArchive.present (archive : FormArchive) (identity : FormKey)
    (presentation : StoredActorForm) : FormArchive :=
  { archive with
    forms := archive.forms.update
      (fun row => if row.identity = identity then { row with presentation } else row)
      (FormRow.identity_ite identity presentation) }

/-- `save`: the row is validated with its old revision and written with the new one. -/
def save (identity : FormKey) (row : StoredActorForm) : FormTx StoredActorForm := do
  answer (row.validate host.toHost)
  let revisionSequence ← appendEvent
  let row := { row with revisionSequence }
  modify fun archive => archive.present identity row
  return row

/-- What `validate_form` of the authority answers: its verdict or its own failure. -/
abbrev FormAuthority := ActorFormOpen → Except String Bool

def openForm (authority : FormAuthority) (identity : FormKey) (opening : ActorFormOpen) :
    FormTx (StoredActorForm × Bool) := do
  let allowed ← answer ((authority opening).mapError .actorOutputAuthority)
  answer (require allowed .actorOutputRefused)
  let archive ← get
  if (archive.forms.find? identity).isSome then
    let row ← load host identity
    answer (require (row.opening = opening) .conflictingFormOperation)
    return (row, false)
  else
    let sequence ← appendEvent
    let row : StoredActorForm := {
      sequence
      revisionSequence := sequence
      opening
      state := .open
      attemptId := none
      draft := none
      errors := []
      answer := none }
    answer (row.validate host.toHost)
    let archive ← get
    let forms ← answer (okOr (archive.forms.insert? { identity, presentation := row }) .storage)
    set { archive with forms }
    return (row, true)

def formBrowserOperation (identity : FormKey) (operation : String) (draft : Option FormDraft) :
    FormTx (StoredActorForm × Bool) := do
  let row ← load host identity
  let archive ← get
  match archive.operations.find? (identity, operation) with
  | some old =>
    answer (require (old.payload = draft) .conflictingFormOperation)
    return (row, false)
  | none =>
    answer (require (row.state = .open || (draft.isNone && row.state = .submitted)) .formUnavailable)
    draft.toList.forM fun draft =>
      answer ((row.opening.form.validateDraft host.toHost draft).mapError .ofPresentation)
    let row := { row with
      attemptId := if draft.isSome then some operation else row.attemptId
      draft := if draft.isSome then draft else row.draft
      errors := []
      state := if draft.isSome then .submitted else .dismissed }
    let operations ← answer
      (okOr (archive.operations.insert? { identity, operation, payload := draft }) .storage)
    set { archive with operations }
    let row ← save host identity row
    return (row, true)

inductive SettleForm where
  | reject (attempt : String) (errors : List FormError)
  | commit (attempt : String) (answer : View)
  | close

/-- What a settlement does to the row it finds: an answer at once, or a new row. -/
def SettleForm.apply (row : StoredActorForm) : SettleForm → Bool ⊕ StoredActorForm
  | commit attempt answer =>
    if row.attemptId ≠ some attempt then .inl false
    else if row.state = .answered ∧ row.answer = some answer then .inl true
    else if row.state ≠ .submitted then .inl false
    else .inr { row with state := .answered, answer := some answer, errors := [] }
  | reject attempt errors =>
    if row.attemptId ≠ some attempt then .inl false
    else if row.state = .open ∧ row.errors = errors then .inl true
    else if row.state ≠ .submitted then .inl false
    else .inr { row with state := .open, errors }
  | close =>
    if row.state.pending then .inr { row with state := .cancelled } else .inl false

def settleForm (identity : FormKey) (settlement : SettleForm) : FormTx (Bool × Bool) := do
  let row ← load host identity
  match settlement.apply row with
  | .inl applied => return (applied, false)
  | .inr row =>
    let _ ← save host identity row
    return (true, true)

/-- The rows the restart selects. -/
def FormArchive.pending (archive : FormArchive) : List FormRow :=
  archive.forms.rows.filter (·.presentation.state.pending)

/-- One selected row is read without validation and saved as interrupted. -/
def interruptRow (raw : FormRow) : FormTx Unit := do
  let row ← answer (raw.presentation.fromStr host.toHost)
  let _ ← save host raw.identity { row with state := .interrupted }

/-- `interrupt_pending`. -/
def interruptForms : FormTx ℕ := do
  let archive ← get
  archive.pending.forM (interruptRow host)
  return archive.pending.length

/-! The public calls: the media of an opening or an answer is retained first, each
asset in its own transaction, then one transaction changes the form. -/

/-- The store of a form call: its tables and the retained media. -/
structure FormStore where
  archive : FormArchive
  media : Media

def FormStore.empty : FormStore where
  archive := .empty
  media := .empty

/-- A call checks its arguments and retains media, then runs one transaction. -/
def FormStore.call {α : Type} (prelude : Retaining (FormTx α)) (store : FormStore) :
    Except StoreError α × FormStore :=
  let prepared := prelude.run.run store.media
  match prepared.1 with
  | .error failure => (.error failure, { store with media := prepared.2 })
  | .ok tx =>
    let outcome := commit tx store.archive
    (outcome.1, { archive := outcome.2, media := prepared.2 })

def openActorForm (storeId : String) (authority : FormAuthority) (opening : ActorFormOpen) :
    Retaining (FormTx (StoredActorForm × Bool)) := do
  let identity ← Attempt.lift (formKey opening.origin opening.mountId)
  Attempt.lift ((opening.form.validate host.toHost).mapError .ofPresentation)
  let form ← retainFormMedia host opening.form
  let opening := { opening with form }
  Attempt.lift (require (ownsConversation opening.origin opening.conversation) .invalidForm)
  Attempt.lift (require (inStore storeId opening.conversation) .invalidForm)
  return openForm host authority identity opening

def validOperation (operation : String) : Bool :=
  !operation.isEmpty && operation.utf8ByteSize ≤ 256

def browserOperation (origin : ActorOutputOrigin) (mount operation : String)
    (draft : Option FormDraft) : Retaining (FormTx (StoredActorForm × Bool)) := do
  let identity ← Attempt.lift (formKey origin mount)
  Attempt.lift (require (validOperation operation) .invalidForm)
  return formBrowserOperation host identity operation draft

/-- `submit_actor_form` on a document read as a draft; `none` is one that is not. -/
def submitActorForm (origin : ActorOutputOrigin) (mount operation : String)
    (draft : Option FormDraft) : Retaining (FormTx (StoredActorForm × Bool)) := do
  let draft ← Attempt.lift (okOr draft .invalidForm)
  browserOperation host origin mount operation (some draft)

def dismissActorForm (origin : ActorOutputOrigin) (mount operation : String) :
    Retaining (FormTx (StoredActorForm × Bool)) :=
  browserOperation host origin mount operation none

def settleActorForm (origin : ActorOutputOrigin) (mount : String) (settlement : SettleForm) :
    Retaining (FormTx (Bool × Bool)) := do
  let identity ← Attempt.lift (formKey origin mount)
  return settleForm host identity settlement

def rejectActorForm (origin : ActorOutputOrigin) (mount attempt : String)
    (errors : Option (List FormError)) : Retaining (FormTx (Bool × Bool)) := do
  let errors ← Attempt.lift ((parseErrors errors).mapError .ofPresentation)
  settleActorForm host origin mount (.reject attempt errors)

/-- `commit_actor_form` on a document read as a view; `none` is one that is not. -/
def commitActorForm (origin : ActorOutputOrigin) (mount attempt : String)
    (presentation : Option View) : Retaining (FormTx (Bool × Bool)) := do
  let presentation ← Attempt.lift (okOr presentation .invalidForm)
  Attempt.lift ((presentation.validate host.validateSvg).mapError .ofPresentation)
  let retained ← retainViewMedia host presentation
  settleActorForm host origin mount (.commit attempt retained)

def closeActorForm (origin : ActorOutputOrigin) (mount : String) :
    Retaining (FormTx (Bool × Bool)) :=
  settleActorForm host origin mount .close

def interruptActorFormsForRestart : Retaining (FormTx ℕ) :=
  return interruptForms host

end ExomonadHarness.Store
