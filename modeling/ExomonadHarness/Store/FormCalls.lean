import ExomonadHarness.Store.FormSpec
import ExomonadHarness.Support.Run

/-! The public form calls as one system, and what an accepted call changes. -/

namespace ExomonadHarness.Store

open ExomonadHarness.Json ExomonadHarness.Presentation Checked Transaction Attempt

inductive FormAnswer where
  | form (row : StoredActorForm) (changed : Bool)
  | settled (applied changed : Bool)
  | interrupted (count : ℕ)

inductive FormCall where
  | «open» (authority : FormAuthority) (opening : ActorFormOpen)
  | submit (origin : ActorOutputOrigin) (mount operation : String) (draft : Option FormDraft)
  | dismiss (origin : ActorOutputOrigin) (mount operation : String)
  | reject (origin : ActorOutputOrigin) (mount attempt : String) (errors : Option (List FormError))
  | commit (origin : ActorOutputOrigin) (mount attempt : String) (presentation : Option View)
  | close (origin : ActorOutputOrigin) (mount : String)
  | restart

def answerForm (tx : FormTx (StoredActorForm × Bool)) : FormTx FormAnswer :=
  (fun answer => .form answer.1 answer.2) <$> tx

def answerSettled (tx : FormTx (Bool × Bool)) : FormTx FormAnswer :=
  (fun answer => .settled answer.1 answer.2) <$> tx

namespace FormCall

variable (host : MediaHost) (storeId : String)

def prelude : FormCall → Retaining (FormTx FormAnswer)
  | «open» authority opening => answerForm <$> openActorForm host storeId authority opening
  | submit origin mount operation draft =>
    answerForm <$> submitActorForm host origin mount operation draft
  | dismiss origin mount operation => answerForm <$> dismissActorForm host origin mount operation
  | reject origin mount attempt errors =>
    answerSettled <$> rejectActorForm host origin mount attempt errors
  | commit origin mount attempt presentation =>
    answerSettled <$> commitActorForm host origin mount attempt presentation
  | close origin mount => answerSettled <$> closeActorForm host origin mount
  | restart => (FormAnswer.interrupted <$> ·) <$> interruptActorFormsForRestart host

def run (call : FormCall) (store : FormStore) : Except StoreError FormAnswer × FormStore :=
  store.call (call.prelude host storeId)

/-- The mount, operation and payload of a browser operation. -/
def operation : FormCall → Option (FormKey × String × Option FormDraft)
  | submit origin mount operation (some draft) => some ((origin, mount), operation, some draft)
  | dismiss origin mount operation => some ((origin, mount), operation, none)
  | _ => none

/-- The mount and attempt a settlement names. -/
def attempt : FormCall → Option (FormKey × String)
  | reject origin mount attempt _ | commit origin mount attempt _ => some ((origin, mount), attempt)
  | _ => none

end FormCall

section

variable {host : MediaHost} {storeId : String} {store : FormStore}

/-- A call is refused before or inside its transaction and leaves the tables as
they are, or its transaction answers. -/
theorem FormCall.run_cases (host : MediaHost) (storeId : String) (store : FormStore)
    (call : FormCall) :
    ((∃ failure, (call.run host storeId store).1 = .error failure) ∧
        (call.run host storeId store).2.archive = store.archive) ∨
      ∃ tx answer, Reaches (call.prelude host storeId) store.media tx
          (call.run host storeId store).2.media ∧
        Answers tx store.archive answer (call.run host storeId store).2.archive ∧
        (call.run host storeId store).1 = .ok answer := by
  rcases prepared : (call.prelude host storeId).run.run store.media with ⟨failure | tx, media⟩
  · refine .inl ⟨⟨failure, ?_⟩, ?_⟩ <;> rw [run, FormStore.call, prepared]
  · have reached : call.run host storeId store =
        ((Transaction.commit tx store.archive).1,
          { archive := (Transaction.commit tx store.archive).2, media }) := by
      rw [run, FormStore.call, prepared]
    rw [reached]
    cases outcome : (Transaction.commit tx store.archive).1 with
    | error failure =>
      exact .inl ⟨⟨failure, rfl⟩, congrArg Prod.snd (commit_of_error outcome)⟩
    | ok answer => exact .inr ⟨tx, answer, prepared, answers_commit outcome, rfl⟩

/-- A transaction that its prelude reaches and that answers is what the call does. -/
theorem FormCall.run_of_answers {call : FormCall} {tx : FormTx FormAnswer} {media : Media}
    {answer : FormAnswer} {next : FormArchive}
    (reached : Reaches (call.prelude host storeId) store.media tx media)
    (answered : Answers tx store.archive answer next) :
    call.run host storeId store = (.ok answer, { archive := next, media }) := by
  unfold Reaches at reached
  rw [run, FormStore.call, reached]
  simp only [commit_eq_ok.mpr answered]

end

/-- The transaction each call comes to. -/
inductive FormCall.Transacts (host : MediaHost) : FormCall → FormTx FormAnswer → Prop where
  | opens {authority : FormAuthority} {opening : ActorFormOpen} {form : FormSpec} :
      Transacts host (.open authority opening)
        (answerForm (openForm host authority (opening.origin, opening.mountId)
          { opening with form }))
  | operates {call : FormCall} {identity : FormKey} {operation : String}
      {payload : Option FormDraft} (names : call.operation = some (identity, operation, payload))
      (valid : validOperation operation = true) :
      Transacts host call (answerForm (formBrowserOperation host identity operation payload))
  | rejects {origin : ActorOutputOrigin} {mount attempt : String} {errors : List FormError} :
      Transacts host (.reject origin mount attempt (some errors))
        (answerSettled (settleForm host (origin, mount) (.reject attempt errors)))
  | commits {origin : ActorOutputOrigin} {mount attempt : String} {presentation retained : View} :
      Transacts host (.commit origin mount attempt (some presentation))
        (answerSettled (settleForm host (origin, mount) (.commit attempt retained)))
  | closes {origin : ActorOutputOrigin} {mount : String} :
      Transacts host (.close origin mount)
        (answerSettled (settleForm host (origin, mount) .close))
  | restarts : Transacts host .restart (FormAnswer.interrupted <$> interruptForms host)

section

variable {host : MediaHost} {storeId : String} {media kept : Media}

theorem reaches_browserOperation {origin : ActorOutputOrigin} {mount operation : String}
    {payload : Option FormDraft} {tx : FormTx (StoredActorForm × Bool)} :
    Reaches (browserOperation host origin mount operation payload) media tx kept ↔
      formKey origin mount = .ok (origin, mount) ∧ validOperation operation = true ∧
        tx = formBrowserOperation host (origin, mount) operation payload ∧ kept = media := by
  simp only [browserOperation, reaches_bind, reaches_lift, reaches_pure, require_eq_ok]
  constructor
  · intro reached
    obtain ⟨_, _, ⟨named, rfl⟩, _, _, ⟨valid, rfl⟩, rfl, rfl⟩ := reached
    have same := formKey_eq_ok named
    subst same
    exact ⟨named, valid, rfl, rfl⟩
  · intro reached
    obtain ⟨named, valid, rfl, rfl⟩ := reached
    exact ⟨_, _, ⟨named, rfl⟩, ⟨⟩, _, ⟨valid, rfl⟩, rfl, rfl⟩

theorem reaches_settleActorForm {origin : ActorOutputOrigin} {mount : String}
    {settlement : SettleForm} {tx : FormTx (Bool × Bool)} :
    Reaches (settleActorForm host origin mount settlement) media tx kept ↔
      formKey origin mount = .ok (origin, mount) ∧
        tx = settleForm host (origin, mount) settlement ∧ kept = media := by
  simp only [settleActorForm, reaches_bind, reaches_lift, reaches_pure]
  constructor
  · intro reached
    obtain ⟨_, _, ⟨named, rfl⟩, rfl, rfl⟩ := reached
    have same := formKey_eq_ok named
    subst same
    exact ⟨named, rfl, rfl⟩
  · intro reached
    obtain ⟨named, rfl, rfl⟩ := reached
    exact ⟨_, _, ⟨named, rfl⟩, rfl, rfl⟩

theorem FormCall.transacts {call : FormCall} {tx : FormTx FormAnswer}
    (reached : Reaches (call.prelude host storeId) media tx kept) : call.Transacts host tx := by
  cases call with
  | «open» authority opening =>
    simp only [prelude, openActorForm, reaches_map, reaches_bind, reaches_lift,
      reaches_pure] at reached
    obtain ⟨_, ⟨_, _, ⟨named, _⟩, _, _, _, form, _, _, _, _, _, _, _, _, rfl, _⟩, rfl⟩ := reached
    have same := formKey_eq_ok named
    subst same
    exact .opens
  | submit origin mount operation draft =>
    simp only [prelude, submitActorForm, reaches_map, reaches_bind, reaches_lift, okOr_eq_ok,
      reaches_browserOperation] at reached
    obtain ⟨_, ⟨_, _, ⟨rfl, _⟩, _, valid, rfl, _⟩, rfl⟩ := reached
    exact .operates rfl valid
  | dismiss origin mount operation =>
    simp only [prelude, dismissActorForm, reaches_map, reaches_browserOperation] at reached
    obtain ⟨_, ⟨_, valid, rfl, _⟩, rfl⟩ := reached
    exact .operates rfl valid
  | reject origin mount attempt errors =>
    simp only [prelude, rejectActorForm, parseErrors, reaches_map, reaches_bind, reaches_lift,
      reaches_settleActorForm, mapError_eq_ok, bind_eq_ok, okOr_eq_ok, pure_eq_ok] at reached
    obtain ⟨_, ⟨_, _, ⟨⟨_, rfl, _, _, rfl⟩, _⟩, _, rfl, _⟩, rfl⟩ := reached
    exact .rejects
  | commit origin mount attempt presentation =>
    simp only [prelude, commitActorForm, reaches_map, reaches_bind, reaches_lift,
      reaches_settleActorForm, okOr_eq_ok] at reached
    obtain ⟨_, ⟨_, _, ⟨rfl, _⟩, _, _, _, _, _, _, _, rfl, _⟩, rfl⟩ := reached
    exact .commits
  | close origin mount =>
    simp only [prelude, closeActorForm, reaches_map, reaches_settleActorForm] at reached
    obtain ⟨_, ⟨_, rfl, _⟩, rfl⟩ := reached
    exact .closes
  | restart =>
    simp only [prelude, interruptActorFormsForRestart, reaches_map, reaches_pure] at reached
    obtain ⟨_, ⟨rfl, _⟩, rfl⟩ := reached
    exact .restarts

end

end ExomonadHarness.Store
