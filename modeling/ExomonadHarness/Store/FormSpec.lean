import ExomonadHarness.Store.Forms

/-! What each form transaction reads, checks and writes. -/

namespace ExomonadHarness.Store

open ExomonadHarness.Json ExomonadHarness.Presentation Checked Transaction

namespace StoredActorForm

/-- Every check of `validate` but the one of the encoded length. -/
structure Admissible (host : Host) (row : StoredActorForm) : Prop where
  key : formKey row.opening.origin row.opening.mountId =
    .ok (row.opening.origin, row.opening.mountId)
  execution : validateExecution row.opening.execution = .ok ()
  shape : row.shape = true
  sequence : 0 < row.sequence
  revision : row.sequence ≤ row.revisionSequence
  form : row.opening.form.validate host = .ok ()
  errors : ∃ errors, parseErrors (some row.errors) = .ok errors
  draft : ∀ draft ∈ row.draft, row.opening.form.validateDraft host draft = .ok ()
  answer : ∀ answer ∈ row.answer, answer.validate host.validateSvg = .ok ()

end StoredActorForm

theorem formKey_eq_ok {origin : ActorOutputOrigin} {mount : String} {identity : FormKey}
    (named : formKey origin mount = .ok identity) : identity = (origin, mount) := by
  simp only [formKey, bind_eq_ok, require_eq_ok, pure_eq_ok] at named
  obtain ⟨_, _, _, _, same⟩ := named
  exact same.symm

namespace StoredActorForm

variable {host : Host} {row raw : StoredActorForm}

theorem validate_eq_ok :
    row.validate host = .ok () ↔ row.Admissible host ∧ row.length host ≤ maxFormBytes := by
  simp only [validate, bind_eq_ok, mapError_eq_ok, require_eq_ok, forM_eq_ok, Bool.and_eq_true,
    decide_eq_true_eq, Option.mem_toList]
  constructor
  · intro passed
    obtain ⟨own, named, _, execution, _, ⟨⟨⟨shape, sequence⟩, revision⟩, fits⟩, _, form, _, errors,
      _, draft, answer⟩ := passed
    have same := formKey_eq_ok named
    subst same
    exact ⟨⟨named, execution, shape, sequence, revision, form, ⟨_, errors⟩, draft, answer⟩, fits⟩
  · intro passed
    obtain ⟨admissible, fits⟩ := passed
    obtain ⟨parsed, errors⟩ := admissible.errors
    exact ⟨_, admissible.key, (), admissible.execution, ⟨⟩,
      ⟨⟨⟨admissible.shape, admissible.sequence⟩, admissible.revision⟩, fits⟩, (), admissible.form,
      parsed, errors, ⟨⟩, admissible.draft, admissible.answer⟩

theorem fromStr_eq_ok :
    raw.fromStr host = .ok row ↔ raw.depth ≤ maxNesting ∧ row = raw.reread host := by
  simp only [fromStr, bind_eq_ok, require_eq_ok, pure_eq_ok, decide_eq_true_eq]
  constructor
  · intro read
    obtain ⟨_, shallow, same⟩ := read
    exact ⟨shallow, same.symm⟩
  · intro read
    exact ⟨⟨⟩, read.1, read.2.symm⟩

theorem decode_eq_ok :
    raw.decode host = .ok row ↔
      row = raw.reread host ∧ raw.depth ≤ maxNesting ∧ row.Admissible host ∧
        row.length host ≤ maxFormBytes := by
  simp only [decode, bind_eq_ok, fromStr_eq_ok, pure_eq_ok]
  constructor
  · intro decoded
    obtain ⟨read, ⟨shallow, same⟩, _, valid, done⟩ := decoded
    subst same done
    exact ⟨rfl, shallow, validate_eq_ok.mp valid⟩
  · intro decoded
    obtain ⟨rfl, shallow, valid⟩ := decoded
    exact ⟨_, ⟨shallow, rfl⟩, (), validate_eq_ok.mpr valid, rfl⟩

/-- A row that is read back as it is stays so under what leaves its form and its draft alone. -/
theorem reread_eq_of {other : StoredActorForm} (steady : row.reread host = row)
    (opening : other.opening = row.opening) (draft : other.draft = row.draft) :
    other.reread host = other := by
  have form := congrArg StoredActorForm.opening steady
  have drafted := congrArg StoredActorForm.draft steady
  simp only [reread, opening, draft] at form drafted ⊢
  rw [form, drafted, ← opening, ← draft]

/-- A new revision number only grows the encoded length by its digits. -/
theorem length_le_revised {revision : ℕ} (later : row.revisionSequence ≤ revision) :
    row.length host ≤
      StoredActorForm.length host { row with revisionSequence := revision } := by
  have digits := Length.nat_mono later
  simp only [length, Length.object, Length.separated, List.map_cons, List.map_nil, List.sum_cons,
    List.sum_nil, List.length_cons, List.length_nil]
  omega

/-- The checks but the length see a revision number only against the sequence. -/
theorem Admissible.revised (admissible : row.Admissible host) {revision : ℕ}
    (later : row.sequence ≤ revision) :
    StoredActorForm.Admissible host { row with revisionSequence := revision } :=
  { admissible with revision := later }

end StoredActorForm

/-- The presentation stored for a mount. -/
def FormArchive.row? (archive : FormArchive) (identity : FormKey) : Option StoredActorForm :=
  (archive.forms.find? identity).map FormRow.presentation

namespace FormArchive

variable {archive : FormArchive} {identity other : FormKey} {row : StoredActorForm}

theorem row?_eq_some :
    archive.row? identity = some row ↔ archive.forms.find? identity = some ⟨identity, row⟩ := by
  simp only [row?, Option.map_eq_some_iff]
  constructor
  · intro found
    obtain ⟨stored, found, same⟩ := found
    have own := Table.key_of_find? found
    subst own same
    exact found
  · intro found
    exact ⟨_, found, rfl⟩

/-- One event was appended and a row presented with its id as the new revision. -/
def revise (archive : FormArchive) (identity : FormKey) (row : StoredActorForm) : FormArchive :=
  { archive with lastEvent := archive.lastEvent + 1 }.present identity
    { row with revisionSequence := archive.lastEvent + 1 }

theorem row?_present :
    (archive.present identity row).row? other =
      if other = identity then (archive.row? other).map (fun _ => row) else archive.row? other := by
  simp only [row?, present, Table.find?_update]
  cases found : archive.forms.find? other with
  | none => simp
  | some stored =>
    have own := Table.key_of_find? found
    subst own
    simp only [Option.map_some]
    split <;> rfl

@[simp] theorem operations_revise :
    (archive.revise identity row).operations = archive.operations := rfl

@[simp] theorem lastEvent_revise :
    (archive.revise identity row).lastEvent = archive.lastEvent + 1 := rfl

theorem row?_revise :
    (archive.revise identity row).row? other =
      if other = identity then
        (archive.row? other).map fun _ => { row with revisionSequence := archive.lastEvent + 1 }
      else archive.row? other :=
  row?_present

end FormArchive

/-- A mount whose row `load` answers. -/
structure Loads (host : Host) (archive : FormArchive) (identity : FormKey)
    (row : StoredActorForm) : Prop where
  read : ∃ raw, archive.row? identity = some raw ∧ raw.depth ≤ maxNesting ∧ row = raw.reread host
  admissible : row.Admissible host
  fits : row.length host ≤ maxFormBytes
  own : (row.opening.origin, row.opening.mountId) = identity

/-- Every stored form is read back as it was written. -/
def FormArchive.Steady (host : Host) (archive : FormArchive) : Prop :=
  ∀ ⦃identity row⦄, archive.row? identity = some row → row.reread host = row

theorem FormArchive.Steady.revise {host : Host} {archive : FormArchive} {identity : FormKey}
    {row : StoredActorForm} (steady : archive.Steady host) (kept : row.reread host = row) :
    (archive.revise identity row).Steady host := by
  intro other stored found
  rw [row?_revise] at found
  split at found
  · obtain ⟨_, _, rfl⟩ := Option.map_eq_some_iff.mp found
    exact StoredActorForm.reread_eq_of kept rfl rfl
  · exact steady found

theorem Loads.found {host : Host} {archive : FormArchive} {identity : FormKey}
    {row : StoredActorForm} (loads : Loads host archive identity row)
    (steady : archive.Steady host) : archive.row? identity = some row ∧ row.depth ≤ maxNesting := by
  obtain ⟨raw, found, shallow, same⟩ := loads.read
  rw [steady found] at same
  exact same ▸ ⟨found, shallow⟩

section

variable {host : MediaHost} {archive next : FormArchive} {identity : FormKey}
variable {row saved : StoredActorForm}

theorem answers_load :
    Answers (load host identity) archive row next ↔
      Loads host.toHost archive identity row ∧ next = archive := by
  simp only [load, answers_bind, answers_get, answers_answer, answers_pure, okOr_eq_ok,
    require_eq_ok, decide_eq_true_eq, StoredActorForm.decode_eq_ok]
  constructor
  · intro loaded
    obtain ⟨_, _, ⟨rfl, rfl⟩, stored, _, ⟨found, rfl⟩, _, _, ⟨⟨rfl, shallow, admissible, fits⟩, rfl⟩,
      own, _, ⟨named, rfl⟩, _, _, ⟨same, rfl⟩, rfl, rfl⟩ := loaded
    have expected := formKey_eq_ok named
    exact ⟨⟨⟨_, by rw [FormArchive.row?, found]; rfl, shallow, rfl⟩, admissible, fits,
      expected.symm.trans same⟩, rfl⟩
  · intro loaded
    obtain ⟨loads, rfl⟩ := loaded
    obtain ⟨raw, stored, shallow, same⟩ := loads.read
    have found := FormArchive.row?_eq_some.mp stored
    exact ⟨_, _, ⟨rfl, rfl⟩, _, _, ⟨found, rfl⟩, _, _,
      ⟨⟨same, shallow, loads.admissible, loads.fits⟩, rfl⟩, _, _,
      ⟨loads.admissible.key, rfl⟩, ⟨⟩, _, ⟨loads.own, rfl⟩, rfl, rfl⟩

theorem answers_appendEvent {id : ℕ} :
    Answers appendEvent archive id next ↔
      id = archive.lastEvent + 1 ∧ next = { archive with lastEvent := archive.lastEvent + 1 } := by
  simp only [appendEvent, answers_bind, answers_modify, answers_get, answers_pure]
  constructor
  · intro appended
    obtain ⟨_, _, rfl, _, _, ⟨rfl, rfl⟩, rfl, rfl⟩ := appended
    exact ⟨rfl, rfl⟩
  · intro appended
    obtain ⟨rfl, rfl⟩ := appended
    exact ⟨⟨⟩, _, rfl, _, _, ⟨rfl, rfl⟩, rfl, rfl⟩

theorem answers_save :
    Answers (save host identity row) archive saved next ↔
      row.validate host.toHost = .ok () ∧
        saved = { row with revisionSequence := archive.lastEvent + 1 } ∧
        next = archive.revise identity row := by
  simp only [save, answers_bind, answers_answer, answers_appendEvent, answers_modify, answers_pure]
  constructor
  · intro ran
    obtain ⟨_, _, ⟨valid, rfl⟩, _, _, ⟨rfl, rfl⟩, _, _, rfl, rfl, rfl⟩ := ran
    exact ⟨valid, rfl, rfl⟩
  · intro ran
    obtain ⟨valid, rfl, rfl⟩ := ran
    exact ⟨(), _, ⟨valid, rfl⟩, _, _, ⟨rfl, rfl⟩, ⟨⟩, _, rfl, rfl, rfl⟩

/-- The row of a mount opened now. -/
def StoredActorForm.opened (opening : ActorFormOpen) (sequence : ℕ) : StoredActorForm where
  sequence := sequence
  revisionSequence := sequence
  opening := opening
  state := .open
  attemptId := none
  draft := none
  errors := []
  answer := none

/-- An opening answers the row of a mount that has the same opening, or adds one. -/
theorem answers_openForm {authority : FormAuthority} {opening : ActorFormOpen} {changed : Bool} :
    Answers (openForm host authority identity opening) archive (row, changed) next ↔
      authority opening = .ok true ∧
        ((changed = false ∧ next = archive ∧ Loads host.toHost archive identity row ∧
            row.opening = opening) ∨
          changed = true ∧ row = .opened opening (archive.lastEvent + 1) ∧
            row.validate host.toHost = .ok () ∧
            ∃ forms, archive.forms.insert? ⟨identity, row⟩ = some forms ∧
              next = { archive with forms, lastEvent := archive.lastEvent + 1 }) := by
  simp only [openForm, answers_bind, answers_answer, answers_get, mapError_eq_ok, require_eq_ok]
  constructor
  · intro ran
    obtain ⟨_, _, ⟨allowed, rfl⟩, _, _, ⟨rfl, rfl⟩, _, _, ⟨rfl, rfl⟩, ran⟩ := ran
    refine ⟨allowed, ?_⟩
    split at ran
    case isTrue exists_ =>
      simp only [answers_bind, answers_load, answers_answer, answers_pure, require_eq_ok,
        decide_eq_true_eq] at ran
      obtain ⟨_, _, ⟨loads, rfl⟩, _, _, ⟨same, rfl⟩, answered, rfl⟩ := ran
      cases answered
      exact .inl ⟨rfl, rfl, loads, same⟩
    case isFalse absent =>
      simp only [answers_bind, answers_appendEvent, answers_answer, answers_get, answers_set,
        answers_pure, okOr_eq_ok] at ran
      obtain ⟨_, _, ⟨rfl, rfl⟩, _, _, ⟨valid, rfl⟩, _, _, ⟨rfl, rfl⟩, forms, _, ⟨inserted, rfl⟩, _, _,
        rfl, answered, rfl⟩ := ran
      cases answered
      exact .inr ⟨rfl, rfl, valid, forms, inserted, rfl⟩
  · intro ran
    obtain ⟨allowed, ran⟩ := ran
    refine ⟨_, _, ⟨allowed, rfl⟩, ⟨⟩, _, ⟨rfl, rfl⟩, _, _, ⟨rfl, rfl⟩, ?_⟩
    rcases ran with ⟨rfl, rfl, loads, same⟩ | ⟨rfl, rfl, valid, forms, inserted, rfl⟩
    · obtain ⟨raw, stored, _⟩ := loads.read
      have found := FormArchive.row?_eq_some.mp stored
      rw [if_pos (by rw [found]; rfl)]
      simp only [answers_bind, answers_load, answers_answer, answers_pure, require_eq_ok,
        decide_eq_true_eq]
      exact ⟨row, _, ⟨loads, rfl⟩, ⟨⟩, _, ⟨same, rfl⟩, rfl, rfl⟩
    · have free := (Table.insert?_eq_some.mp inserted).1
      rw [if_neg (by rw [show archive.forms.find? identity = none from free]; simp)]
      simp only [answers_bind, answers_appendEvent, answers_answer, answers_get, answers_set,
        answers_pure, okOr_eq_ok]
      exact ⟨_, _, ⟨rfl, rfl⟩, (), _, ⟨valid, rfl⟩, _, _, ⟨rfl, rfl⟩, forms, _, ⟨inserted, rfl⟩, ⟨⟩, _,
        rfl, rfl, rfl⟩

/-- The row a browser operation writes. -/
def StoredActorForm.operated (row : StoredActorForm) (operation : String)
    (draft : Option FormDraft) : StoredActorForm :=
  { row with
    attemptId := if draft.isSome then some operation else row.attemptId
    draft := if draft.isSome then draft else row.draft
    errors := []
    state := if draft.isSome then .submitted else .dismissed }

theorem answers_validateDraft {form : FormSpec} {draft : Option FormDraft} {done : PUnit} :
    Answers (draft.toList.forM fun draft =>
        (answer ((form.validateDraft host.toHost draft).mapError .ofPresentation) : FormTx Unit))
      archive done next ↔
      (∀ value ∈ draft, form.validateDraft host.toHost value = .ok ()) ∧ next = archive := by
  cases draft with
  | none => simp
  | some value => simp

/-- A browser operation answers the row it finds when it is recorded with the
same payload; otherwise it is recorded and changes a pending row. -/
theorem answers_formBrowserOperation {operation : String} {draft : Option FormDraft}
    {result : StoredActorForm × Bool} :
    Answers (formBrowserOperation host identity operation draft) archive result next ↔
      ∃ row, Loads host.toHost archive identity row ∧
        ((∃ old, archive.operations.find? (identity, operation) = some old ∧ old.payload = draft ∧
            result = (row, false) ∧ next = archive) ∨
          ((row.state = .open ∨ draft.isNone ∧ row.state = .submitted) ∧
            (∀ value ∈ draft, row.opening.form.validateDraft host.toHost value = .ok ()) ∧
            (row.operated operation draft).validate host.toHost = .ok () ∧
            ∃ operations, archive.operations.insert? ⟨identity, operation, draft⟩ =
                some operations ∧
              result = ({ row.operated operation draft with
                revisionSequence := archive.lastEvent + 1 }, true) ∧
              next = { archive with operations }.revise identity (row.operated operation draft))) := by
  simp only [formBrowserOperation, answers_bind, answers_load, answers_get]
  constructor
  · intro ran
    obtain ⟨row, _, ⟨loads, rfl⟩, _, _, ⟨rfl, rfl⟩, ran⟩ := ran
    refine ⟨row, loads, ?_⟩
    split at ran
    case h_1 old recorded =>
      simp only [answers_bind, answers_answer, answers_pure, require_eq_ok,
        decide_eq_true_eq] at ran
      obtain ⟨_, _, ⟨same, rfl⟩, answered⟩ := ran
      exact .inl ⟨old, recorded, same, answered⟩
    case h_2 fresh =>
      simp only [answers_bind, answers_answer, answers_pure, answers_set, answers_save,
        answers_validateDraft, require_eq_ok, okOr_eq_ok, Bool.or_eq_true, Bool.and_eq_true,
        decide_eq_true_eq] at ran
      obtain ⟨_, _, ⟨available, rfl⟩, _, _, ⟨drafted, rfl⟩, operations, _, ⟨inserted, rfl⟩, _, _, rfl,
        _, _, ⟨valid, rfl, rfl⟩, answered, rfl⟩ := ran
      exact .inr ⟨available, drafted, valid, operations, inserted, answered, rfl⟩
  · intro ran
    obtain ⟨row, loads, ran⟩ := ran
    refine ⟨row, _, ⟨loads, rfl⟩, _, _, ⟨rfl, rfl⟩, ?_⟩
    rcases ran with ⟨old, recorded, same, answered⟩ |
      ⟨available, drafted, valid, operations, inserted, answered, rfl⟩
    · rw [recorded]
      simp only [answers_bind, answers_answer, answers_pure, require_eq_ok, decide_eq_true_eq]
      exact ⟨⟨⟩, _, ⟨same, rfl⟩, answered⟩
    · have fresh : archive.operations.find? (identity, operation) = none :=
        (Table.insert?_eq_some.mp inserted).1
      rw [fresh]
      simp only [answers_bind, answers_answer, answers_pure, answers_set, answers_save,
        answers_validateDraft, require_eq_ok, okOr_eq_ok, Bool.or_eq_true, Bool.and_eq_true,
        decide_eq_true_eq]
      exact ⟨⟨⟩, _, ⟨available, rfl⟩, ⟨⟩, _, ⟨drafted, rfl⟩, operations, _, ⟨inserted, rfl⟩, ⟨⟩, _, rfl,
        _, _, ⟨valid, rfl, rfl⟩, answered, rfl⟩

/-- A settlement answers at once or writes the row it makes. -/
theorem answers_settleForm {settlement : SettleForm} {result : Bool × Bool} :
    Answers (settleForm host identity settlement) archive result next ↔
      ∃ row, Loads host.toHost archive identity row ∧
        ((∃ applied, settlement.apply row = .inl applied ∧ result = (applied, false) ∧
            next = archive) ∨
          ∃ written, settlement.apply row = .inr written ∧
            written.validate host.toHost = .ok () ∧ result = (true, true) ∧
            next = archive.revise identity written) := by
  simp only [settleForm, answers_bind, answers_load]
  constructor
  · intro ran
    obtain ⟨row, _, ⟨loads, rfl⟩, ran⟩ := ran
    refine ⟨row, loads, ?_⟩
    split at ran
    case h_1 applied settled =>
      rw [answers_pure] at ran
      exact .inl ⟨applied, settled, ran⟩
    case h_2 written settled =>
      simp only [answers_bind, answers_save, answers_pure] at ran
      obtain ⟨_, _, ⟨valid, _, rfl⟩, answered, rfl⟩ := ran
      exact .inr ⟨written, settled, valid, answered, rfl⟩
  · intro ran
    obtain ⟨row, loads, ran⟩ := ran
    refine ⟨row, _, ⟨loads, rfl⟩, ?_⟩
    rcases ran with ⟨applied, settled, answered, rfl⟩ | ⟨written, settled, valid, answered, rfl⟩
    · rw [settled]
      exact answers_pure.mpr ⟨answered, rfl⟩
    · rw [settled]
      simp only [answers_bind, answers_save, answers_pure]
      exact ⟨_, _, ⟨valid, rfl, rfl⟩, answered, rfl⟩

end

end ExomonadHarness.Store
