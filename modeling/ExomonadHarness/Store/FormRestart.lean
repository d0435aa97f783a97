import ExomonadHarness.Store.FormLedger

/-! The interruption of every pending form at a restart. -/

namespace ExomonadHarness.Store

open ExomonadHarness.Json ExomonadHarness.Presentation Checked Transaction

def StoredActorForm.interrupt (row : StoredActorForm) : StoredActorForm :=
  { row with state := .interrupted }

/-- The tables after the given rows were saved as interrupted, one after another. -/
def FormArchive.interruptAll (archive : FormArchive) (rows : List FormRow) : FormArchive :=
  rows.foldl (fun reached raw => reached.revise raw.identity raw.presentation.interrupt) archive

theorem FormArchive.mem_pending {archive : FormArchive} {raw : FormRow} :
    raw ∈ archive.pending ↔
      archive.row? raw.identity = some raw.presentation ∧ raw.presentation.state.pending = true := by
  rw [pending, List.mem_filter, row?_eq_some, Table.mem_iff_find?]

section

variable {host : MediaHost} {archive next : FormArchive} {rows : List FormRow}

theorem answers_interruptRow {raw : FormRow} {done : Unit}
    (steady : raw.presentation.reread host.toHost = raw.presentation) :
    Answers (interruptRow host raw) archive done next ↔
      raw.presentation.depth ≤ maxNesting ∧
        raw.presentation.interrupt.validate host.toHost = .ok () ∧
        next = archive.revise raw.identity raw.presentation.interrupt := by
  simp only [interruptRow, answers_bind, answers_answer, answers_save, answers_pure,
    StoredActorForm.fromStr_eq_ok, steady]
  constructor
  · intro ran
    obtain ⟨_, _, ⟨⟨shallow, rfl⟩, rfl⟩, _, _, ⟨valid, _, rfl⟩, _, rfl⟩ := ran
    exact ⟨shallow, valid, rfl⟩
  · intro ran
    obtain ⟨shallow, valid, rfl⟩ := ran
    exact ⟨_, _, ⟨⟨shallow, rfl⟩, rfl⟩, _, _, ⟨valid, rfl, rfl⟩, trivial, rfl⟩

theorem answers_interruptRows {done : PUnit}
    (steady : ∀ raw ∈ rows, raw.presentation.reread host.toHost = raw.presentation) :
    Answers (rows.forM (interruptRow host)) archive done next ↔
      (∀ raw ∈ rows, raw.presentation.depth ≤ maxNesting ∧
        raw.presentation.interrupt.validate host.toHost = .ok ()) ∧
        next = archive.interruptAll rows := by
  induction rows generalizing archive with
  | nil => simp [FormArchive.interruptAll]
  | cons raw rest ih =>
    rw [List.forall_mem_cons] at steady
    simp only [answers_forM_cons, answers_interruptRow steady.1, ih steady.2, List.forall_mem_cons]
    constructor
    · intro ran
      obtain ⟨_, ⟨shallow, valid, rfl⟩, others, rfl⟩ := ran
      exact ⟨⟨⟨shallow, valid⟩, others⟩, rfl⟩
    · intro ran
      obtain ⟨⟨⟨shallow, valid⟩, others⟩, rfl⟩ := ran
      exact ⟨_, ⟨shallow, valid, rfl⟩, others, rfl⟩

theorem answers_interruptForms {count : ℕ} (steady : archive.Steady host.toHost) :
    Answers (interruptForms host) archive count next ↔
      (∀ raw ∈ archive.pending, raw.presentation.depth ≤ maxNesting ∧
        raw.presentation.interrupt.validate host.toHost = .ok ()) ∧
        count = archive.pending.length ∧ next = archive.interruptAll archive.pending := by
  have rows : ∀ raw ∈ archive.pending, raw.presentation.reread host.toHost = raw.presentation :=
    fun raw member => steady (FormArchive.mem_pending.mp member).1
  simp only [interruptForms, answers_bind, answers_get, answers_pure]
  constructor
  · intro ran
    obtain ⟨_, _, ⟨rfl, rfl⟩, _, _, interrupted, rfl, rfl⟩ := ran
    obtain ⟨valid, same⟩ := (answers_interruptRows rows).mp interrupted
    exact ⟨valid, rfl, same⟩
  · intro ran
    obtain ⟨valid, rfl, rfl⟩ := ran
    exact ⟨_, _, ⟨rfl, rfl⟩, ⟨⟩, _, (answers_interruptRows rows).mpr ⟨valid, rfl⟩, rfl, rfl⟩

end

namespace FormArchive

variable {host : Host} {archive : FormArchive} {identity : FormKey} {row : StoredActorForm}
variable {rows before after : List FormRow} {raw : FormRow}

theorem nodup_pending (archive : FormArchive) : (archive.pending.map FormRow.identity).Nodup :=
  archive.forms.distinct.sublist (List.filter_sublist.map _)

@[simp] theorem lastEvent_interruptAll :
    (archive.interruptAll rows).lastEvent = archive.lastEvent + rows.length := by
  induction rows generalizing archive with
  | nil => rfl
  | cons raw rest ih =>
    change ((archive.revise _ _).interruptAll rest).lastEvent = _
    rw [ih, lastEvent_revise, List.length_cons]
    omega

theorem row?_interruptAll_of_notMem (other : identity ∉ rows.map FormRow.identity) :
    (archive.interruptAll rows).row? identity = archive.row? identity := by
  induction rows generalizing archive with
  | nil => rfl
  | cons raw rest ih =>
    rw [List.map_cons, List.mem_cons, not_or] at other
    change ((archive.revise _ _).interruptAll rest).row? identity = _
    rw [ih other.2, row?_revise, if_neg other.1]

/-- The rows are saved in order, so each takes the event after the ones before it. -/
theorem row?_interruptAll (distinct : ((before ++ raw :: after).map FormRow.identity).Nodup)
    (found : archive.row? raw.identity = some row) :
    (archive.interruptAll (before ++ raw :: after)).row? raw.identity =
      some { raw.presentation.interrupt with
        revisionSequence := archive.lastEvent + before.length + 1 } := by
  rw [List.map_append, List.map_cons, List.nodup_append, List.nodup_cons] at distinct
  obtain ⟨_, ⟨later, _⟩, apart⟩ := distinct
  have earlier : raw.identity ∉ before.map FormRow.identity := fun member =>
    apart _ member _ List.mem_cons_self rfl
  have split_ : archive.interruptAll (before ++ raw :: after) =
      ((archive.interruptAll before).revise raw.identity raw.presentation.interrupt).interruptAll
        after := by
    simp only [interruptAll, List.foldl_append, List.foldl_cons]
  rw [split_, row?_interruptAll_of_notMem later, row?_revise, if_pos rfl,
    row?_interruptAll_of_notMem earlier, found, lastEvent_interruptAll]
  rfl

/-- The interruption of distinct pending rows keeps the invariant and loses nothing. -/
theorem Sound.interruptAll (sound : archive.Sound host)
    (stored : ∀ raw ∈ rows, archive.row? raw.identity = some raw.presentation ∧
      raw.presentation.state.pending = true)
    (distinct : (rows.map FormRow.identity).Nodup)
    (admissible : ∀ raw ∈ rows, raw.presentation.interrupt.Admissible host) :
    (archive.interruptAll rows).Sound host ∧ archive.Succeeds (archive.interruptAll rows) := by
  induction rows generalizing archive with
  | nil => exact ⟨sound, .refl archive⟩
  | cons raw rest ih =>
    rw [List.map_cons, List.nodup_cons] at distinct
    obtain ⟨found, pending⟩ := stored raw List.mem_cons_self
    have first := sound.revise found (admissible raw List.mem_cons_self) rfl rfl
    have remaining : ∀ other ∈ rest,
        (archive.revise raw.identity raw.presentation.interrupt).row? other.identity =
          some other.presentation ∧ other.presentation.state.pending = true := by
      intro other member
      have apart : other.identity ≠ raw.identity := fun same =>
        distinct.1 (same ▸ List.mem_map_of_mem member)
      rw [row?_revise, if_neg apart]
      exact stored other (List.mem_cons_of_mem raw member)
    have last := ih first remaining distinct.2 fun other member =>
      admissible other (List.mem_cons_of_mem raw member)
    have step : archive.Succeeds (archive.revise raw.identity raw.presentation.interrupt) :=
      .revise sound found pending rfl rfl
    exact ⟨last.1, step.trans last.2⟩

end FormArchive

end ExomonadHarness.Store
