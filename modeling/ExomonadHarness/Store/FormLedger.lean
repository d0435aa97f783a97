import ExomonadHarness.Store.FormCalls

/-! The invariant of the form tables and how the tables may follow one another. -/

namespace ExomonadHarness.Store

open ExomonadHarness.Json ExomonadHarness.Presentation Checked Transaction

namespace FormArchive

/-- Every stored form passes each check but the one of its length, stands under
its own key and has a revision from the journal; every operation is of a mount. -/
structure Sound (host : Host) (archive : FormArchive) : Prop where
  admissible : ∀ {identity row}, archive.row? identity = some row → row.Admissible host
  own : ∀ {identity row}, archive.row? identity = some row →
    (row.opening.origin, row.opening.mountId) = identity
  revision : ∀ {identity row}, archive.row? identity = some row →
    row.revisionSequence ≤ archive.lastEvent
  mounted : ∀ {identity operation old}, archive.operations.find? (identity, operation) = some old →
    ∃ row, archive.row? identity = some row
  named : ∀ {identity operation old}, archive.operations.find? (identity, operation) = some old →
    validOperation operation = true

end FormArchive

/-- A later presentation of the same mount: unchanged, or the revision of a form
that was pending. -/
structure StoredActorForm.Follows (row later : StoredActorForm) : Prop where
  opening : later.opening = row.opening
  sequence : later.sequence = row.sequence
  moved : later = row ∨ row.state.pending = true ∧ row.revisionSequence < later.revisionSequence

namespace StoredActorForm.Follows

variable {row middle later : StoredActorForm}

theorem refl (row : StoredActorForm) : row.Follows row :=
  ⟨rfl, rfl, .inl rfl⟩

theorem trans (first : row.Follows middle) (second : middle.Follows later) :
    row.Follows later where
  opening := second.opening.trans first.opening
  sequence := second.sequence.trans first.sequence
  moved := by
    rcases second.moved with same | ⟨_, further⟩
    · rw [same]
      exact first.moved
    · refine .inr ?_
      rcases first.moved with same | ⟨pending, further'⟩
      · rw [← same]
        exact ⟨by assumption, further⟩
      · exact ⟨pending, further'.trans further⟩

end StoredActorForm.Follows

/-- The tables after some calls: no mount and no operation is lost. -/
structure FormArchive.Succeeds (archive next : FormArchive) : Prop where
  forms : ∀ {identity row}, archive.row? identity = some row →
    ∃ later, next.row? identity = some later ∧ row.Follows later
  operations : ∀ {key old}, archive.operations.find? key = some old →
    next.operations.find? key = some old

namespace FormArchive

variable {host : Host} {archive middle next : FormArchive} {identity other : FormKey}
variable {row later written : StoredActorForm}

theorem Succeeds.refl (archive : FormArchive) : archive.Succeeds archive where
  forms found := ⟨_, found, .refl _⟩
  operations found := found

theorem Succeeds.trans (first : archive.Succeeds middle) (second : middle.Succeeds next) :
    archive.Succeeds next where
  forms found := by
    obtain ⟨between, kept, follows⟩ := first.forms found
    obtain ⟨later, kept, further⟩ := second.forms kept
    exact ⟨later, kept, follows.trans further⟩
  operations found := second.operations (first.operations found)

theorem Succeeds.follows (succeeds : archive.Succeeds next) (found : archive.row? identity = some row)
    (kept : next.row? identity = some later) : row.Follows later := by
  obtain ⟨same, stored, follows⟩ := succeeds.forms found
  cases kept.symm.trans stored
  exact follows

/-! An event of another part of the store. -/

def elapse (archive : FormArchive) : FormArchive :=
  { archive with lastEvent := archive.lastEvent + 1 }

@[simp] theorem row?_elapse : archive.elapse.row? identity = archive.row? identity := rfl

theorem Sound.elapse (sound : archive.Sound host) : archive.elapse.Sound host where
  admissible found := sound.admissible (row?_elapse ▸ found)
  own found := sound.own (row?_elapse ▸ found)
  revision found := (sound.revision (row?_elapse ▸ found)).trans (Nat.le_succ _)
  mounted found := sound.mounted found
  named found := sound.named found

theorem Succeeds.elapse (archive : FormArchive) : archive.Succeeds archive.elapse where
  forms found := ⟨_, found, .refl _⟩
  operations found := found

/-! A mount that was not there before. -/

variable {forms : Table FormRow.identity}

theorem row?_insert (inserted : archive.forms.insert? ⟨identity, written⟩ = some forms) {last : ℕ} :
    FormArchive.row? { archive with forms, lastEvent := last } other =
      if other = identity then some written else archive.row? other := by
  simp only [row?, Table.find?_insert inserted]
  by_cases same : identity = other
  · rw [if_pos same, if_pos same.symm]
    rfl
  · rw [if_neg same, if_neg (Ne.symm same)]

theorem ne_of_insert (inserted : archive.forms.insert? ⟨identity, written⟩ = some forms)
    (found : archive.row? other = some row) : other ≠ identity := by
  intro same
  have free : archive.forms.find? identity = none := (Table.insert?_eq_some.mp inserted).1
  rw [same, row?, free] at found
  cases found

theorem Sound.insert (sound : archive.Sound host)
    (inserted : archive.forms.insert? ⟨identity, written⟩ = some forms)
    (admissible : written.Admissible host)
    (own : (written.opening.origin, written.opening.mountId) = identity)
    (current : written.revisionSequence ≤ archive.lastEvent + 1) :
    FormArchive.Sound host { archive with forms, lastEvent := archive.lastEvent + 1 } where
  admissible {other row} found := by
    rw [row?_insert inserted] at found
    split at found
    · cases found
      exact admissible
    · exact sound.admissible found
  own {other row} found := by
    rw [row?_insert inserted] at found
    split at found
    case isTrue same =>
      cases found
      exact own.trans same.symm
    case isFalse => exact sound.own found
  revision {other row} found := by
    rw [row?_insert inserted] at found
    split at found
    · cases found
      exact current
    · exact (sound.revision found).trans (Nat.le_succ _)
  mounted {other operation old} recorded := by
    obtain ⟨row, found⟩ := sound.mounted recorded
    refine ⟨row, ?_⟩
    rw [row?_insert inserted, if_neg (ne_of_insert inserted found)]
    exact found
  named recorded := sound.named recorded

theorem Succeeds.insert (inserted : archive.forms.insert? ⟨identity, written⟩ = some forms)
    {last : ℕ} :
    archive.Succeeds { archive with forms, lastEvent := last } where
  forms {other row} found := by
    refine ⟨row, ?_, .refl row⟩
    rw [row?_insert inserted, if_neg (ne_of_insert inserted found)]
    exact found
  operations recorded := recorded

/-! A recorded operation. -/

theorem Sound.record (sound : archive.Sound host) {operation : String}
    {payload : Option FormDraft} {operations : Table FormOperation.key}
    (inserted : archive.operations.insert? ⟨identity, operation, payload⟩ = some operations)
    (valid : validOperation operation = true) (mounted : archive.row? identity = some row) :
    FormArchive.Sound host { archive with operations } where
  admissible found := sound.admissible found
  own found := sound.own found
  revision found := sound.revision found
  mounted {other named old} recorded := by
    rw [Table.find?_insert inserted] at recorded
    split at recorded
    case isTrue same =>
      cases same
      exact ⟨row, mounted⟩
    case isFalse => exact sound.mounted recorded
  named {other named old} recorded := by
    rw [Table.find?_insert inserted] at recorded
    split at recorded
    case isTrue same =>
      cases same
      exact valid
    case isFalse => exact sound.named recorded

theorem Succeeds.record {operation : String} {payload : Option FormDraft}
    {operations : Table FormOperation.key}
    (inserted : archive.operations.insert? ⟨identity, operation, payload⟩ = some operations) :
    archive.Succeeds { archive with operations } where
  forms found := ⟨_, found, .refl _⟩
  operations {key old} recorded := by
    rw [Table.find?_insert inserted]
    split
    case isTrue same =>
      have free := (Table.insert?_eq_some.mp inserted).1
      rw [same, recorded] at free
      cases free
    case isFalse => exact recorded

/-! A revision of a pending form. -/

theorem Sound.revise (sound : archive.Sound host) (found : archive.row? identity = some row)
    (admissible : written.Admissible host) (opening : written.opening = row.opening)
    (sequence : written.sequence = row.sequence) :
    (archive.revise identity written).Sound host where
  admissible {other stored} kept := by
    rw [row?_revise] at kept
    split at kept
    case isTrue same =>
      subst same
      rw [found] at kept
      cases kept
      have started := (sound.admissible found).revision
      have recent := sound.revision found
      exact admissible.revised (by omega)
    case isFalse => exact sound.admissible kept
  own {other stored} kept := by
    rw [row?_revise] at kept
    split at kept
    case isTrue same =>
      subst same
      rw [found] at kept
      cases kept
      simp only [opening]
      exact sound.own found
    case isFalse => exact sound.own kept
  revision {other stored} kept := by
    rw [row?_revise] at kept
    split at kept
    case isTrue same =>
      subst same
      rw [found] at kept
      cases kept
      exact le_rfl
    case isFalse => exact (sound.revision kept).trans (Nat.le_succ _)
  mounted {other operation old} recorded := by
    obtain ⟨stored, kept⟩ := sound.mounted recorded
    rw [row?_revise]
    split
    · rw [kept]
      exact ⟨_, rfl⟩
    · exact ⟨stored, kept⟩
  named recorded := sound.named recorded

theorem Succeeds.revise (sound : archive.Sound host) (found : archive.row? identity = some row)
    (pending : row.state.pending = true) (opening : written.opening = row.opening)
    (sequence : written.sequence = row.sequence) :
    archive.Succeeds (archive.revise identity written) where
  forms {other stored} kept := by
    rw [row?_revise]
    split
    case isTrue same =>
      subst same
      rw [found] at kept ⊢
      cases kept
      refine ⟨_, rfl, opening, sequence, .inr ⟨pending, ?_⟩⟩
      exact Nat.lt_succ_of_le (sound.revision found)
    case isFalse => exact ⟨stored, kept, .refl stored⟩
  operations recorded := recorded

end FormArchive

end ExomonadHarness.Store
