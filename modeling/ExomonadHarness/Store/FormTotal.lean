import ExomonadHarness.Store.FormRuns

/-! When the interruption of a restart succeeds. -/

namespace ExomonadHarness.Store

open ExomonadHarness.Json ExomonadHarness.Presentation Checked Transaction Attempt

/-- A pending form passes the same checks as interrupted. -/
theorem StoredActorForm.Admissible.interrupt {host : Host} {row : StoredActorForm}
    (admissible : row.Admissible host) (pending : row.state.pending = true) :
    row.interrupt.Admissible host := by
  have shaped := admissible.shape
  refine { admissible with shape := ?_ }
  cases state : row.state with
  | «open» => simpa [StoredActorForm.shape, StoredActorForm.interrupt, state] using shaped
  | submitted =>
    simp only [StoredActorForm.shape, state, Bool.and_eq_true] at shaped
    simp [StoredActorForm.shape, StoredActorForm.interrupt, shaped]
  | _ =>
    rw [state] at pending
    cases pending

/-- A restart succeeds with every form readable before and after it. -/
structure RestartTotal (host : MediaHost) (storeId : String) (store : FormStore) : Prop where
  decodes : ∀ {identity row}, store.archive.row? identity = some row →
    row.decode host.toHost = .ok row
  interrupts : ∃ count next, FormCall.run host storeId .restart store =
      (.ok (.interrupted count), next) ∧
    (∀ {identity row}, next.archive.row? identity = some row → row.state.pending = false) ∧
    (∀ {identity row}, store.archive.row? identity = some row → row.state.pending = false →
      next.archive.row? identity = some row) ∧
    ∀ {identity row}, next.archive.row? identity = some row → row.decode host.toHost = .ok row

/-- Every stored form can be read, and each pending one leaves room for the longer
state and for the revision that a restart would give it. -/
structure FormArchive.Roomy (host : Host) (archive : FormArchive) : Prop where
  shallow : ∀ {identity row}, archive.row? identity = some row → row.depth ≤ maxNesting
  fits : ∀ {identity row}, archive.row? identity = some row → row.length host ≤ maxFormBytes
  room : ∀ {before raw after}, archive.pending = before ++ raw :: after →
    StoredActorForm.length host { raw.presentation.interrupt with
      revisionSequence := archive.lastEvent + before.length + 1 } ≤ maxFormBytes

section

variable {host : MediaHost} {storeId : String} {store : FormStore} {archive : FormArchive}

theorem reaches_restart (media : Media) :
    Reaches (FormCall.prelude host storeId .restart) media
      (FormAnswer.interrupted <$> interruptForms host) media := by
  simp only [FormCall.prelude, interruptActorFormsForRestart, reaches_map, reaches_pure]
  exact ⟨_, ⟨rfl, trivial⟩, rfl⟩

variable {identity : FormKey}

/-- Where a form stands after the pending ones were interrupted. -/
theorem FormArchive.row?_restart {row : StoredActorForm}
    (stored : (archive.interruptAll archive.pending).row? identity = some row) :
    (archive.row? identity = some row ∧ row.state.pending = false) ∨
      ∃ before raw after, archive.pending = before ++ raw :: after ∧ raw.identity = identity ∧
        archive.row? identity = some raw.presentation ∧ raw.presentation.state.pending = true ∧
        row = { raw.presentation.interrupt with
          revisionSequence := archive.lastEvent + before.length + 1 } := by
  by_cases selected : identity ∈ archive.pending.map FormRow.identity
  · obtain ⟨raw, member, rfl⟩ := List.mem_map.mp selected
    obtain ⟨before, after, parts⟩ := List.append_of_mem member
    obtain ⟨found, pending⟩ := mem_pending.mp member
    have distinct := archive.nodup_pending
    rw [parts] at distinct stored
    rw [row?_interruptAll distinct found] at stored
    exact .inr ⟨before, raw, after, parts, rfl, found, pending, (Option.some.inj stored).symm⟩
  · rw [row?_interruptAll_of_notMem selected] at stored
    refine .inl ⟨stored, Bool.eq_false_iff.mpr fun pending => selected ?_⟩
    exact List.mem_map_of_mem (mem_pending.mpr (show archive.row? (FormRow.mk identity row).identity =
      some (FormRow.mk identity row).presentation ∧ _ from ⟨stored, pending⟩))

theorem FormArchive.row?_restart_of_settled {row : StoredActorForm}
    (found : archive.row? identity = some row) (settled : row.state.pending = false) :
    (archive.interruptAll archive.pending).row? identity = some row := by
  rw [row?_interruptAll_of_notMem, found]
  intro selected
  obtain ⟨raw, member, rfl⟩ := List.mem_map.mp selected
  obtain ⟨stored, pending⟩ := mem_pending.mp member
  cases found.symm.trans stored
  rw [settled] at pending
  cases pending

/-- With room for every pending form the restart interrupts them all. -/
theorem run_restart (sound : store.archive.Sound host.toHost)
    (steady : store.archive.Steady host.toHost)
    (roomy : store.archive.Roomy host.toHost) :
    FormCall.run host storeId .restart store =
      (.ok (.interrupted store.archive.pending.length),
        ⟨store.archive.interruptAll store.archive.pending, store.media⟩) := by
  refine FormCall.run_of_answers (reaches_restart store.media) ?_
  rw [answers_map]
  refine ⟨_, (answers_interruptForms steady).mpr ⟨?_, rfl, rfl⟩, rfl⟩
  intro raw member
  obtain ⟨found, pending⟩ := FormArchive.mem_pending.mp member
  obtain ⟨before, after, parts⟩ := List.append_of_mem member
  refine ⟨roomy.shallow found, StoredActorForm.validate_eq_ok.mpr
    ⟨(sound.admissible found).interrupt pending, ?_⟩⟩
  have recent : raw.presentation.interrupt.revisionSequence ≤
      store.archive.lastEvent + before.length + 1 := by
    have current := sound.revision found
    change raw.presentation.revisionSequence ≤ _
    omega
  exact (StoredActorForm.length_le_revised recent).trans (roomy.room parts)

theorem FormArchive.Roomy.decode {row : StoredActorForm} (roomy : archive.Roomy host.toHost)
    (sound : archive.Sound host.toHost) (steady : archive.Steady host.toHost)
    (found : archive.row? identity = some row) :
    row.decode host.toHost = .ok row :=
  StoredActorForm.decode_eq_ok.mpr
    ⟨(steady found).symm, roomy.shallow found, sound.admissible found, roomy.fits found⟩

/-- With room for every pending form, each form is read as it was written after the restart. -/
theorem FormArchive.Roomy.decode_restart {row : StoredActorForm} (roomy : archive.Roomy host.toHost)
    (sound : archive.Sound host.toHost) (steady : archive.Steady host.toHost)
    (stored : (archive.interruptAll archive.pending).row? identity = some row) :
    row.decode host.toHost = .ok row := by
  rcases FormArchive.row?_restart stored with
    ⟨found, _⟩ | ⟨before, raw, after, parts, _, found, pending, same⟩
  · exact roomy.decode sound steady found
  · have admissible := (sound.admissible found).interrupt pending
    have started := (sound.admissible found).revision
    have recent := sound.revision found
    have number : raw.presentation.interrupt.sequence ≤ archive.lastEvent + before.length + 1 := by
      change raw.presentation.sequence ≤ _
      omega
    have shallow := roomy.shallow found
    have kept : row.reread host.toHost = row :=
      StoredActorForm.reread_eq_of (steady found) (by rw [same]; rfl) (by rw [same]; rfl)
    rw [same] at kept ⊢
    exact StoredActorForm.decode_eq_ok.mpr
      ⟨kept.symm, shallow, admissible.revised number, roomy.room parts⟩

/-- A restart that is accepted has interrupted all pending forms. -/
theorem archive_restart (steady : store.archive.Steady host.toHost) {count : ℕ} {next : FormStore}
    (accepted : FormCall.run host storeId .restart store = (.ok (.interrupted count), next)) :
    next.archive = store.archive.interruptAll store.archive.pending := by
  rcases FormCall.run_cases host storeId store .restart with
    ⟨⟨failure, refused⟩, _⟩ | ⟨tx, _, prepared, answered, _⟩
  · rw [accepted] at refused
    cases refused
  · cases FormCall.transacts prepared with
    | operates names _ => cases names
    | restarts =>
      rw [answers_map, accepted] at answered
      obtain ⟨_, answered, _⟩ := answered
      exact ((answers_interruptForms steady).mp answered).2.2

end

/-- At every store reached with doubles that are read back as themselves a restart is total
exactly when every stored form can be read and has room for its interruption. -/
theorem form_restart_total {host : MediaHost} {storeId : String} {store : FormStore}
    {events : List FormEvent}
    (run : Transition.Run (FormStep host storeId) .empty events store) :
    RestartTotal host storeId store ↔ store.archive.Roomy host.toHost := by
  obtain ⟨sound, steady⟩ := FormArchive.Sound.of_run run
  constructor
  · intro total
    obtain ⟨count, next, accepted, _, _, readable⟩ := total.interrupts
    have reached := archive_restart steady accepted
    refine ⟨fun found => ?_, fun found => ?_, ?_⟩
    · exact (StoredActorForm.decode_eq_ok.mp (total.decodes found)).2.1
    · exact (StoredActorForm.decode_eq_ok.mp (total.decodes found)).2.2.2
    · intro before raw after parts
      have member : raw ∈ store.archive.pending := by
        rw [parts]
        exact List.mem_append_right _ List.mem_cons_self
      have distinct := store.archive.nodup_pending
      rw [parts] at distinct
      have written := FormArchive.row?_interruptAll distinct (FormArchive.mem_pending.mp member).1
      rw [← parts, ← reached] at written
      exact (StoredActorForm.decode_eq_ok.mp (readable written)).2.2.2
  · intro roomy
    refine ⟨roomy.decode sound steady, _, _, run_restart sound steady roomy, ?_, ?_, ?_⟩
    · intro identity row stored
      rcases FormArchive.row?_restart stored with ⟨_, settled⟩ | ⟨_, _, _, _, _, _, _, same⟩
      · exact settled
      · rw [same]
        rfl
    · intro identity row found settled
      exact FormArchive.row?_restart_of_settled found settled
    · intro identity row stored
      exact roomy.decode_restart sound steady stored

theorem interruptedText_length (host : Host) (label bytes revision : ℕ) :
    (submittedText label bytes revision).interrupt.length host =
      342 + label + bytes + Length.nat revision := by
  have state : Length.text "interrupted" = 13 := by decide
  have attempt : Length.text "attempt" = 9 := by decide
  have first : Length.nat 1 = 1 := by decide
  rw [textRow_length host label rfl rfl rfl]
  simp only [StoredActorForm.interrupt, submittedText, ActorFormState.name, Option.map_some,
    Length.option, Option.getD_some, textDraft_length, state, attempt, first]
  omega

/-- The state of a submitted form gets two bytes longer, so a form that was accepted
at the limit makes the restart fail. -/
theorem full_submission_fails_restart :
    ∃ events store, Transition.Run (FormStep bareHost "store") .empty events store ∧
      store.archive.row? textKey = some (submittedText 127000 126611 2) ∧
      ∃ failure, (FormCall.run bareHost "store" .restart store).1 = .error failure := by
  have fits : TextFits 127000 126611 := ⟨by decide, by decide, by decide⟩
  obtain ⟨events, store, run, found, _⟩ := run_submittedText bareHost "store" fits 0
  refine ⟨events, store, run, found, ?_⟩
  rcases FormCall.run_cases bareHost "store" store .restart with
    ⟨refused, _⟩ | ⟨tx, _, reached, answered, _⟩
  · exact refused
  · cases FormCall.transacts reached with
    | operates names _ => cases names
    | restarts =>
      rw [answers_map] at answered
      obtain ⟨_, answered, _⟩ := answered
      have member : FormRow.mk textKey (submittedText 127000 126611 2) ∈ store.archive.pending :=
        FormArchive.mem_pending.mpr ⟨found, rfl⟩
      have steady := (FormArchive.Sound.of_run run).2
      have valid := (((answers_interruptForms steady).mp answered).1 _ member).2
      have long := (StoredActorForm.validate_eq_ok.mp valid).2
      have grown := interruptedText_length bareHost.toHost 127000 126611 2
      have digit : Length.nat 2 = 1 := by decide
      rw [grown, digit] at long
      exact absurd long (by decide)

theorem form_restart_total_text :
    ∃ events, Transition.Run (FormStep bareHost "store") .empty events
        ⟨openedArchive 1 0, .empty⟩ ∧
      RestartTotal bareHost "store" ⟨openedArchive 1 0, .empty⟩ := by
  have fits : TextFits 1 1 := ⟨by decide, by decide, by decide⟩
  have run : Transition.Run (FormStep bareHost "store") .empty _ _ := run_opened "store" fits
  have single : ∀ {identity row}, (openedArchive 1 0).row? identity = some row →
      row = .opened (textOpening 1) 1 := by
    intro identity row found
    have member := Table.mem_of_find? (FormArchive.row?_eq_some.mp found)
    exact congrArg FormRow.presentation (List.mem_singleton.mp member)
  refine ⟨_, run, (form_restart_total run).mpr ⟨fun found => ?_, fun found => ?_, ?_⟩⟩
  · rw [single found]
    decide
  · rw [single found]
    decide
  · intro before raw after parts
    have member : raw ∈ (openedArchive 1 0).pending := by
      rw [parts]
      exact List.mem_append_right _ List.mem_cons_self
    have few := congrArg List.length parts
    rw [single (FormArchive.mem_pending.mp member).1]
    simp only [List.length_append, List.length_cons] at few
    have alone : (openedArchive 1 0).pending.length = 1 := by decide
    have none_before : before.length = 0 := by omega
    rw [none_before]
    decide

end ExomonadHarness.Store
