import ExomonadHarness.Browser.LedgerSpec

/-! The ledger loses nothing: the records that its operations leave are written and read
back as they are, and what was quarantined stays so. -/

namespace ExomonadHarness.Browser

open Store Checked

/-! The keys of the records. -/

theorem operationKey_issue (record : BrowserCommandRecord) (message : String) :
    operationKey (issue record message) = operationKey record := by
  obtain ⟨issues, same⟩ := issue_eq record message
  rw [same]
  rfl

theorem operationKey_mergeEvidence (record : BrowserCommandRecord) (authority : Authority)
    (seen : Evidence) : operationKey (mergeEvidence record authority seen) = operationKey record := by
  rcases mergeEvidence_cases record authority seen with ⟨⟨issues, same⟩, -⟩ | ⟨same, -⟩ <;>
    rw [same] <;> rfl

theorem operationKey_applyStatus (record : BrowserCommandRecord) (status : EmbeddedCommandRecord) :
    operationKey (applyStatus record status) = operationKey record := by
  rw [← operationKey_mergeEvidence record .status status.evidence]
  unfold applyStatus observeInput
  split
  · rfl
  · split
    · rfl
    · unfold keepInclusion
      split
      · split
        · exact operationKey_issue _ _
        · rfl
      · rfl
      · rfl

/-- Records the reader takes back, no two of one operation. -/
structure Retained (records : List BrowserCommandRecord) : Prop where
  sound : ∀ record ∈ records, Sound record
  distinct : (records.map operationKey).Nodup

variable {records next : List BrowserCommandRecord}

theorem Retained.sublist (retained : Retained records) (part : next.Sublist records) :
    Retained next :=
  ⟨fun record member => retained.sound record (part.subset member),
    retained.distinct.sublist (part.map operationKey)⟩

theorem Retained.of_forall₂ (retained : Retained records)
    (each : List.Forall₂ (fun record later => operationKey later = operationKey record ∧
      (Sound record → Sound later)) records next) : Retained next := by
  refine ⟨?_, ?_⟩
  · intro later member
    obtain ⟨record, inside, -, keeps⟩ := exists_left_of_forall₂ each later member
    exact keeps (retained.sound record inside)
  · have keys : next.map operationKey = records.map operationKey := by
      clear retained
      induction each with
      | nil => rfl
      | cons first rest ih => rw [List.map_cons, List.map_cons, first.1, ih]
    rw [keys]
    exact retained.distinct

theorem Retained.map (retained : Retained records)
    {change : BrowserCommandRecord → BrowserCommandRecord}
    (keys : ∀ record, operationKey (change record) = operationKey record)
    (sound : ∀ record ∈ records, Sound record → Sound (change record)) :
    Retained (records.map change) := by
  apply retained.of_forall₂
  rw [List.forall₂_map_right_iff, List.forall₂_same]
  exact fun record member => ⟨keys record, sound record member⟩

theorem Retained.append (first : Retained records) (second : Retained next)
    (apart : ∀ record ∈ records, ∀ other ∈ next, operationKey record ≠ operationKey other) :
    Retained (records ++ next) := by
  refine ⟨?_, ?_⟩
  · intro record member
    rcases List.mem_append.mp member with inside | inside
    · exact first.sound record inside
    · exact second.sound record inside
  · rw [List.map_append, List.nodup_append]
    refine ⟨first.distinct, second.distinct, ?_⟩
    intro key inside other given same
    obtain ⟨record, member, rfl⟩ := List.mem_map.mp inside
    obtain ⟨found, listed, rfl⟩ := List.mem_map.mp given
    exact apart record member found listed same

/-! The operations. -/

theorem Retained.compact (retained : Retained records) : Retained (Browser.compact records) :=
  retained.sublist List.filter_sublist

theorem Retained.joined (prior : Retained next) (retained : Retained records) :
    Retained (Browser.joined next records) := by
  refine (prior.sublist List.filter_sublist).append retained ?_
  intro record member other inside same
  have outside := of_decide_eq_true (List.mem_filter.mp member).2
  exact outside (same ▸ List.mem_map_of_mem inside)

theorem Retained.retainCommand {hostRun : String} {submission : HostCommandSubmission}
    (retained : Retained records)
    (done : Browser.retainCommand records hostRun submission = .ok next) : Retained next := by
  unfold Browser.retainCommand at done
  split at done
  case isTrue => cases done
  case isFalse valid =>
    simp only [Bool.or_eq_true, not_or, Bool.not_eq_true', Bool.not_eq_false, decide_eq_true_eq,
      ne_eq, not_not] at valid
    split at done
    case h_1 =>
      split at done
      · cases done
        exact retained
      · cases done
    case h_2 missing =>
      cases done
      refine (retained.append ⟨?_, by simp⟩ ?_).compact
      · intro record member
        rw [List.mem_singleton] at member
        subst member
        refine ⟨?_, rfl, fun observed => ?_, fun authoritative => ?_⟩
        · simp [addressed, valid]
        · cases observed
        · cases authoritative
      · intro record inside other member same
        rw [List.mem_singleton] at member
        subst member
        have absent := List.find?_eq_none.mp missing record inside
        obtain ⟨run, id⟩ := Prod.mk.inj same
        exact absent (by simp [sameOperation, run, id])

namespace LedgerOperation

/-- The evidence the operation brings is taken over only where it agrees with what the
record already holds. -/
def Agrees (records : List BrowserCommandRecord) : LedgerOperation → Prop
  | status hostRun seen => ∀ record ∈ records, sameOperation record hostRun seen.operationId = true →
      sameHostCommand record.submission.command seen.command = true → Owns record seen ∧
        (mergeRefused record seen.evidence = none → Coherent record seen.evidence)
  | receipt seen => ∀ record ∈ records, receiptMatches record.submission seen = true →
      mergeRefused record (receiptEvidence seen) = none → Coherent record (receiptEvidence seen)
  | retain .. | observe .. => True

theorem retained_run {operation : LedgerOperation} (retained : Retained records)
    (formed : operation.WellFormed) (agrees : operation.Agrees records)
    (done : operation.run records = .ok next) : Retained next := by
  cases operation with
  | retain hostRun submission => exact retained.retainCommand done
  | status hostRun seen =>
    have each := (List.forall₂_and_left _ _).mpr ⟨fun _ member => member, mapM_eq_ok.mp done⟩
    apply retained.of_forall₂
    refine each.imp ?_
    intro record later given
    obtain ⟨member, changed⟩ := given
    split at changed
    case isTrue =>
      cases changed
      exact ⟨rfl, id⟩
    case isFalse same =>
      split at changed
      case isTrue => cases changed
      case isFalse command =>
        cases changed
        obtain ⟨owned, coherent⟩ :=
          agrees record member (by simpa using same) (by simpa using command)
        exact ⟨operationKey_applyStatus record seen,
          fun sound => sound.applyStatus formed owned coherent⟩
  | receipt seen =>
    cases done
    unfold applyCommandReceipt
    split
    · exact retained
    · rename_i known
      simp only [Bool.or_eq_true, not_or, Option.isNone_iff_eq_none, ← Option.isSome_iff_ne_none]
        at known
      apply retained.map
      · intro record
        split
        · exact operationKey_mergeEvidence record _ _
        · rfl
      · intro record member sound
        split
        · rename_i matching
          exact sound.mergeEvidence formed (.inr ⟨rfl, seen, rfl, known.1⟩)
            (agrees record member matching)
        · exact sound
  | observe hostRun operationId seen =>
    cases done
    apply retained.map
    · intro record
      split <;> rfl
    · intro record member sound
      split
      · exact sound.observed _
      · exact sound

theorem retained_perform {operation : LedgerOperation} (retained : Retained records)
    (formed : operation.WellFormed) (agrees : operation.Agrees records) :
    Retained (operation.perform records) := by
  unfold perform
  split
  · rename_i next done
    exact retained_run retained formed agrees done
  · exact retained

/-- Each operation of a sequence agrees with the records it finds. -/
def AllAgree : List LedgerOperation → List BrowserCommandRecord → Prop
  | [], _ => True
  | operation :: rest, records => operation.Agrees records ∧ AllAgree rest (operation.perform records)

theorem retained_foldl {operations : List LedgerOperation} (retained : Retained records)
    (formed : ∀ operation ∈ operations, operation.WellFormed)
    (agree : AllAgree operations records) : Retained (operations.foldl perform records) := by
  induction operations generalizing records with
  | nil => exact retained
  | cons operation rest ih =>
    have first := retained_perform retained (formed operation List.mem_cons_self) agree.1
    exact ih first (fun later member => formed later (List.mem_cons_of_mem operation member)) agree.2

end LedgerOperation

/-! Reading. -/

section

variable {Text : Type} {codec : LedgerCodec Text} {storage : SessionStorage Text}

theorem Retained.readRow {source : StorageSource} {state : Reading Text} {row : Row Text}
    (retained : Retained state.1)
    (unobserved : source = .v1 → ∀ stated record, row = .entry stated record →
      record.inputObservation = none) :
    Retained (Browser.readRow codec source state row).1 := by
  unfold Browser.readRow
  split
  · exact retained
  · rename_i record decoded
    have sound : Sound record := by
      cases row with
      | other raw => cases decoded
      | entry stated stored =>
        refine Sound.of_decodeRecord decoded fun legacy => ?_
        exact unobserved (of_decide_eq_true legacy) stated stored rfl
    split
    · rename_i missing
      refine retained.append ⟨by simpa using sound, by simp⟩ ?_
      intro other inside found member same
      rw [List.mem_singleton] at member
      subst member
      simpa [same] using List.find?_eq_none.mp missing other inside
    · split
      · exact retained
      · apply retained.map
        · intro item
          split
          · exact operationKey_issue item _
          · rfl
        · intro item _ sound
          split
          · exact sound.issue _
          · exact sound

theorem Retained.readRows {source : StorageSource} {state : Reading Text} {rows : List (Row Text)}
    (retained : Retained state.1)
    (unobserved : source = .v1 → ∀ stated record, .entry stated record ∈ rows →
      record.inputObservation = none) :
    Retained (rows.foldl (Browser.readRow codec source) state).1 := by
  induction rows generalizing state with
  | nil => exact retained
  | cons row rest ih =>
    apply ih
    · apply retained.readRow
      intro legacy stated record same
      exact unobserved legacy stated record (same ▸ List.mem_cons_self)
    · intro legacy stated record member
      exact unobserved legacy stated record (List.mem_cons_of_mem row member)

/-- No legacy record reports an input of its own. -/
def LegacyUnobserved (codec : LedgerCodec Text) (storage : SessionStorage Text) : Prop :=
  ∀ raw rows, storage.v1 = .text raw → codec.parseLegacy raw = some rows →
    ∀ stated record, .entry stated record ∈ rows → record.inputObservation = none

theorem Retained.readCommandLedger (unobserved : LegacyUnobserved codec storage) :
    Retained (Browser.readCommandLedger codec storage).records := by
  have empty : Retained [] := ⟨by simp, by simp⟩
  have current : Retained (readCurrent codec storage.v2).1.1 := by
    unfold readCurrent
    split
    · exact empty
    · exact empty
    · split
      · exact empty
      · exact empty.readRows (fun legacy => by cases legacy)
  change Retained (readLegacy codec (readCurrent codec storage.v2) storage.v1).1
  cases slot : storage.v1 with
  | unreadable => exact current
  | absent => exact current
  | text raw =>
    rw [readLegacy]
    split
    · exact current
    · split
      · exact current
      · rename_i rows parsed
        exact current.readRows fun _ => unobserved raw rows slot parsed

/-- Written records are read back as they are, and none is quarantined. -/
theorem readRows_written {start : Reading Text} (retained : Retained (start.1 ++ records)) :
    (records.map fun record => Row.entry (some record.authority) record).foldl
      (readRow codec .v2) start = (start.1 ++ records, start.2) := by
  induction records generalizing start with
  | nil => simp
  | cons record rest ih =>
    have sound := retained.sound record (by simp)
    have absent : start.1.find? (operationKey · = operationKey record) = none := by
      rw [List.find?_eq_none]
      intro other inside same
      have distinct := retained.distinct
      rw [List.map_append, List.nodup_append] at distinct
      exact distinct.2.2 _ (List.mem_map_of_mem inside) _ (by simp) (of_decide_eq_true same)
    have step : readRow codec .v2 start (.entry (some record.authority) record) =
        (start.1 ++ [record], start.2) := by
      have decoded : decodeRecord false (.entry (some record.authority) record : Row Text) =
          some record := decodeRecord_written.mpr sound
      simp only [readRow, reduceCtorEq, decide_false, decoded, absent]
    rw [List.map_cons, List.foldl_cons, step, ih]
    · simp
    · simpa using retained

end

/-! What is kept. -/

theorem mem_compact_of_unsettled {record : BrowserCommandRecord} (retained : Retained records)
    (member : record ∈ records) (unsettled : isSettledCommand record = false) :
    record ∈ compact records := by
  rw [compact, List.mem_filter]
  refine ⟨member, ?_⟩
  simp only [decide_not, Bool.not_eq_true', decide_eq_false_iff_not]
  intro listed
  obtain ⟨other, inside, same⟩ := List.mem_map.mp listed
  obtain ⟨listed, settled⟩ := List.mem_filter.mp (List.take_subset _ _ inside)
  have equal := List.inj_on_of_nodup_map retained.distinct listed member same
  rw [equal, unsettled] at settled
  cases settled

theorem mem_compact_of_newest {record : BrowserCommandRecord} (retained : Retained records)
    (newest : record ∈ (records.filter isSettledCommand).drop
      ((records.filter isSettledCommand).length - keptSettled)) : record ∈ compact records := by
  have member := List.mem_of_mem_filter (List.drop_subset _ _ newest)
  rw [compact, List.mem_filter]
  refine ⟨member, ?_⟩
  simp only [decide_not, Bool.not_eq_true', decide_eq_false_iff_not]
  intro listed
  obtain ⟨other, inside, same⟩ := List.mem_map.mp listed
  have listed := List.mem_of_mem_filter (List.take_subset _ _ inside)
  have equal := List.inj_on_of_nodup_map retained.distinct listed member same
  have distinct : (records.filter isSettledCommand).Nodup :=
    (List.Nodup.of_map operationKey retained.distinct).sublist List.filter_sublist
  rw [← List.take_append_drop ((records.filter isSettledCommand).length - keptSettled)
    (records.filter isSettledCommand), List.nodup_append] at distinct
  exact distinct.2.2 _ inside _ newest equal

section

variable {Text : Type} {codec : LedgerCodec Text} {storage : SessionStorage Text}

theorem readCommandLedger_document (codec : LedgerCodec Text) (retained : Retained records)
    (quarantine : List (QuarantinedStorage Text)) (v1 : Slot Text) :
    let written := .text (codec.stringify (ledgerDocument records quarantine))
    (readCommandLedger codec ⟨written, v1⟩).records = records ∧
      (readCommandLedger codec ⟨written, v1⟩).quarantine = quarantine := by
  intro written
  have entries : (quarantine.map Sum.inl).map readQuarantine = quarantine := by
    rw [List.map_map]
    exact List.map_id quarantine
  have current : readCurrent codec written = ((records, quarantine), true) := by
    rw [readCurrent, codec.parse_stringify]
    simp only [ledgerDocument, entries]
    rw [readRows_written (by simpa using retained)]
    rfl
  have imported : readLegacy codec ((records, quarantine), true) v1 = (records, quarantine) := by
    cases v1 <;> rfl
  simp only [readCommandLedger, current, imported, and_self]

variable [DecidableEq Text]

theorem writePendingCommands_eq (available : (readCommandLedger codec storage).available = true)
    (records : List BrowserCommandRecord) :
    writePendingCommands codec storage records =
      .ok (compact (joined (readCommandLedger codec storage).records records),
        ⟨.text (codec.stringify (ledgerDocument
          (compact (joined (readCommandLedger codec storage).records records))
          (readCommandLedger codec storage).quarantine.eraseDups)), storage.v1⟩) := by
  simp only [writePendingCommands, available, Bool.not_true, Bool.false_eq_true, if_false]

/-- The ledger loses nothing where evidence agrees with what the records hold: written and
read back, the records are the retained ones, with every unsettled one and the newest
settled ones among them, and the quarantined texts are those there were. -/
theorem command_ledger_round_trip (codec : LedgerCodec Text) (storage : SessionStorage Text)
    (operations : List LedgerOperation)
    (available : (readCommandLedger codec storage).available = true)
    (unobserved : LegacyUnobserved codec storage)
    (formed : ∀ operation ∈ operations, operation.WellFormed)
    (agree : LedgerOperation.AllAgree operations (readCommandLedger codec storage).records) :
    let prior := readCommandLedger codec storage
    let all := joined prior.records (operations.foldl LedgerOperation.perform prior.records)
    let settled := all.filter isSettledCommand
    ∃ retained written,
      writePendingCommands codec storage
        (operations.foldl LedgerOperation.perform prior.records) = .ok (retained, written) ∧
      (readCommandLedger codec written).records = retained ∧
      (∀ record ∈ all, isSettledCommand record = false →
        record ∈ (readCommandLedger codec written).records) ∧
      (∀ record ∈ settled.drop (settled.length - keptSettled),
        record ∈ (readCommandLedger codec written).records) ∧
      (readCommandLedger codec written).quarantine = prior.quarantine.eraseDups ∧
      ∀ entry ∈ prior.quarantine, entry ∈ (readCommandLedger codec written).quarantine := by
  intro prior all settled
  have read := Retained.readCommandLedger unobserved
  have kept : Retained all := read.joined (LedgerOperation.retained_foldl read formed agree)
  obtain ⟨records, quarantine⟩ :=
    readCommandLedger_document codec kept.compact prior.quarantine.eraseDups storage.v1
  refine ⟨_, _, writePendingCommands_eq available _, records, ?_, ?_, quarantine, ?_⟩
  · intro record member unsettled
    rw [records]
    exact mem_compact_of_unsettled kept member unsettled
  · intro record newest
    rw [records]
    exact mem_compact_of_newest kept newest
  · intro entry member
    rw [quarantine]
    exact List.mem_eraseDups.mpr member

end

/-- A text that says what it was written from. -/
inductive StoredText where
  | document (legacyImported : Bool) (records : List (Row StoredText))
      (quarantine : List (QuarantinedStorage StoredText ⊕ StoredText))
  | rows (rows : List (Row StoredText))
  | row (row : Row StoredText)

noncomputable instance storedTextDecidable : DecidableEq StoredText := Classical.decEq StoredText

def plainCodec : LedgerCodec StoredText where
  parse
    | .document legacyImported records quarantine => some ⟨legacyImported, records, quarantine⟩
    | _ => none
  parseLegacy
    | .rows rows => some rows
    | _ => none
  stringify document := .document document.legacyImported document.records document.quarantine
  rowText := .row
  parse_stringify _ _ := rfl

def sampleId : String := "01234567-89ab-cdef-0123-456789abcdef"

def sampleTarget : HostIdentity := ⟨"run", "/root", "1"⟩

def sampleInput : HostCommand := .input sampleTarget "text"

/-- A record of the legacy ledger that says its input was admitted. -/
def legacyHint : BrowserCommandRecord where
  hostRun := "run"
  submission := ⟨sampleId, sampleInput⟩
  authority := .legacy
  state := .inputAdmitted
  receipt := some ⟨sampleId, .accepted none (some sampleTarget) 42 none⟩

def legacyStorage : SessionStorage StoredText where
  v2 := .absent
  v1 := .text (.rows [.entry none legacyHint])

/-- The host reports that the operation is only being dispatched. -/
def dispatchingStatus : EmbeddedCommandRecord where
  operationId := sampleId
  command := sampleInput
  state := .dispatching
  envelopeId := none
  receipt := none

set_option maxRecDepth 4096 in
/-- A record that takes a status over but keeps the legacy receipt is written and then
quarantined by the next read, although its operation is not settled. -/
theorem merged_legacy_quarantined :
    let prior := readCommandLedger plainCodec legacyStorage
    let merged := applyStatus legacyHint dispatchingStatus
    prior.records = [legacyHint] ∧ (LedgerOperation.status "run" dispatchingStatus).WellFormed ∧
      isSettledCommand merged = false ∧
      ∃ written, writePendingCommands plainCodec legacyStorage
          ([.status "run" dispatchingStatus].foldl LedgerOperation.perform prior.records) =
        .ok ([merged], written) ∧
      (readCommandLedger plainCodec written).records = [] ∧
      (readCommandLedger plainCodec written).quarantine =
        [⟨.v2, .row (.entry (some .status) merged), "Invalid retained operation."⟩] := by
  refine ⟨rfl, rfl, rfl, ⟨.text (.document true [.entry (some .status) (applyStatus legacyHint
    dispatchingStatus)] []), legacyStorage.v1⟩, ?_, rfl, rfl⟩
  have kept : compact (joined (readCommandLedger plainCodec legacyStorage).records
      ([.status "run" dispatchingStatus].foldl LedgerOperation.perform
        (readCommandLedger plainCodec legacyStorage).records)) =
      [applyStatus legacyHint dispatchingStatus] := rfl
  have none_quarantined : (readCommandLedger plainCodec legacyStorage).quarantine = [] := rfl
  rw [writePendingCommands_eq rfl, kept, none_quarantined]
  have taken : (applyStatus legacyHint dispatchingStatus).authority = .status := rfl
  simp [ledgerDocument, plainCodec, taken]

/-- A legacy record without a receipt, the operation's dispatch and then its admission. -/
theorem command_ledger_round_trip_legacy :
    let storage : SessionStorage StoredText :=
      ⟨.absent, .text (.rows [.entry none { legacyHint with state := .queued, receipt := none }])⟩
    let operations : List LedgerOperation := [.status "run" dispatchingStatus,
      .receipt ⟨sampleId, .accepted none (some sampleTarget) 42 none⟩]
    ∃ retained written, writePendingCommands plainCodec storage (operations.foldl
        LedgerOperation.perform (readCommandLedger plainCodec storage).records) =
        .ok (retained, written) ∧
      (readCommandLedger plainCodec written).records = retained := by
  intro storage operations
  have unobserved : LegacyUnobserved plainCodec storage := by
    intro raw rows slot parsed stated record member
    cases slot
    cases parsed
    cases List.mem_singleton.mp member
    rfl
  have formed : ∀ operation ∈ operations, operation.WellFormed := by
    simp only [operations, List.forall_mem_cons, List.not_mem_nil, false_imp_iff, implies_true,
      and_true]
    exact ⟨rfl, rfl⟩
  have agree : LedgerOperation.AllAgree operations (readCommandLedger plainCodec storage).records := by
    refine ⟨?_, ?_, trivial⟩
    · intro record member _ _
      cases List.mem_singleton.mp member
      refine ⟨.inl rfl, fun _ => ⟨fun _ held inside => ?_, fun held inside => ?_,
        fun held inside => ?_⟩⟩ <;> cases inside
    · intro record member _ _
      cases List.mem_singleton.mp member
      refine ⟨fun absent => ?_, fun held inside => ?_, fun held inside => ?_⟩
      · cases absent
      · cases inside
        rfl
      · cases inside
  obtain ⟨retained, written, done, records, -⟩ :=
    command_ledger_round_trip plainCodec storage operations rfl unobserved formed agree
  exact ⟨retained, written, done, records⟩

end ExomonadHarness.Browser
