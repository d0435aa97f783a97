import ExomonadHarness.Store.ProviderResponse

/-! Envelopes are admitted for a recipient and attached to one of its requests, each once
and in the order of their admission. -/

namespace ExomonadHarness.Store

open Json Checked Transaction

variable {Hash Window : Type}

/-- A published message names the envelope it attached to a request. -/
structure Attachment (Hash : Type) where
  request : RequestId
  position : ℕ
  hash : Hash
  envelope : ℕ
  deriving DecidableEq

def Event.attachment? : Event Hash Window → Option (Attachment Hash)
  | .chatMessage request position hash envelope =>
    envelope.map fun envelope => { request, position, hash, envelope }
  | _ => none

/-- An envelope keeps the first request it was delivered to. -/
def EnvelopeRow.deliver (envelope : EnvelopeRow Hash) (request : RequestId) : EnvelopeRow Hash :=
  if envelope.delivered = none then { envelope with delivered := some request } else envelope

namespace Archive

/-- The attachments that were published. A delivery publishes every item that it places. -/
def attachments (archive : Archive Hash Window) : List (Attachment Hash) :=
  archive.events.filterMap Event.attachment?

/-- The identity of the next row of `envelopes`, which are never deleted. -/
def nextEnvelope (archive : Archive Hash Window) : ℕ :=
  (archive.envelopes.rows.map EnvelopeRow.id).foldr max 0 + 1

/-- The undelivered envelopes of a recipient with their items, oldest first. -/
def unread (archive : Archive Hash Window) (recipient : String) : List (EnvelopeRow Hash × Value) :=
  archive.envelopes.rows.filterMap fun envelope =>
    if envelope.recipient = recipient ∧ envelope.delivered = none then
      (archive.items envelope.hash).map (envelope, ·)
    else none

theorem deliver_id (id : ℕ) (request : RequestId) (row : EnvelopeRow Hash) :
    (if row.id = id then row.deliver request else row).id = row.id := by
  unfold EnvelopeRow.deliver
  split
  · split <;> rfl
  · rfl

/-- Mark one envelope as delivered to a request. -/
def deliver (archive : Archive Hash Window) (id : ℕ) (request : RequestId) : Archive Hash Window :=
  { archive with
    envelopes := archive.envelopes.update
      (fun row => if row.id = id then row.deliver request else row) (deliver_id id request) }

variable [DecidableEq Hash]

/-- The item at a place is the one of an undelivered envelope for the agent of the
request, and no message was published for the envelope. -/
def deliverable (archive : Archive Hash Window) (request : RequestId) (position : ℕ) (hash : Hash)
    (id : ℕ) : Bool :=
  match archive.envelopes.find? id, archive.requests.find? request,
    archive.placed.find? (request, position) with
  | some envelope, some row, some item =>
    envelope.recipient = row.branch && envelope.hash = hash && item.hash = envelope.hash &&
      envelope.delivered.isNone && archive.attachments.all (·.envelope ≠ id)
  | _, _, _ => false

end Archive

section

variable [DecidableEq Hash]

def addEnvelope (hash : Value → Hash) (sender recipient kind : String) (item : Value)
    (delivered : Option RequestId) : Tx (Archive Hash Window) StoreError ℕ := do
  let itemHash ← putItem hash item
  let archive ← get
  let id := archive.nextEnvelope
  -- A delivered request is a foreign key.
  answer (require (delivered.all fun request => (archive.requests.find? request).isSome) .storage)
  let envelopes ← answer (okOr
    (archive.envelopes.insert? { id, sender, recipient, kind, hash := itemHash, delivered }) .storage)
  set { archive with envelopes }
  return id

def publishItem (request : RequestId) (position : ℕ) (hash : Hash) (item : Value)
    (envelope : Option ℕ) : Tx (Archive Hash Window) StoreError PUnit :=
  modify fun archive =>
    if isConfigurationUpdate item then archive
    else { archive with events := archive.events ++ [.chatMessage request position hash envelope] }

def publishEnvelope (request : RequestId) (position : ℕ) (hash : Hash) (item : Value) (id : ℕ) :
    Tx (Archive Hash Window) StoreError PUnit := do
  answer (require (0 < id) .invalidActorOutput)
  let archive ← get
  answer (require (archive.deliverable request position hash id) .invalidActorOutput)
  publishItem request position hash item (some id)

/-- Attach envelopes to a request from a position on. Configuration updates are untrusted
here and are passed by. -/
def attachEnvelopes (request : RequestId) :
    List (EnvelopeRow Hash × Value) → ℕ → Tx (Archive Hash Window) StoreError (List Value)
  | [], _ => return []
  | (envelope, item) :: rest, position =>
    if isConfigurationUpdate item then attachEnvelopes request rest position
    else do
      answer (requireOrdinary item request position)
      let archive ← get
      let placed ← answer
        (okOr (archive.placed.insert? { request, position, hash := envelope.hash }) .storage)
      set { archive with placed }
      publishEnvelope request position envelope.hash item envelope.id
      let items ← attachEnvelopes request rest (position + 1)
      return item :: items

def appendUnreadEnvelopes (recipient : String) (request : RequestId) :
    Tx (Archive Hash Window) StoreError (List Value) := do
  let archive ← get
  let row ← answer (okOr (archive.requests.find? request) (.missingRequest request))
  answer (require (row.branch = recipient) (.requestAgentMismatch request recipient row.branch))
  let envelopes := archive.unread recipient
  let items ← attachEnvelopes request envelopes (archive.nextPosition request)
  modify fun archive => envelopes.foldl (fun archive pair => archive.deliver pair.1.id request) archive
  return items

end

/-- The attachments of envelopes to a request from a position on. -/
def attaching (request : RequestId) (envelopes : List (EnvelopeRow Hash × Value)) (position : ℕ) :
    List (Attachment Hash) :=
  ((envelopes.filter fun pair => !isConfigurationUpdate pair.2).zipIdx position).map fun placed =>
    { request, position := placed.2, hash := placed.1.1.hash, envelope := placed.1.1.id }

def Attachment.row (attachment : Attachment Hash) : RequestItem Hash where
  request := attachment.request
  position := attachment.position
  hash := attachment.hash

def Attachment.message (attachment : Attachment Hash) : Event Hash Window :=
  .chatMessage attachment.request attachment.position attachment.hash (some attachment.envelope)

/-- What attaching envelopes to a request relies on. -/
structure Archive.Attachable (archive : Archive Hash Window) (row : RequestRow)
    (envelopes : List (EnvelopeRow Hash × Value)) (position : ℕ) : Prop where
  request : archive.requests.find? row.id = some row
  free : ∀ item ∈ archive.placed.rows, item.request = row.id → item.position < position
  distinct : (envelopes.map (·.1.id)).Nodup
  ordinary : ∀ pair ∈ envelopes, isToolOutput pair.2 = false
  stored : ∀ pair ∈ envelopes, 0 < pair.1.id ∧ archive.envelopes.find? pair.1.id = some pair.1
  unread : ∀ pair ∈ envelopes, pair.1.recipient = row.branch ∧ pair.1.delivered = none
  unpublished : ∀ pair ∈ envelopes, ∀ attachment ∈ archive.attachments,
    attachment.envelope ≠ pair.1.id

section

variable {archive next : Archive Hash Window} {request : RequestId} {row : RequestRow}
  {pair : EnvelopeRow Hash × Value} {envelopes others : List (EnvelopeRow Hash × Value)} {position : ℕ}

theorem attaching_skip (skipped : isConfigurationUpdate pair.2 = true) :
    attaching request (pair :: others) position = attaching request others position := by
  simp [attaching, skipped]

theorem attaching_cons (kept : isConfigurationUpdate pair.2 = false) :
    attaching request (pair :: others) position =
      { request, position, hash := pair.1.hash, envelope := pair.1.id } ::
        attaching request others (position + 1) := by
  simp [attaching, kept]

theorem mem_attaching {attachment : Attachment Hash}
    (member : attachment ∈ attaching request envelopes position) :
    attachment.request = request ∧ position ≤ attachment.position ∧ ∃ pair ∈ envelopes,
      isConfigurationUpdate pair.2 = false ∧ attachment.envelope = pair.1.id := by
  obtain ⟨placed, inside, same⟩ := List.mem_map.mp member
  obtain ⟨chosen, kept⟩ := List.mem_filter.mp (List.fst_mem_of_mem_zipIdx inside)
  subst same
  exact ⟨rfl, List.le_snd_of_mem_zipIdx inside, placed.1, chosen, by simpa using kept, rfl⟩

/-- Each envelope but the configuration updates is attached. -/
theorem attaching_of_mem (member : pair ∈ envelopes) (kept : isConfigurationUpdate pair.2 = false) :
    ∃ attachment ∈ attaching request envelopes position,
      attachment.envelope = pair.1.id ∧ attachment.hash = pair.1.hash := by
  induction envelopes generalizing position with
  | nil => cases member
  | cons first others ih =>
    rcases List.mem_cons.mp member with same | later
    · subst same
      rw [attaching_cons kept]
      exact ⟨_, List.mem_cons_self, rfl, rfl⟩
    · cases update : isConfigurationUpdate first.2 with
      | true =>
        rw [attaching_skip update]
        exact ih later
      | false =>
        rw [attaching_cons update]
        obtain ⟨attachment, inside, same⟩ := @ih (position + 1) later
        exact ⟨attachment, List.mem_cons_of_mem _ inside, same⟩

/-- Envelopes are attached in their order. -/
theorem attaching_pairwise (ordered : envelopes.Pairwise (·.1.id < ·.1.id)) :
    (attaching request envelopes position).Pairwise fun earlier later =>
      earlier.envelope < later.envelope ∧ earlier.position < later.position := by
  induction envelopes generalizing position with
  | nil => exact .nil
  | cons pair others ih =>
    obtain ⟨first, sorted⟩ := List.pairwise_cons.mp ordered
    cases update : isConfigurationUpdate pair.2 with
    | true =>
      rw [attaching_skip update]
      exact ih sorted
    | false =>
      rw [attaching_cons update]
      refine List.pairwise_cons.mpr ⟨fun attachment member => ?_, ih sorted⟩
      obtain ⟨_, beyond, other, inside, _, same⟩ := mem_attaching member
      exact ⟨same ▸ first other inside, beyond⟩

theorem Archive.Attachable.rest (attachable : archive.Attachable row (pair :: others) position) :
    archive.Attachable row others position where
  request := attachable.request
  free := attachable.free
  distinct := (List.nodup_cons.mp attachable.distinct).2
  ordinary other member := attachable.ordinary other (List.mem_cons_of_mem _ member)
  stored other member := attachable.stored other (List.mem_cons_of_mem _ member)
  unread other member := attachable.unread other (List.mem_cons_of_mem _ member)
  unpublished other member := attachable.unpublished other (List.mem_cons_of_mem _ member)

/-- The archive with one more attachment. -/
def Archive.attach (archive : Archive Hash Window) (attachment : Attachment Hash)
    (placed : Table (@RequestItem.place Hash)) : Archive Hash Window :=
  { archive with placed, events := archive.events ++ [attachment.message] }

variable {placed : Table (@RequestItem.place Hash)}

theorem Archive.attachments_attach {attachment : Attachment Hash} :
    (archive.attach attachment placed).attachments = archive.attachments ++ [attachment] := by
  simp [attachments, attach, Attachment.message, Event.attachment?]

/-- Attaching the first envelope leaves the others attachable. -/
theorem Archive.Attachable.attached (attachable : archive.Attachable row (pair :: others) position)
    (inserted : placed.rows = archive.placed.rows ++
      [(⟨row.id, position, pair.1.hash, pair.1.id⟩ : Attachment Hash).row]) :
    (archive.attach ⟨row.id, position, pair.1.hash, pair.1.id⟩ placed).Attachable row others
      (position + 1) where
  request := attachable.request
  free := by
    intro item member held
    rw [Archive.attach, inserted, List.mem_append, List.mem_singleton] at member
    rcases member with old | new
    · exact Nat.lt_succ_of_lt (attachable.free item old held)
    · rw [new]
      exact Nat.lt_succ_self position
  distinct := attachable.rest.distinct
  ordinary := attachable.rest.ordinary
  stored := attachable.rest.stored
  unread := attachable.rest.unread
  unpublished := by
    intro other member attachment published
    rw [Archive.attachments_attach, List.mem_append, List.mem_singleton] at published
    rcases published with old | new
    · exact attachable.rest.unpublished other member attachment old
    · intro same
      rw [new] at same
      exact (List.nodup_cons.mp attachable.distinct).1
        (List.mem_map.mpr ⟨other, member, same.symm⟩)

variable [DecidableEq Hash]

/-- The first envelope is deliverable once it is placed. -/
theorem Archive.Attachable.deliverable
    (attachable : archive.Attachable row (pair :: others) position)
    (inserted : archive.placed.insert?
      (⟨row.id, position, pair.1.hash, pair.1.id⟩ : Attachment Hash).row = some placed) :
    Archive.deliverable { archive with placed } row.id position pair.1.hash pair.1.id = true := by
  obtain ⟨_, stored⟩ := attachable.stored pair List.mem_cons_self
  obtain ⟨recipient, unread⟩ := attachable.unread pair List.mem_cons_self
  have found : placed.find? (row.id, position) =
      some (⟨row.id, position, pair.1.hash, pair.1.id⟩ : Attachment Hash).row :=
    Table.find?_insert_self inserted
  have unpublished : archive.attachments.all (·.envelope ≠ pair.1.id) = true := by
    simpa using attachable.unpublished pair List.mem_cons_self
  simp only [Archive.deliverable, stored, attachable.request, found]
  simp only [recipient, unread, Attachment.row]
  simpa [Archive.attachments] using unpublished

theorem answers_publishEnvelope (archive : Archive Hash Window) (attachment : Attachment Hash)
    {item : Value} (positive : 0 < attachment.envelope)
    (deliverable : Archive.deliverable { archive with placed } attachment.request attachment.position
      attachment.hash attachment.envelope = true)
    (kept : isConfigurationUpdate item = false) :
    Answers (publishEnvelope attachment.request attachment.position attachment.hash item
      attachment.envelope) { archive with placed } ⟨⟩ (archive.attach attachment placed) := by
  simp only [publishEnvelope, publishItem, answers_bind, answers_answer, answers_get,
    answers_modify, require_eq_ok]
  refine ⟨⟨⟩, _, ⟨by simpa using positive, rfl⟩, _, _, ⟨rfl, rfl⟩, ⟨⟩, _, ⟨deliverable, rfl⟩, ?_⟩
  rw [if_neg (by simp [kept])]
  rfl

/-- Attachable envelopes are attached, each but the configuration updates, in order. -/
theorem answers_attachEnvelopes (attachable : archive.Attachable row envelopes position) :
    ∃ placed : Table (@RequestItem.place Hash),
      placed.rows = archive.placed.rows ++ (attaching row.id envelopes position).map (·.row) ∧
      Answers (attachEnvelopes row.id envelopes position) archive
        ((envelopes.filter fun pair => !isConfigurationUpdate pair.2).map (·.2))
        { archive with
          placed
          events := archive.events ++ (attaching row.id envelopes position).map (·.message) } := by
  induction envelopes generalizing archive position with
  | nil => exact ⟨archive.placed, by simp [attaching], by simp [attachEnvelopes, attaching]⟩
  | cons pair others ih =>
    cases update : isConfigurationUpdate pair.2 with
    | true =>
      obtain ⟨placed, rows, ran⟩ := ih attachable.rest
      refine ⟨placed, ?_, ?_⟩
      · rw [attaching_skip update, rows]
      · rw [attaching_skip update, attachEnvelopes, if_pos update]
        simpa [update] using ran
    | false =>
      have free : archive.placed.find?
          (⟨row.id, position, pair.1.hash, pair.1.id⟩ : Attachment Hash).row.place = none := by
        rw [Table.find?_eq_none]
        intro item member same
        obtain ⟨held, last⟩ := Prod.mk.inj same
        exact absurd last (Nat.ne_of_lt (attachable.free item member held))
      obtain ⟨placed, inserted⟩ := Table.exists_insert free
      obtain ⟨final, rows, ran⟩ := ih (attachable.attached (Table.insert?_eq_some.mp inserted).2)
      refine ⟨final, ?_, ?_⟩
      · rw [attaching_cons update, rows, Archive.attach, (Table.insert?_eq_some.mp inserted).2]
        simp
      · rw [attaching_cons update, attachEnvelopes, if_neg (by simp [update])]
        have ordinary := attachable.ordinary pair List.mem_cons_self
        have positive := (attachable.stored pair List.mem_cons_self).1
        simp only [answers_bind, answers_answer, answers_get, answers_set, answers_pure]
        refine ⟨⟨⟩, archive, ⟨?_, rfl⟩, archive, archive, ⟨rfl, rfl⟩, placed, archive, ⟨?_, rfl⟩,
          ⟨⟩, _, rfl, ⟨⟩, _, ?_, _, _, ran, ?_, ?_⟩
        · simp [requireOrdinary, ordinary]
        · simpa [Attachment.row] using inserted
        · exact answers_publishEnvelope archive ⟨row.id, position, pair.1.hash, pair.1.id⟩ positive
            (attachable.deliverable inserted) update
        · simp [update]
        · simp [Archive.attach]

end

section

variable {archive next : Archive Hash Window} {request : RequestId} {row : RequestRow}
  {recipient : String} {envelopes : List (EnvelopeRow Hash × Value)} {hash : Value → Hash}

theorem EnvelopeRow.deliver_deliver {envelope : EnvelopeRow Hash} :
    (envelope.deliver request).deliver request = envelope.deliver request := by
  by_cases undelivered : envelope.delivered = none
  · simp [deliver, undelivered]
  · simp [deliver, undelivered]

theorem EnvelopeRow.deliver_id {envelope : EnvelopeRow Hash} :
    (envelope.deliver request).id = envelope.id := by
  unfold deliver
  split <;> rfl

/-- Delivering envelopes one by one marks each of them and changes nothing else. -/
theorem Archive.deliver_foldl (archive : Archive Hash Window)
    (envelopes : List (EnvelopeRow Hash × Value)) (request : RequestId) :
    ∃ marked : Table (@EnvelopeRow.id Hash),
    envelopes.foldl (fun archive pair => archive.deliver pair.1.id request) archive =
      { archive with envelopes := marked } ∧
    marked.rows = archive.envelopes.rows.map fun envelope =>
      if envelope.id ∈ envelopes.map (·.1.id) then envelope.deliver request else envelope := by
  induction envelopes generalizing archive with
  | nil => exact ⟨archive.envelopes, rfl, by simp⟩
  | cons pair others ih =>
    obtain ⟨marked, same, rows⟩ := ih (archive.deliver pair.1.id request)
    refine ⟨marked, same, ?_⟩
    rw [rows, Archive.deliver, Table.update, List.map_map]
    refine List.map_congr_left fun envelope _ => ?_
    by_cases first : envelope.id = pair.1.id
    · simp [first, EnvelopeRow.deliver_id, EnvelopeRow.deliver_deliver]
    · have skipped : envelope.id ∈ (pair :: others).map (·.1.id) ↔
          envelope.id ∈ others.map (·.1.id) := by
        rw [List.map_cons, List.mem_cons, or_iff_right first]
      rw [Function.comp_apply, if_neg first]
      exact if_congr skipped.symm rfl rfl

theorem Archive.mem_unread {envelope : EnvelopeRow Hash} {item : Value} :
    (envelope, item) ∈ archive.unread recipient ↔ envelope ∈ archive.envelopes.rows ∧
      envelope.recipient = recipient ∧ envelope.delivered = none ∧
      archive.items envelope.hash = some item := by
  simp only [unread, List.mem_filterMap]
  constructor
  · intro found
    obtain ⟨held, member, chosen⟩ := found
    split at chosen
    case isTrue unread =>
      obtain ⟨value, stored, same⟩ := Option.map_eq_some_iff.mp chosen
      cases same
      exact ⟨member, unread.1, unread.2, stored⟩
    case isFalse => cases chosen
  · intro found
    obtain ⟨member, held, undelivered, stored⟩ := found
    exact ⟨envelope, member, by simp [held, undelivered, stored]⟩

/-- Unread envelopes come in the order of the table. -/
theorem Archive.unread_sublist (archive : Archive Hash Window) (recipient : String) :
    ((archive.unread recipient).map (·.1)).Sublist archive.envelopes.rows := by
  unfold unread
  induction archive.envelopes.rows with
  | nil => exact .slnil
  | cons envelope rows ih =>
    rw [List.filterMap_cons]
    split
    case h_1 => exact ih.cons _
    case h_2 pair chosen =>
      have same : pair.1 = envelope := by
        split at chosen
        case isTrue =>
          obtain ⟨_, _, same⟩ := Option.map_eq_some_iff.mp chosen
          rw [← same]
        case isFalse => cases chosen
      rw [List.map_cons, same]
      exact ih.cons_cons _

end

end ExomonadHarness.Store
