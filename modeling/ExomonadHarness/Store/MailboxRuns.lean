import ExomonadHarness.Support.Run
import ExomonadHarness.Store.Mailbox

/-! Over every run of admissions and deliveries, an envelope is attached at most once, to
the request it was delivered to, and in the order of admission. -/

namespace ExomonadHarness.Store

open Json Checked Transaction Transition

variable {Hash Window : Type}

section

variable {archive next : Archive Hash Window} {row : RequestRow} {recipient : String}
  {hash : Value → Hash}

/-- The recipient of an admitted envelope. -/
def Archive.recipientOf (archive : Archive Hash Window) (id : ℕ) : Option String :=
  (archive.envelopes.find? id).map (·.recipient)

/-- Envelopes stand in the order of their admission, are attached in this order to one
request each and are delivered when they are, and an undelivered one comes after all those
that were attached for its recipient. -/
structure Archive.Mailbox (hash : Value → Hash) (archive : Archive Hash Window) : Prop where
  content : ∀ {itemHash item}, archive.items itemHash = some item → hash item = itemHash
  ordered : archive.envelopes.rows.Pairwise (·.id < ·.id)
  positive : ∀ envelope ∈ archive.envelopes.rows, 0 < envelope.id
  retained : ∀ envelope ∈ archive.envelopes.rows, ∃ item,
    archive.items envelope.hash = some item ∧ isToolOutput item = false
  placed : ∀ attachment ∈ archive.attachments,
    ∃ item ∈ archive.placed.rows, item.place = (attachment.request, attachment.position)
  attached : ∀ attachment ∈ archive.attachments, ∃ envelope,
    archive.envelopes.find? attachment.envelope = some envelope ∧
      envelope.delivered = some attachment.request ∧
      ∀ item, archive.items envelope.hash = some item → isConfigurationUpdate item = false
  increasing : archive.attachments.Pairwise fun earlier later =>
    archive.recipientOf earlier.envelope = archive.recipientOf later.envelope →
      earlier.envelope < later.envelope
  positions : archive.attachments.Pairwise fun earlier later =>
    earlier.request = later.request → earlier.position < later.position
  behind : ∀ attachment ∈ archive.attachments, ∀ envelope ∈ archive.envelopes.rows,
    envelope.delivered = none → archive.recipientOf attachment.envelope = some envelope.recipient →
      attachment.envelope < envelope.id

theorem Archive.Mailbox.unread_ordered (mailbox : archive.Mailbox hash) :
    (archive.unread recipient).Pairwise (·.1.id < ·.1.id) := by
  have ordered := mailbox.ordered.sublist (unread_sublist archive recipient)
  rwa [List.pairwise_map] at ordered

theorem Archive.Mailbox.unread_id (mailbox : archive.Mailbox hash) (recipient : String)
    {envelope : EnvelopeRow Hash}
    (member : envelope ∈ archive.envelopes.rows) :
    envelope.id ∈ (archive.unread recipient).map (·.1.id) ↔
      envelope.recipient = recipient ∧ envelope.delivered = none := by
  constructor
  · intro found
    obtain ⟨pair, unread, same⟩ := List.mem_map.mp found
    obtain ⟨inside, held, undelivered, _⟩ := mem_unread.mp unread
    have known := Table.find?_key inside
    rw [same, Table.find?_key member] at known
    cases known
    exact ⟨held, undelivered⟩
  · intro unread
    obtain ⟨item, stored, _⟩ := mailbox.retained envelope member
    exact List.mem_map.mpr ⟨(envelope, item), mem_unread.mpr ⟨member, unread.1, unread.2, stored⟩,
      rfl⟩

/-- The unread envelopes of an agent can be attached to any of its requests. -/
theorem Archive.Mailbox.attachable (mailbox : archive.Mailbox hash)
    (found : archive.requests.find? row.id = some row) :
    archive.Attachable row (archive.unread row.branch) (archive.nextPosition row.id) where
  request := found
  free item member held := Archive.lt_nextPosition member held
  distinct := by
    have ids := (unread_sublist archive row.branch).map EnvelopeRow.id
    rw [List.map_map] at ids
    exact archive.envelopes.distinct.sublist ids
  ordinary pair member := by
    obtain ⟨inside, _, _, stored⟩ := mem_unread.mp member
    obtain ⟨item, kept, ordinary⟩ := mailbox.retained pair.1 inside
    cases stored.symm.trans kept
    exact ordinary
  stored pair member := by
    obtain ⟨inside, _⟩ := mem_unread.mp member
    exact ⟨mailbox.positive pair.1 inside, Table.find?_key inside⟩
  unread pair member := by
    obtain ⟨_, held, undelivered, _⟩ := mem_unread.mp member
    exact ⟨held, undelivered⟩
  unpublished pair member attachment published same := by
    obtain ⟨inside, _, undelivered, _⟩ := mem_unread.mp member
    obtain ⟨envelope, known, delivered, _⟩ := mailbox.attached attachment published
    rw [same, Table.find?_key inside] at known
    cases known
    cases undelivered.symm.trans delivered

/-- The attachments that delivering to a request makes. -/
def Archive.delivering (archive : Archive Hash Window) (row : RequestRow) : List (Attachment Hash) :=
  attaching row.id (archive.unread row.branch) (archive.nextPosition row.id)

/-- Every unread envelope of an agent was delivered to one of its requests. -/
structure Archive.Delivered (archive : Archive Hash Window) (row : RequestRow)
    (next : Archive Hash Window) : Prop where
  items : next.items = archive.items
  requests : next.requests = archive.requests
  placed : next.placed.rows = archive.placed.rows ++ (archive.delivering row).map (·.row)
  attachments : next.attachments = archive.attachments ++ archive.delivering row
  envelopes : next.envelopes.rows = archive.envelopes.rows.map fun envelope =>
    if envelope.recipient = row.branch then envelope.deliver row.id else envelope

namespace Archive.Delivered

theorem find? (delivered : archive.Delivered row next) {id : ℕ} :
    next.envelopes.find? id = (archive.envelopes.find? id).map fun envelope =>
      if envelope.recipient = row.branch then envelope.deliver row.id else envelope := by
  simp only [Table.find?, delivered.envelopes, List.find?_map]
  congr 2
  funext envelope
  simp only [Function.comp_apply]
  split
  · rw [EnvelopeRow.deliver_id]
  · rfl

theorem recipientOf (delivered : archive.Delivered row next) {id : ℕ} :
    next.recipientOf id = archive.recipientOf id := by
  unfold Archive.recipientOf
  rw [delivered.find?, Option.map_map]
  congr 1
  funext envelope
  simp only [Function.comp_apply, EnvelopeRow.deliver]
  split
  · split <;> rfl
  · rfl

/-- An envelope that is unread afterwards was unread and is another agent's. -/
theorem unread (delivered : archive.Delivered row next) {envelope : EnvelopeRow Hash}
    (member : envelope ∈ next.envelopes.rows) (undelivered : envelope.delivered = none) :
    envelope ∈ archive.envelopes.rows ∧ envelope.recipient ≠ row.branch := by
  rw [delivered.envelopes] at member
  obtain ⟨prior, inside, same⟩ := List.mem_map.mp member
  split at same
  case isTrue held =>
    subst same
    unfold EnvelopeRow.deliver at undelivered
    split at undelivered
    case isTrue => cases undelivered
    case isFalse taken => exact absurd undelivered taken
  case isFalse other =>
    subst same
    exact ⟨inside, other⟩

/-- The recipient of what is delivered is the agent of the request. -/
theorem recipient_delivering {attachment : Attachment Hash}
    (member : attachment ∈ archive.delivering row) : ∃ envelope ∈ archive.envelopes.rows,
      attachment.envelope = envelope.id ∧ envelope.recipient = row.branch ∧
      envelope.delivered = none ∧
      ∃ item, archive.items envelope.hash = some item ∧ isConfigurationUpdate item = false := by
  obtain ⟨_, _, pair, unread, kept, same⟩ := mem_attaching member
  obtain ⟨inside, held, undelivered, stored⟩ := mem_unread.mp unread
  exact ⟨pair.1, inside, same, held, undelivered, pair.2, stored, kept⟩

/-- Whatever an agent had not read is attached to the request, except for the
configuration updates. -/
theorem attached {envelope : EnvelopeRow Hash} {item : Value}
    (delivered : archive.Delivered row next) (member : envelope ∈ archive.envelopes.rows)
    (held : envelope.recipient = row.branch) (undelivered : envelope.delivered = none)
    (stored : archive.items envelope.hash = some item) (kept : isConfigurationUpdate item = false) :
    ∃ attachment ∈ next.attachments, attachment.envelope = envelope.id ∧
      attachment.request = row.id ∧ attachment.row ∈ next.placed.rows ∧
      attachment.hash = envelope.hash := by
  have unread := mem_unread.mpr ⟨member, held, undelivered, stored⟩
  obtain ⟨attachment, inside, same, hashed⟩ := attaching_of_mem unread kept
  have added : attachment ∈ archive.delivering row := inside
  refine ⟨attachment, ?_, same, (mem_attaching inside).1, ?_, hashed⟩
  · rw [delivered.attachments]
    exact List.mem_append_right _ added
  · rw [delivered.placed]
    exact List.mem_append_right _ (List.mem_map_of_mem added)

/-- Delivering keeps the order of the mailbox. -/
theorem mailbox (delivered : archive.Delivered row next) (before : archive.Mailbox hash) :
    next.Mailbox hash where
  content found := before.content (delivered.items ▸ found)
  ordered := by
    rw [delivered.envelopes, List.pairwise_map]
    refine before.ordered.imp fun {earlier later} less => ?_
    split <;> split <;> simpa [EnvelopeRow.deliver_id] using less
  positive := by
    intro envelope member
    rw [delivered.envelopes] at member
    obtain ⟨prior, inside, same⟩ := List.mem_map.mp member
    have positive := before.positive prior inside
    rw [← same]
    split
    · rwa [EnvelopeRow.deliver_id]
    · exact positive
  retained := by
    intro envelope member
    rw [delivered.envelopes] at member
    obtain ⟨prior, inside, same⟩ := List.mem_map.mp member
    have kept : envelope.hash = prior.hash := by
      rw [← same]
      split
      · unfold EnvelopeRow.deliver
        split <;> rfl
      · rfl
    rw [kept, delivered.items]
    exact before.retained prior inside
  placed := by
    intro attachment member
    rw [delivered.placed]
    rw [delivered.attachments, List.mem_append] at member
    rcases member with old | new
    · obtain ⟨item, inside, same⟩ := before.placed attachment old
      exact ⟨item, List.mem_append_left _ inside, same⟩
    · exact ⟨attachment.row, List.mem_append_right _ (List.mem_map_of_mem new), rfl⟩
  attached := by
    intro attachment member
    rw [delivered.items, delivered.find?]
    rw [delivered.attachments, List.mem_append] at member
    rcases member with old | new
    · obtain ⟨envelope, found, marked, kept⟩ := before.attached attachment old
      refine ⟨envelope, ?_, marked, kept⟩
      have same : envelope.deliver row.id = envelope := if_neg (by simp [marked])
      rw [found, Option.map_some, same, ite_self]
    · obtain ⟨envelope, inside, same, held, undelivered, item, stored, kept⟩ :=
        recipient_delivering new
      refine ⟨envelope.deliver row.id, ?_, ?_, ?_⟩
      · rw [same, Table.find?_key inside, Option.map_some, if_pos held]
      · rw [EnvelopeRow.deliver, if_pos undelivered, (mem_attaching new).1]
      · intro other found
        rw [EnvelopeRow.deliver, if_pos undelivered, stored] at found
        cases found
        exact kept
  increasing := by
    simp only [delivered.recipientOf]
    rw [delivered.attachments, List.pairwise_append]
    refine ⟨before.increasing, ?_, ?_⟩
    · exact (attaching_pairwise before.unread_ordered).imp fun less _ => less.1
    · intro earlier old later new same
      obtain ⟨envelope, inside, id, _, undelivered, _⟩ := recipient_delivering new
      rw [id] at same ⊢
      refine before.behind earlier old envelope inside undelivered ?_
      rw [same, Archive.recipientOf, Table.find?_key inside, Option.map_some]
  positions := by
    rw [delivered.attachments, List.pairwise_append]
    refine ⟨before.positions, ?_, ?_⟩
    · exact (attaching_pairwise before.unread_ordered).imp fun less _ => less.2
    · intro earlier old later new same
      obtain ⟨request, beyond, _⟩ := mem_attaching new
      obtain ⟨item, inside, place⟩ := before.placed earlier old
      obtain ⟨held, position⟩ := Prod.mk.inj place
      rw [← position]
      exact Nat.lt_of_lt_of_le
        (Archive.lt_nextPosition inside (held.trans (same.trans request))) beyond
  behind := by
    intro attachment member envelope later undelivered same
    obtain ⟨inside, other⟩ := delivered.unread later undelivered
    rw [delivered.recipientOf] at same
    rw [delivered.attachments, List.mem_append] at member
    rcases member with old | new
    · exact before.behind attachment old envelope inside undelivered same
    · obtain ⟨prior, known, id, held, _⟩ := recipient_delivering new
      rw [id, Archive.recipientOf, Table.find?_key known, Option.map_some, held] at same
      exact absurd (Option.some.inj same).symm other

end Archive.Delivered

theorem Archive.lt_nextEnvelope {envelope : EnvelopeRow Hash}
    (member : envelope ∈ archive.envelopes.rows) : envelope.id < archive.nextEnvelope := by
  have inside : envelope.id ∈ archive.envelopes.rows.map EnvelopeRow.id :=
    List.mem_map_of_mem member
  exact Nat.lt_succ_of_le (List.le_max_of_le inside le_rfl)

variable [DecidableEq Hash]

/-- Delivering to a request of the agent succeeds. -/
theorem answers_appendUnreadEnvelopes (mailbox : archive.Mailbox hash)
    (found : archive.requests.find? row.id = some row) : ∃ next,
      Answers (appendUnreadEnvelopes row.branch row.id) archive
        (((archive.unread row.branch).filter fun pair => !isConfigurationUpdate pair.2).map (·.2))
        next ∧
      archive.Delivered row next := by
  obtain ⟨placed, rows, ran⟩ := answers_attachEnvelopes (mailbox.attachable found)
  let attached : Archive Hash Window :=
    { archive with placed, events := archive.events ++ (archive.delivering row).map (·.message) }
  obtain ⟨marked, same, envelopes⟩ :=
    Archive.deliver_foldl attached (archive.unread row.branch) row.id
  refine ⟨{ attached with envelopes := marked }, ?_, rfl, rfl, rows, ?_, ?_⟩
  · simp only [appendUnreadEnvelopes, answers_bind, answers_get, answers_answer, answers_modify,
      answers_pure]
    exact ⟨archive, archive, ⟨rfl, rfl⟩, row, archive, ⟨by simp [found], rfl⟩, ⟨⟩, archive,
      ⟨by simp, rfl⟩, _, attached, ran, ⟨⟩, _, same.symm, rfl, rfl⟩
  · simp only [Archive.attachments, attached, List.filterMap_append, List.append_cancel_left_eq]
    rw [List.filterMap_map]
    exact List.filterMap_some
  · rw [envelopes]
    refine List.map_congr_left fun envelope member => ?_
    have unread := mailbox.unread_id row.branch member
    by_cases held : envelope.recipient = row.branch
    · by_cases undelivered : envelope.delivered = none
      · rw [if_pos (unread.mpr ⟨held, undelivered⟩), if_pos held]
      · have still : envelope.deliver row.id = envelope := if_neg undelivered
        rw [still, ite_self, ite_self]
    · rw [if_neg (fun listed => held (unread.mp listed).1), if_neg held]

/-- Delivering succeeds for the requests of the recipient alone, and delivers. -/
theorem Archive.Delivered.of_answers (mailbox : archive.Mailbox hash) {request : RequestId}
    {items : List Value} (ran : Answers (appendUnreadEnvelopes recipient request) archive items next) :
    ∃ row, archive.requests.find? request = some row ∧ row.branch = recipient ∧
      archive.Delivered row next ∧ items = ((archive.unread recipient).filter fun pair =>
        !isConfigurationUpdate pair.2).map (·.2) := by
  have opened := ran
  simp only [appendUnreadEnvelopes, answers_bind, answers_get, answers_answer, okOr_eq_ok,
    require_eq_ok, decide_eq_true_eq] at opened
  obtain ⟨_, _, ⟨rfl, rfl⟩, row, _, ⟨found, rfl⟩, _, _, ⟨held, rfl⟩, _⟩ := opened
  have id : row.id = request := Table.key_of_find? found
  subst id held
  obtain ⟨other, again, delivered⟩ := answers_appendUnreadEnvelopes mailbox found
  cases ran.symm.trans again
  exact ⟨row, found, rfl, delivered, rfl⟩

/-- One envelope was admitted as the last one. -/
structure Archive.Admitted (archive : Archive Hash Window) (hash : Value → Hash)
    (envelope : EnvelopeRow Hash) (item : Value) (next : Archive Hash Window) : Prop where
  id : envelope.id = archive.nextEnvelope
  stored : envelope.hash = hash item
  items : next.items = (archive.put (hash item) item).items
  placed : next.placed = archive.placed
  events : next.events = archive.events
  inserted : archive.envelopes.insert? envelope = some next.envelopes

theorem Archive.Admitted.of_answers {sender kind : String} {item : Value}
    {delivered : Option RequestId} {id : ℕ}
    (ran : Answers (addEnvelope hash sender recipient kind item delivered) archive id next) :
    ∃ envelope, envelope.recipient = recipient ∧ archive.Admitted hash envelope item next := by
  simp only [addEnvelope, putItem, answers_bind, answers_get, answers_answer, answers_modify,
    answers_set, answers_pure, okOr_eq_ok] at ran
  obtain ⟨_, _, ⟨_, _, rfl, rfl, rfl⟩, _, _, ⟨rfl, rfl⟩, _, _, ⟨_, rfl⟩, table, _,
    ⟨inserted, rfl⟩, _, _, rfl, _, rfl⟩ := ran
  exact ⟨_, rfl, rfl, rfl, rfl, rfl, rfl, inserted⟩

namespace Archive.Admitted

variable {envelope : EnvelopeRow Hash} {item : Value}

theorem attachments (admitted : archive.Admitted hash envelope item next) :
    next.attachments = archive.attachments := by
  rw [Archive.attachments, admitted.events, Archive.attachments]

theorem rows (admitted : archive.Admitted hash envelope item next) :
    next.envelopes.rows = archive.envelopes.rows ++ [envelope] :=
  (Table.insert?_eq_some.mp admitted.inserted).2

theorem find? (admitted : archive.Admitted hash envelope item next) {id : ℕ}
    {known : EnvelopeRow Hash} (found : archive.envelopes.find? id = some known) :
    next.envelopes.find? id = some known := by
  rw [Table.find?_insert admitted.inserted, if_neg, found]
  intro same
  have earlier := lt_nextEnvelope (Table.mem_of_find? found)
  rw [Table.key_of_find? found, ← same, admitted.id] at earlier
  exact Nat.lt_irrefl _ earlier

theorem items_of_some (admitted : archive.Admitted hash envelope item next) {itemHash : Hash}
    {kept : Value} (found : archive.items itemHash = some kept) :
    next.items itemHash = some kept := by
  rw [admitted.items]
  exact items_put_of_some found

theorem content (admitted : archive.Admitted hash envelope item next)
    (before : archive.Mailbox hash) {itemHash : Hash} {kept : Value}
    (found : next.items itemHash = some kept) : hash kept = itemHash := by
  rw [admitted.items] at found
  exact content_put before.content found

/-- Attached envelopes keep their recipients. -/
theorem recipientOf (admitted : archive.Admitted hash envelope item next)
    (before : archive.Mailbox hash) {attachment : Attachment Hash}
    (member : attachment ∈ archive.attachments) :
    next.recipientOf attachment.envelope = archive.recipientOf attachment.envelope := by
  obtain ⟨known, found, _⟩ := before.attached attachment member
  rw [Archive.recipientOf, admitted.find? found, Archive.recipientOf, found]

/-- Admitting an ordinary item keeps the order of the mailbox. -/
theorem mailbox (admitted : archive.Admitted hash envelope item next)
    (distinct : Function.Injective hash) (before : archive.Mailbox hash)
    (ordinary : isToolOutput item = false) : next.Mailbox hash where
  content := admitted.content before
  ordered := by
    rw [admitted.rows, List.pairwise_append]
    refine ⟨before.ordered, List.pairwise_singleton _ _, ?_⟩
    intro earlier member later last
    rw [List.mem_singleton.mp last, admitted.id]
    exact lt_nextEnvelope member
  positive := by
    intro other member
    rw [admitted.rows, List.mem_append, List.mem_singleton] at member
    rcases member with old | new
    · exact before.positive other old
    · rw [new, admitted.id]
      exact Nat.succ_pos _
  retained := by
    intro other member
    rw [admitted.rows, List.mem_append, List.mem_singleton] at member
    rcases member with old | new
    · obtain ⟨kept, found, harmless⟩ := before.retained other old
      exact ⟨kept, admitted.items_of_some found, harmless⟩
    · rw [new, admitted.stored, admitted.items]
      exact ⟨item, items_hash distinct before.content, ordinary⟩
  placed := by
    rw [admitted.attachments, admitted.placed]
    exact before.placed
  attached := by
    intro attachment member
    rw [admitted.attachments] at member
    obtain ⟨known, found, delivered, kept⟩ := before.attached attachment member
    refine ⟨known, admitted.find? found, delivered, ?_⟩
    intro other stored
    obtain ⟨value, held, _⟩ := before.retained known (Table.mem_of_find? found)
    have same := Option.some.inj ((admitted.items_of_some held).symm.trans stored)
    exact same ▸ kept value held
  increasing := by
    rw [admitted.attachments]
    refine before.increasing.imp_of_mem ?_
    intro earlier later first second less same
    rw [admitted.recipientOf before first, admitted.recipientOf before second] at same
    exact less same
  positions := by
    rw [admitted.attachments]
    exact before.positions
  behind := by
    intro attachment member other listed undelivered same
    rw [admitted.attachments] at member
    obtain ⟨known, found, _⟩ := before.attached attachment member
    rw [admitted.rows, List.mem_append, List.mem_singleton] at listed
    rcases listed with old | new
    · rw [admitted.recipientOf before member] at same
      exact before.behind attachment member other old undelivered same
    · rw [new, admitted.id, ← Table.key_of_find? found]
      exact lt_nextEnvelope (Table.mem_of_find? found)

end Archive.Admitted

end

/-- Other writers retain items and place them, and leave envelopes and attachments alone. -/
structure Archive.Beside (hash : Value → Hash) (before after : Archive Hash Window) : Prop where
  items : ∀ {itemHash item}, before.items itemHash = some item → after.items itemHash = some item
  content : ∀ {itemHash item}, after.items itemHash = some item →
    before.items itemHash = some item ∨ hash item = itemHash
  placed : ∀ item ∈ before.placed.rows, ∃ kept ∈ after.placed.rows, kept.place = item.place
  envelopes : after.envelopes = before.envelopes
  attachments : after.attachments = before.attachments

theorem Archive.Beside.mailbox {archive next : Archive Hash Window} {hash : Value → Hash}
    (beside : archive.Beside hash next) (before : archive.Mailbox hash) : next.Mailbox hash where
  content found := by
    rcases beside.content found with old | own
    · exact before.content old
    · exact own
  ordered := beside.envelopes ▸ before.ordered
  positive := beside.envelopes ▸ before.positive
  retained := by
    intro envelope member
    rw [beside.envelopes] at member
    obtain ⟨item, found, ordinary⟩ := before.retained envelope member
    exact ⟨item, beside.items found, ordinary⟩
  placed := by
    intro attachment member
    rw [beside.attachments] at member
    obtain ⟨item, inside, same⟩ := before.placed attachment member
    obtain ⟨kept, still, place⟩ := beside.placed item inside
    exact ⟨kept, still, place.trans same⟩
  attached := by
    intro attachment member
    rw [beside.attachments] at member
    obtain ⟨known, found, delivered, kept⟩ := before.attached attachment member
    refine ⟨known, beside.envelopes ▸ found, delivered, ?_⟩
    intro other stored
    obtain ⟨value, held, _⟩ := before.retained known (Table.mem_of_find? found)
    have same := Option.some.inj ((beside.items held).symm.trans stored)
    exact same ▸ kept value held
  increasing := by
    simp only [Archive.recipientOf, beside.envelopes, beside.attachments]
    exact before.increasing
  positions := beside.attachments ▸ before.positions
  behind := by
    simp only [Archive.recipientOf, beside.envelopes, beside.attachments]
    exact before.behind

inductive MailCall where
  | addEnvelope (sender recipient kind : String) (item : Value) (delivered : Option RequestId)
  | appendUnreadEnvelopes (recipient : String) (request : RequestId)

variable [DecidableEq Hash]

/-- The calls on the mailbox, each committed or failing at any point, and other writers.
Admitted items are not tool outputs. -/
inductive MailTransact (hash : Value → Hash) :
    Archive Hash Window → Option MailCall → Archive Hash Window → Prop where
  | added {archive : Archive Hash Window} {sender recipient kind : String} {item : Value}
      {delivered : Option RequestId} (ordinary : isToolOutput item = false) :
      MailTransact hash archive (some (.addEnvelope sender recipient kind item delivered))
        (commit (addEnvelope hash sender recipient kind item delivered) archive).2
  | appended {archive : Archive Hash Window} (recipient : String) (request : RequestId) :
      MailTransact hash archive (some (.appendUnreadEnvelopes recipient request))
        (commit (appendUnreadEnvelopes recipient request) archive).2
  | failed {archive : Archive Hash Window} (call : MailCall) :
      MailTransact hash archive (some call) archive
  | elsewhere {archive next : Archive Hash Window} (beside : archive.Beside hash next) :
      MailTransact hash archive none next

section

variable {first archive next : Archive Hash Window} {hash : Value → Hash} {call : Option MailCall}
  {history : List (Option MailCall)}

theorem MailTransact.mailbox (taken : MailTransact hash archive call next)
    (distinct : Function.Injective hash) (before : archive.Mailbox hash) :
    next.Mailbox hash := by
  cases taken with
  | @added sender recipient kind item delivered ordinary =>
    cases answered : (commit (addEnvelope hash sender recipient kind item delivered) archive).1 with
    | ok id =>
      obtain ⟨_, _, admitted⟩ := Archive.Admitted.of_answers (answers_commit answered)
      exact admitted.mailbox distinct before ordinary
    | error failure =>
      rw [commit_of_error answered]
      exact before
  | appended recipient request =>
    cases answered : (commit (appendUnreadEnvelopes recipient request) archive).1 with
    | ok items =>
      obtain ⟨_, _, _, delivered, _⟩ :=
        Archive.Delivered.of_answers before (answers_commit answered)
      exact delivered.mailbox before
    | error failure =>
      rw [commit_of_error answered]
      exact before
  | failed => exact before
  | elsewhere beside => exact beside.mailbox before

def message : Value :=
  .object [("type", .string "message")]

end

end ExomonadHarness.Store
