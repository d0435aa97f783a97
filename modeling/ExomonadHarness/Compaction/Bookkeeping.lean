import ExomonadHarness.Compaction.Window

/-! What a compacted window records about where its items come from. -/

namespace ExomonadHarness.Compaction

open Json Checked Layout
open Agents (Effort configurationUpdate)
open Store (Occurrence isConfigurationUpdate)

variable {Hash : Type}

/-- The occurrences of a context belong to its items. -/
structure CompactContext.Aligned (cx : CompactContext Hash) : Prop where
  length : cx.occurrences.length = cx.items.length
  item : ∀ (index : ℕ) (source : Occurrence Hash), cx.occurrences[index]? = some (some source) →
    cx.items[index]? = some source.item

def NewWindow.recorded (window : NewWindow Hash) : List ℕ :=
  window.retained.map Prod.fst ++ window.generated.map Prod.fst

/-- The record of a window built from a context and a response, with the one message the
compactor wrote itself. -/
structure WindowBook (cx : CompactContext Hash) (response : List Value) (written : Value)
    (window : NewWindow Hash) : Prop where
  tools : window.items.filter isToolItem =
    (cx.pendingOccurrences.map Occurrence.item).filter isToolItem
  pending : ∃ before after, window.items =
      before ++ cx.pendingOccurrences.map Occurrence.item ++ after ∧
    (∀ item ∈ before ++ after, isToolItem item = false) ∧
    ∀ place occurrence, cx.pendingOccurrences[place]? = some occurrence →
      (before.length + place, occurrence) ∈ window.retained
  retained : ∀ position occurrence, (position, occurrence) ∈ window.retained →
    window.items[position]? = some occurrence.item
  generated : ∀ position index, (position, index) ∈ window.generated →
    ∃ item, window.items[position]? = some item ∧ response[index]? = some item
  distinct : window.recorded.Nodup
  others : ∀ position item, window.items[position]? = some item → position ∉ window.recorded →
    item = written ∨
    (∃ index : ℕ, cx.items[index]? = some item ∧ cx.occurrences[index]? = some none ∧
      (isUserMessage item = true ∨ standingInstruction item = true)) ∨
    position + 1 = window.items.length
  settings : window.items.getLast? = some (configurationUpdate cx.effort)
  single : ∀ position item, window.items[position]? = some item → position ∉ window.recorded →
    isConfigurationUpdate item = true → position + 1 = window.items.length

abbrev Cell (Hash : Type) := Option (Occurrence Hash) × Value

namespace Draft

def ofCells (cells : List (Cell Hash)) : Draft Hash :=
  ⟨cells.map Prod.snd, owners cells⟩

theorem keep_ofCells (cells : List (Cell Hash)) (source : Option (Occurrence Hash)) (item : Value) :
    (ofCells cells).keep source item = ofCells (cells ++ [(source, item)]) := by
  cases source <;> simp [keep, ofCells, owners, ownersFrom_append, ownersFrom]

theorem push_ofCells (cells : List (Cell Hash)) (item : Value) :
    (ofCells cells).push item = ofCells (cells ++ [(none, item)]) :=
  keep_ofCells cells none item

theorem copy_ofCells (cx : CompactContext Hash) (cells : List (Cell Hash))
    (entries : List (Value × ℕ)) : (ofCells cells).copy cx entries =
      ofCells (cells ++ entries.map fun entry => (cx.occurrences[entry.2]?.join, entry.1)) := by
  induction entries generalizing cells with
  | nil => rw [copy, List.foldl_nil, List.map_nil, List.append_nil]
  | cons entry entries ih =>
    have tail := ih (cells ++ [(cx.occurrences[entry.2]?.join, entry.1)])
    rw [copy, List.foldl_cons, keep_ofCells, ← copy, tail, List.map_cons, List.append_assoc,
      List.singleton_append]

theorem carry_ofCells (cells : List (Cell Hash)) (pending : List (Occurrence Hash)) :
    (ofCells cells).carry pending =
      ofCells (cells ++ pending.map fun occurrence => (some occurrence, occurrence.item)) := by
  induction pending generalizing cells with
  | nil => rw [carry, List.foldl_nil, List.map_nil, List.append_nil]
  | cons first pending ih =>
    have tail := ih (cells ++ [(some first, first.item)])
    rw [carry, List.foldl_cons, keep_ofCells, ← carry, tail, List.map_cons, List.append_assoc,
      List.singleton_append]

end Draft

/-- The cells of a window: those in front, the pending operations and the settings item. -/
def windowCells (cx : CompactContext Hash) (front : List (Cell Hash)) : List (Cell Hash) :=
  front ++ (cx.pendingOccurrences.map fun occurrence => (some occurrence, occurrence.item)) ++
    [(none, configurationUpdate cx.effort)]

/-- Where a cell in front of the pending operations comes from. -/
inductive Placed (cx : CompactContext Hash) (response : List Value) (written : Value)
    (generated : List (ℕ × ℕ)) : ℕ → Cell Hash → Prop where
  | written (position : ℕ) : Placed cx response written generated position (none, written)
  | reply {position index : ℕ} {item : Value} (listed : (position, index) ∈ generated)
      (kept : serverKeeps item = true) :
      Placed cx response written generated position (none, item)
  | copied {position index : ℕ} {item : Value} (found : cx.items[index]? = some item)
      (kind : isUserMessage item = true ∨ standingInstruction item = true) :
      Placed cx response written generated position (cx.occurrences[index]?.join, item)

theorem typeOf_message_of_kind {item : Value}
    (kind : isUserMessage item = true ∨ standingInstruction item = true) :
    typeOf item = some "message" := by
  rcases kind with user | standing
  · simp only [isUserMessage, Bool.and_eq_true, decide_eq_true_eq] at user
    exact user.1
  · simp only [standingInstruction, Bool.and_eq_true, decide_eq_true_eq] at standing
    exact standing.1

theorem isToolItem_message {item : Value} (kind : typeOf item = some "message") :
    isToolItem item = false := by
  simp [isToolItem, kind]

theorem isToolItem_configurationUpdate (effort : Effort) :
    isToolItem (configurationUpdate effort) = false := rfl

theorem isConfigurationUpdate_message {item : Value} (kind : typeOf item = some "message") :
    isConfigurationUpdate item = false := by
  have read : (item.get? "type").bind Value.asStr = some "message" := kind
  simp [isConfigurationUpdate, read]

section

variable {cx : CompactContext Hash} {response : List Value} {written : Value}
  {generated : List (ℕ × ℕ)} {position : ℕ} {cell : Cell Hash}

theorem Placed.plain (authored : typeOf written = some "message")
    (placed : Placed cx response written generated position cell) : isToolItem cell.2 = false := by
  cases placed with
  | written => exact isToolItem_message authored
  | reply listed kept =>
    simp only [serverKeeps, Bool.and_eq_true, Bool.not_eq_true'] at kept
    exact kept.2
  | copied found kind => exact isToolItem_message (typeOf_message_of_kind kind)

theorem Placed.owned (aligned : cx.Aligned)
    (placed : Placed cx response written generated position cell) {source : Occurrence Hash}
    (owned : cell.1 = some source) : cell.2 = source.item := by
  cases placed with
  | written => cases owned
  | reply => cases owned
  | @copied index item found kind =>
    have present : cx.occurrences[index]? = some (some source) := Option.join_eq_some_iff.mp owned
    exact Option.some.inj (found.symm.trans (aligned.item index source present))

theorem Placed.unowned (aligned : cx.Aligned)
    (placed : Placed cx response written generated position cell) (unowned : cell.1 = none)
    (unlisted : position ∉ generated.map Prod.fst) :
    cell.2 = written ∨ ∃ index : ℕ, cx.items[index]? = some cell.2 ∧
      cx.occurrences[index]? = some none ∧
      (isUserMessage cell.2 = true ∨ standingInstruction cell.2 = true) := by
  cases placed with
  | written => exact .inl rfl
  | reply listed => exact absurd (List.mem_map_of_mem listed) unlisted
  | @copied index item found kind =>
    refine .inr ⟨index, found, ?_, kind⟩
    obtain ⟨bound, -⟩ := List.getElem?_eq_some_iff.mp found
    rw [← aligned.length] at bound
    have present := List.getElem?_eq_getElem bound
    have absent : cx.occurrences[index]?.join = none := unowned
    rw [present] at absent ⊢
    exact congrArg some absent

theorem windowCells_cases {front : List (Cell Hash)}
    (read : (windowCells cx front)[position]? = some cell) :
    front[position]? = some cell ∨ (∃ occurrence, cell = (some occurrence, occurrence.item)) ∨
      cell = (none, configurationUpdate cx.effort) ∧ position + 1 = (windowCells cx front).length := by
  rcases append_place read with inside | ⟨place, rfl, last⟩
  · rcases append_place inside with inside | ⟨place, -, pending⟩
    · exact .inl inside
    · rw [List.getElem?_map, Option.map_eq_some_iff] at pending
      obtain ⟨occurrence, -, rfl⟩ := pending
      exact .inr (.inl ⟨occurrence, rfl⟩)
  · obtain ⟨rfl, rfl⟩ : place = 0 ∧ (none, configurationUpdate cx.effort) = cell := by
      simpa [List.getElem?_singleton] using last
    exact .inr (.inr ⟨rfl, by simp [windowCells]; omega⟩)

theorem windowCells_front {front : List (Cell Hash)} (read : front[position]? = some cell) :
    (windowCells cx front)[position]? = some cell := by
  obtain ⟨bound, -⟩ := List.getElem?_eq_some_iff.mp read
  rw [windowCells, List.append_assoc, List.getElem?_append_left bound, read]

theorem windowCells_pending (front : List (Cell Hash)) {place : ℕ} {occurrence : Occurrence Hash}
    (read : cx.pendingOccurrences[place]? = some occurrence) :
    (windowCells cx front)[front.length + place]? = some (some occurrence, occurrence.item) := by
  obtain ⟨bound, -⟩ := List.getElem?_eq_some_iff.mp read
  have inside : place < (cx.pendingOccurrences.map fun occurrence =>
      (some occurrence, occurrence.item)).length := by simpa using bound
  rw [windowCells, List.append_assoc, List.getElem?_append_right (Nat.le_add_right _ _),
    Nat.add_sub_cancel_left, List.getElem?_append_left inside, List.getElem?_map, read]
  rfl

end

/-- A window laid out in cells. -/
structure Laid (cx : CompactContext Hash) (response : List Value) (written : Value)
    (front : List (Cell Hash)) (window : NewWindow Hash) : Prop where
  items : window.items = (windowCells cx front).map Prod.snd
  retained : window.retained = owners (windowCells cx front)
  authored : typeOf written = some "message"
  placed : ∀ position cell, front[position]? = some cell →
    Placed cx response written window.generated position cell
  replies : ∀ position index, (position, index) ∈ window.generated →
    ∃ item, front[position]? = some (none, item) ∧ response[index]? = some item
  distinct : (window.generated.map Prod.fst).Nodup

namespace Laid

variable {cx : CompactContext Hash} {response : List Value} {written : Value}
  {front : List (Cell Hash)} {window : NewWindow Hash} {position : ℕ} {item : Value}

theorem plain (laid : Laid cx response written front window) :
    ∀ item ∈ front.map Prod.snd ++ [configurationUpdate cx.effort], isToolItem item = false := by
  intro item listed
  rcases List.mem_append.mp listed with listed | last
  · obtain ⟨cell, member, rfl⟩ := List.mem_map.mp listed
    obtain ⟨position, read⟩ := List.getElem?_of_mem member
    exact (laid.placed position cell read).plain laid.authored
  · rw [List.mem_singleton.mp last]
    exact isToolItem_configurationUpdate cx.effort

theorem parts (laid : Laid cx response written front window) : window.items =
    front.map Prod.snd ++ cx.pendingOccurrences.map Occurrence.item ++
      [configurationUpdate cx.effort] := by
  rw [laid.items, windowCells]
  simp

theorem mem_retained (laid : Laid cx response written front window)
    {occurrence : Occurrence Hash} : (position, occurrence) ∈ window.retained ↔
      ∃ item, (windowCells cx front)[position]? = some (some occurrence, item) := by
  rw [laid.retained, mem_owners]

/-- A position without a record is in front and unowned, or it is the last. -/
theorem unrecorded (laid : Laid cx response written front window)
    (read : window.items[position]? = some item) (outside : position ∉ window.recorded) :
    front[position]? = some (none, item) ∨ position + 1 = window.items.length := by
  rw [laid.items, List.getElem?_map, Option.map_eq_some_iff] at read
  obtain ⟨⟨owner, content⟩, read, rfl⟩ := read
  cases owner with
  | some owner =>
    have member := laid.mem_retained.mpr ⟨content, read⟩
    exact absurd (List.mem_append_left _ (List.mem_map_of_mem member)) outside
  | none =>
    rcases windowCells_cases read with read | ⟨_, same⟩ | ⟨-, last⟩
    · exact .inl read
    · cases same
    · rw [laid.items, List.length_map]
      exact .inr last

theorem others (laid : Laid cx response written front window) (aligned : cx.Aligned)
    (read : window.items[position]? = some item) (outside : position ∉ window.recorded) :
    (item = written ∨ ∃ index : ℕ, cx.items[index]? = some item ∧
      cx.occurrences[index]? = some none ∧
      (isUserMessage item = true ∨ standingInstruction item = true)) ∨
    position + 1 = window.items.length := by
  refine (laid.unrecorded read outside).imp_left fun read => ?_
  have unlisted : position ∉ window.generated.map Prod.fst :=
    fun listed => outside (List.mem_append_right _ listed)
  exact (laid.placed position _ read).unowned aligned rfl unlisted

theorem tools (laid : Laid cx response written front window) : window.items.filter isToolItem =
    (cx.pendingOccurrences.map Occurrence.item).filter isToolItem := by
  have plain := laid.plain
  have none (items : List Value) (among : ∀ item ∈ items, isToolItem item = false) :
      items.filter isToolItem = [] :=
    List.filter_eq_nil_iff.mpr fun item listed => by simp [among item listed]
  rw [laid.parts, List.filter_append, List.filter_append,
    none _ fun item listed => plain item (List.mem_append_left _ listed),
    none _ fun item listed => plain item (List.mem_append_right _ listed), List.nil_append,
    List.append_nil]

theorem recorded_nodup (laid : Laid cx response written front window) : window.recorded.Nodup := by
  rw [NewWindow.recorded, List.nodup_append]
  refine ⟨laid.retained ▸ owners_nodup _, laid.distinct, fun left retained right generated => ?_⟩
  obtain ⟨⟨position, occurrence⟩, member, rfl⟩ := List.mem_map.mp retained
  obtain ⟨⟨other, index⟩, listed, rfl⟩ := List.mem_map.mp generated
  intro same
  have same : position = other := same
  obtain ⟨item, owned⟩ := laid.mem_retained.mp member
  obtain ⟨reply, unowned, -⟩ := laid.replies _ _ listed
  rw [same, windowCells_front unowned] at owned
  cases owned

theorem retained_item (laid : Laid cx response written front window) (aligned : cx.Aligned)
    {occurrence : Occurrence Hash} (member : (position, occurrence) ∈ window.retained) :
    window.items[position]? = some occurrence.item := by
  obtain ⟨item, read⟩ := laid.mem_retained.mp member
  have same : item = occurrence.item := by
    rcases windowCells_cases read with front | ⟨source, same⟩ | ⟨same, -⟩
    · exact (laid.placed position _ front).owned aligned rfl
    · cases same
      rfl
    · cases same
  rw [laid.items, List.getElem?_map, read, ← same]
  rfl

theorem single (laid : Laid cx response written front window) (aligned : cx.Aligned)
    (read : window.items[position]? = some item) (outside : position ∉ window.recorded)
    (update : isConfigurationUpdate item = true) : position + 1 = window.items.length := by
  rcases laid.others aligned read outside with (rfl | ⟨index, -, -, kind⟩) | last
  · simp [isConfigurationUpdate_message laid.authored] at update
  · simp [isConfigurationUpdate_message (typeOf_message_of_kind kind)] at update
  · exact last

/-- The record of a window from its cells. -/
theorem book (laid : Laid cx response written front window) (aligned : cx.Aligned) :
    WindowBook cx response written window := by
  refine ⟨laid.tools, ⟨_, _, laid.parts, laid.plain, ?_⟩, ?_, ?_, laid.recorded_nodup, ?_, ?_, ?_⟩
  · intro place occurrence read
    rw [List.length_map]
    exact laid.mem_retained.mpr ⟨_, windowCells_pending front read⟩
  · exact fun position occurrence member => laid.retained_item aligned member
  · intro position index listed
    obtain ⟨item, read, reply⟩ := laid.replies position index listed
    refine ⟨item, ?_, reply⟩
    rw [laid.items, List.getElem?_map, windowCells_front read]
    rfl
  · intro position item read outside
    exact or_assoc.mp (laid.others aligned read outside)
  · rw [laid.parts, List.getLast?_concat]
  · exact fun position item read outside update => laid.single aligned read outside update

end Laid

section

variable {cx : CompactContext Hash} {response : List Value} {written : Value}
  {generated : List (ℕ × ℕ)} {window : NewWindow Hash}

/-- The cells of items copied from the context. -/
def copiedCells (cx : CompactContext Hash) (entries : List (Value × ℕ)) : List (Cell Hash) :=
  entries.map fun entry => (cx.occurrences[entry.2]?.join, entry.1)

theorem placed_copied {entries : List (Value × ℕ)} {position place : ℕ} {cell : Cell Hash}
    (listed : ∀ entry ∈ entries, entry ∈ cx.items.zipIdx ∧
      (isUserMessage entry.1 = true ∨ standingInstruction entry.1 = true))
    (read : (copiedCells cx entries)[place]? = some cell) :
    Placed cx response written generated position cell := by
  rw [copiedCells, List.getElem?_map, Option.map_eq_some_iff] at read
  obtain ⟨entry, read, rfl⟩ := read
  obtain ⟨member, kind⟩ := listed entry (List.mem_of_getElem? read)
  exact .copied (List.mem_zipIdx_iff_getElem?.mp member) kind

theorem userMessages_listed : ∀ entry ∈ userMessages cx, entry ∈ cx.items.zipIdx ∧
    (isUserMessage entry.1 = true ∨ standingInstruction entry.1 = true) := by
  intro entry listed
  obtain ⟨member, user⟩ := List.mem_filter.mp listed
  exact ⟨member, .inl user⟩

theorem recentMessages_sublist (double : F64 → String) (count bytes : ℕ)
    (entries : List (Value × ℕ)) : (recentMessages double count bytes entries).Sublist entries := by
  induction entries generalizing count bytes with
  | nil => exact .slnil
  | cons entry older ih =>
    rw [recentMessages]
    split
    · exact List.nil_sublist _
    · exact (ih _ _).cons_cons entry

theorem owners_unowned (entries : List (Value × ℕ)) :
    owners (entries.map fun entry => ((none, entry.1) : Cell Hash)) = [] := by
  have from_start (start : ℕ) :
      ownersFrom start (entries.map fun entry => ((none, entry.1) : Cell Hash)) = [] := by
    induction entries generalizing start with
    | nil => rfl
    | cons entry entries ih => exact ih (start + 1)
  exact from_start 0

theorem owners_concat_unowned (cells : List (Cell Hash)) (item : Value) :
    owners (cells ++ [(none, item)]) = owners cells := by
  simp [owners, ownersFrom_append, ownersFrom]

theorem owners_cons_unowned (item : Value) (cells : List (Cell Hash)) :
    owners ((none, item) :: cells) = (owners cells).map fun pair => (pair.1 + 1, pair.2) :=
  ownersFrom_succ 0 cells

/-- The items of a response the server compactor keeps, with their indices. -/
def keptReplies (response : List Value) : List (Value × ℕ) :=
  response.zipIdx.filter fun entry => serverKeeps entry.1

def serverFront (cx : CompactContext Hash) (response : List Value) : List (Cell Hash) :=
  (none, contextMessage) :: ((keptReplies response).map fun entry => (none, entry.1)) ++
    copiedCells cx (userMessages cx)

/-- The draft of the server compactor, before its message is put in front. -/
theorem server_draft (cx : CompactContext Hash) (response : List Value) :
    (Draft.copy cx ⟨(keptReplies response).map Prod.fst, []⟩ (userMessages cx)).carry
      cx.pendingOccurrences =
    Draft.ofCells (((keptReplies response).map fun entry => (none, entry.1)) ++
      copiedCells cx (userMessages cx) ++
      cx.pendingOccurrences.map fun occurrence => (some occurrence, occurrence.item)) := by
  have start : (⟨(keptReplies response).map Prod.fst, []⟩ : Draft Hash) =
      Draft.ofCells ((keptReplies response).map fun entry => (none, entry.1)) := by
    rw [Draft.ofCells, owners_unowned, List.map_map]
    rfl
  rw [start, Draft.copy_ofCells, Draft.carry_ofCells, copiedCells]

theorem server_eq_ok (compacted : server cx = .ok window) :
    ∃ input response, cx.serverCompact input = .ok response ∧
      window.items = (windowCells cx (serverFront cx response)).map Prod.snd ∧
      window.retained = owners (windowCells cx (serverFront cx response)) ∧
      window.generated = (keptReplies response).zipIdx.map fun entry => (entry.2 + 1, entry.1.2) := by
  simp only [server, bind_eq_ok, pure_eq_ok] at compacted
  obtain ⟨input, -, response, answered, rfl⟩ := compacted
  have draft := server_draft cx response
  simp only [keptReplies] at draft
  refine ⟨input, response, answered, ?_, ?_, rfl⟩
  · simp only [draft, Draft.ofCells, windowCells, serverFront, keptReplies, List.map_append,
      List.map_cons, List.map_nil, List.cons_append]
  · simp only [draft, Draft.ofCells, windowCells, serverFront, keptReplies, owners_concat_unowned,
      List.cons_append, owners_cons_unowned]

theorem mem_generated {position index : ℕ} :
    (position, index) ∈ (keptReplies response).zipIdx.map (fun entry => (entry.2 + 1, entry.1.2)) ↔
      ∃ place item, position = place + 1 ∧ (keptReplies response)[place]? = some (item, index) := by
  simp only [List.mem_map, Prod.exists, Prod.mk.injEq, List.mk_mem_zipIdx_iff_getElem?]
  constructor
  · intro listed
    obtain ⟨item, _, place, read, rfl, rfl⟩ := listed
    exact ⟨place, item, rfl, read⟩
  · intro listed
    obtain ⟨place, item, rfl, read⟩ := listed
    exact ⟨item, index, place, read, rfl, rfl⟩

theorem server_laid (compacted : server cx = .ok window) :
    ∃ input response, cx.serverCompact input = .ok response ∧
      Laid cx response contextMessage (serverFront cx response) window := by
  obtain ⟨input, response, answered, items, retained, generated⟩ := server_eq_ok compacted
  refine ⟨input, response, answered, items, retained, rfl, ?_, ?_, ?_⟩
  · intro position cell read
    rcases append_place read with early | ⟨place, -, late⟩
    · cases position with
      | zero =>
        cases early
        exact .written 0
      | succ place =>
        rw [List.getElem?_cons_succ, List.getElem?_map, Option.map_eq_some_iff] at early
        obtain ⟨⟨item, index⟩, found, rfl⟩ := early
        have kept := (List.mem_filter.mp (List.mem_of_getElem? found)).2
        have listed : (place + 1, index) ∈ window.generated := by
          rw [generated]
          exact mem_generated.mpr ⟨place, item, rfl, found⟩
        exact .reply listed kept
    · exact placed_copied userMessages_listed late
  · intro position index listed
    rw [generated] at listed
    obtain ⟨place, item, rfl, read⟩ := mem_generated.mp listed
    have member := (List.mem_filter.mp (List.mem_of_getElem? read)).1
    refine ⟨item, ?_, List.mem_zipIdx_iff_getElem?.mp member⟩
    have cell : ((keptReplies response).map fun entry => ((none, entry.1) : Cell Hash))[place]? =
        some (none, item) := by
      rw [List.getElem?_map, read]
      rfl
    obtain ⟨bound, -⟩ := List.getElem?_eq_some_iff.mp cell
    rw [serverFront, List.cons_append, List.getElem?_cons_succ, List.getElem?_append_left bound, cell]
  · have numbers : window.generated.map Prod.fst =
        ((keptReplies response).zipIdx.map Prod.snd).map (· + 1) := by
      rw [generated, List.map_map, List.map_map]
      rfl
    rw [numbers, List.zipIdx_map_snd]
    exact (List.nodup_range' ..).map (add_left_injective 1)

def plainFront (cx : CompactContext Hash) (double : F64 → String) (summary : String) :
    List (Cell Hash) :=
  copiedCells cx (cx.items.zipIdx.filter fun entry => lasting entry.1) ++
    [(none, handoff summary)] ++
    copiedCells cx (recentMessages double 0 0 (userMessages cx).reverse).reverse

theorem plainText_draft (cx : CompactContext Hash) (double : F64 → String) (summary : String) :
    (((Draft.copy cx ⟨[], []⟩ (cx.items.zipIdx.filter fun entry => lasting entry.1)).push
      (handoff summary)).copy cx (recentMessages double 0 0 (userMessages cx).reverse).reverse).carry
        cx.pendingOccurrences =
    Draft.ofCells (plainFront cx double summary ++
      cx.pendingOccurrences.map fun occurrence => (some occurrence, occurrence.item)) := by
  have start : (⟨[], []⟩ : Draft Hash) = Draft.ofCells [] := rfl
  rw [start, Draft.copy_ofCells, Draft.push_ofCells, Draft.copy_ofCells, Draft.carry_ofCells,
    plainFront, copiedCells, copiedCells, List.nil_append]

theorem plainText_laid {double : F64 → String} (compacted : plainText double cx = .ok window) :
    ∃ input response summary, cx.textTurn input = .ok response ∧ summaryOf response = .ok summary ∧
      Laid cx response (handoff summary) (plainFront cx double summary) window := by
  simp only [plainText, bind_eq_ok, pure_eq_ok] at compacted
  obtain ⟨input, -, response, answered, summary, read, rfl⟩ := compacted
  refine ⟨input, response, summary, answered, read, ?_, ?_, rfl, ?_, ?_, .nil⟩
  · simp only [plainText_draft, Draft.ofCells, windowCells, List.map_append, List.map_cons,
      List.map_nil]
  · simp only [plainText_draft, Draft.ofCells, windowCells, owners_concat_unowned]
  · intro position cell read
    rcases append_place read with early | ⟨place, -, late⟩
    · rcases append_place early with first | ⟨place, -, middle⟩
      · refine placed_copied (fun entry listed => ?_) first
        obtain ⟨member, kind⟩ := List.mem_filter.mp listed
        simp only [lasting, Bool.and_eq_true] at kind
        exact ⟨member, .inr kind.1⟩
      · rw [List.mem_singleton.mp (List.mem_of_getElem? middle)]
        exact .written _
    · refine placed_copied (fun entry listed => ?_) late
      have recent := (recentMessages_sublist double 0 0 _).subset (List.mem_reverse.mp listed)
      exact userMessages_listed entry (List.mem_reverse.mp recent)
  · intro position index listed
    cases listed

/-- Both compactors record truthfully where the items of their window come from. -/
theorem window_book (double : F64 → String) (aligned : cx.Aligned) :
    (∀ window, server cx = .ok window → ∃ input response, cx.serverCompact input = .ok response ∧
      WindowBook cx response contextMessage window) ∧
    ∀ window, plainText double cx = .ok window → ∃ input response summary,
      cx.textTurn input = .ok response ∧ summaryOf response = .ok summary ∧
      WindowBook cx response (handoff summary) window := by
  refine ⟨fun window compacted => ?_, fun window compacted => ?_⟩
  · obtain ⟨input, response, answered, laid⟩ := server_laid compacted
    exact ⟨input, response, answered, laid.book aligned⟩
  · obtain ⟨input, response, summary, answered, read, laid⟩ := plainText_laid compacted
    exact ⟨input, response, summary, answered, read, laid.book aligned⟩

/-- A stored item. -/
def storedAt (position : ℕ) (item : Value) : Occurrence ℕ where
  request := "r"
  position := position
  hash := position
  item := item
  outputOperation := none
  origin := ⟨"r", position, position⟩
  sources := []
  note := false
  overlays := []

/-- A stored greeting, one that is not stored, and a call that waits for its output. -/
theorem window_book_of_greeting :
    let greeting := storedAt 0 (message "user" "hello")
    let call := storedAt 2 (.object [("type", .string "function_call")])
    let cx : CompactContext ℕ :=
      { items := [greeting.item, message "user" "well?", call.item], pendingCalls := [call.item]
        pendingPositions := [2], pendingOccurrences := [call]
        occurrences := [some greeting, none, some call], effort := .low
        serverCompact := fun _ => .ok [message "assistant" "hi"]
        textTurn := fun _ => .ok [message "assistant" "hi"] }
    (∃ window, server cx = .ok window ∧ window.retained = [(2, greeting), (4, call)] ∧
      window.generated = [(1, 0)] ∧ ∃ input response, cx.serverCompact input = .ok response ∧
        WindowBook cx response contextMessage window) ∧
    ∃ window, plainText (fun _ => "0.0") cx = .ok window ∧
      window.retained = [(1, greeting), (3, call)] ∧ ∃ input response summary,
        cx.textTurn input = .ok response ∧ summaryOf response = .ok summary ∧
        WindowBook cx response (handoff summary) window := by
  intro greeting call cx
  have aligned : cx.Aligned := by
    refine ⟨rfl, fun index source read => ?_⟩
    rcases index with _ | _ | _ | index
    · cases read
      rfl
    · cases read
    · cases read
      rfl
    · cases read
  obtain ⟨first, second⟩ := window_book (fun _ => "0.0") aligned
  exact ⟨⟨_, rfl, rfl, rfl, first _ rfl⟩, ⟨_, rfl, rfl, second _ rfl⟩⟩

end

end ExomonadHarness.Compaction
