import ExomonadHarness.Support.Checked

/-! The rows of a conversation in `chat-timeline.ts`: stored entries, and live output that no
stored entry stands for. Keys are the arrays that `JSON.stringify` prints one to one. -/

namespace ExomonadHarness.Browser.Timeline

inductive OutputOrigin where
  | embedded (run actor incarnation : String)
  | standalone (store actor : String)
  deriving DecidableEq

def originKey : OutputOrigin → List String
  | .embedded run actor incarnation => [run, actor, incarnation]
  | .standalone store actor => [store, actor]

structure ActorOutputOrigin where
  run : String
  nativeActor : String
  incarnation : String
  deriving DecidableEq

def actorOutputKey (origin : ActorOutputOrigin) : List String :=
  [origin.run, origin.nativeActor, origin.incarnation]

@[ext] structure ToolOperation where
  origin : OutputOrigin
  request : String
  call : String
  deriving DecidableEq

def operationKey (operation : ToolOperation) : List String × String × String :=
  (originKey operation.origin, operation.request, operation.call)

structure MessageEntry where
  sequence : String
  requestId : String
  /-- The `type` of an item that is an object, as a string. -/
  itemType : Option String
  providerItemId : Option String
  /-- The operation of the tool call. -/
  tool : Option ToolOperation
  deriving DecidableEq

/-- A message, or an output, a form or an oversized item. -/
inductive UnifiedEntry where
  | message (entry : MessageEntry)
  | display (sequence : String)
  deriving DecidableEq

def UnifiedEntry.sequence : UnifiedEntry → String
  | message entry => entry.sequence
  | display sequence => sequence

structure LiveOutput where
  origin : OutputOrigin
  requestId : String
  itemId : String
  channel : String
  index : ℕ
  version : String
  deriving DecidableEq

inductive RowKey where
  | modelItem (origin : List String) (requestId itemId : String)
  | publication (origin : List String) (sequence : String)
  deriving DecidableEq

inductive TimelineRow where
  | entry (key : RowKey) (entry : UnifiedEntry)
  | live (key : RowKey) (live : List LiveOutput)
  | activity (key : RowKey) (entry : MessageEntry) (results : List MessageEntry)
  | result (key : RowKey) (entry : MessageEntry) (invocationKey : Option RowKey)
      (invocation : Option MessageEntry)
  deriving DecidableEq

def TimelineRow.key : TimelineRow → RowKey
  | entry key _ | live key _ | activity key _ _ | result key _ _ _ => key

inductive ToolKind where
  | invocation | result
  deriving DecidableEq

def toolKind (entry : MessageEntry) : Option ToolKind :=
  match entry.itemType with
  | some "function_call" | some "custom_tool_call" => some .invocation
  | some "function_call_output" | some "custom_tool_call_output" => some .result
  | _ => none

def liveMessageKey (output : LiveOutput) : RowKey :=
  .modelItem (originKey output.origin) output.requestId output.itemId

/-- The provider item of a message, unless it is empty. -/
def storedMessageKey (origin : ActorOutputOrigin) (entry : MessageEntry) :
    Option (List String × String × String) :=
  (entry.providerItemId.filter (· ≠ "")).map fun id => (actorOutputKey origin, entry.requestId, id)

abbrev Groups := List (RowKey × List LiveOutput)

/-- `groups.set` of one more output. -/
def addLive (groups : Groups) (output : LiveOutput) : Groups :=
  let key := liveMessageKey output
  if groups.any (·.1 = key) then
    groups.map fun group => if group.1 = key then (key, group.2 ++ [output]) else group
  else groups ++ [(key, [output])]

def selected (modelOrigin : Option OutputOrigin) (output : LiveOutput) : Bool :=
  modelOrigin.any fun model => originKey output.origin = originKey model

def groupLive (modelOrigin : Option OutputOrigin) (live : List LiveOutput) : Groups :=
  (live.filter (selected modelOrigin)).foldl addLive []

def messages (entries : List UnifiedEntry) : List MessageEntry :=
  entries.filterMap fun
    | .message entry => some entry
    | .display _ => none

/-- A projection: what it is given. `earlier` compares versions and then output keys. -/
structure Projection where
  origin : ActorOutputOrigin
  entries : List UnifiedEntry
  live : List LiveOutput
  modelOrigin : Option OutputOrigin
  earlier : LiveOutput → LiveOutput → Bool

namespace Projection

variable (view : Projection)

def groups : Groups := groupLive view.modelOrigin view.live

def providerCount (key : List String × String × String) : ℕ :=
  (messages view.entries).countP (storedMessageKey view.origin · = some key)

/-- The item of a message, if no other message has it. -/
def unambiguous (entry : MessageEntry) : Bool :=
  (storedMessageKey view.origin entry).any fun key => view.providerCount key = 1

def operates (kind : ToolKind) (operation : ToolOperation) (entry : MessageEntry) : Bool :=
  toolKind entry = some kind &&
    entry.tool.any fun other => operationKey other = operationKey operation

/-- The last invocation of an operation. -/
def invocationOf (operation : ToolOperation) : Option MessageEntry :=
  (messages view.entries).reverse.find? (operates .invocation operation)

def resultsOf (operation : ToolOperation) : List MessageEntry :=
  (messages view.entries).filter (operates .result operation)

def candidates (entry : MessageEntry) : Groups :=
  view.groups.filter fun group => group.2.head?.any fun output =>
    selected view.modelOrigin output && output.requestId = entry.requestId &&
      some output.itemId = entry.providerItemId

def matched (entry : MessageEntry) : Option RowKey :=
  if view.unambiguous entry then
    match view.candidates entry with
    | [group] => some group.1
    | _ => none
  else none

def occurrence (sequence : String) : RowKey :=
  .publication (actorOutputKey view.origin) sequence

def messageKey (entry : MessageEntry) : RowKey :=
  match view.modelOrigin, entry.providerItemId with
  | some model, some id =>
    if view.unambiguous entry then .modelItem (originKey model) entry.requestId id
    else view.occurrence entry.sequence
  | _, _ => view.occurrence entry.sequence

def row : UnifiedEntry → TimelineRow
  | .display sequence => .entry (view.occurrence sequence) (.display sequence)
  | .message entry =>
    match toolKind entry with
    | some .invocation =>
      .activity (view.messageKey entry) entry ((entry.tool.map view.resultsOf).getD [])
    | some .result =>
      let invocation := entry.tool.bind view.invocationOf
      .result (view.messageKey entry) entry (invocation.map view.messageKey) invocation
    | none => .entry (view.messageKey entry) (.message entry)

def consumed : List RowKey :=
  (messages view.entries).filterMap view.matched

end Projection

/-! The groups of live output. -/

/-- The groups have the keys of the outputs, and each holds the outputs of its key. -/
structure Grouped (outputs : List LiveOutput) (groups : Groups) : Prop where
  keys : (groups.map Prod.fst).Nodup
  listed : ∀ key, key ∈ groups.map Prod.fst ↔ key ∈ outputs.map liveMessageKey
  members : ∀ group ∈ groups, group.2 = outputs.filter (liveMessageKey · = group.1)

theorem Grouped.add {outputs : List LiveOutput} {groups : Groups} (grouped : Grouped outputs groups)
    (output : LiveOutput) : Grouped (outputs ++ [output]) (addLive groups output) := by
  have any : groups.any (·.1 = liveMessageKey output) = true ↔
      liveMessageKey output ∈ groups.map Prod.fst := by simp
  rw [addLive]
  split
  case isTrue known =>
    have keys : (groups.map fun group => if group.1 = liveMessageKey output then
        (liveMessageKey output, group.2 ++ [output]) else group).map Prod.fst =
          groups.map Prod.fst := by
      rw [List.map_map]
      apply List.map_congr_left
      intro group _
      dsimp only [Function.comp]
      split
      case isTrue same => exact same.symm
      case isFalse => rfl
    refine ⟨keys ▸ grouped.keys, fun key => ?_, fun group member => ?_⟩
    · rw [keys, grouped.listed, List.map_append, List.mem_append]
      refine ⟨.inl, fun either => either.elim id fun last => ?_⟩
      exact List.mem_singleton.mp last ▸ (grouped.listed _).mp (any.mp known)
    · obtain ⟨old, inside, rfl⟩ := List.mem_map.mp member
      split
      case isTrue same => simp [grouped.members old inside, same]
      case isFalse apart => simp [grouped.members old inside, Ne.symm apart]
  case isFalse unknown =>
    rw [any] at unknown
    refine ⟨?_, fun key => ?_, fun group member => ?_⟩
    · rw [List.map_append]
      exact grouped.keys.append (List.nodup_singleton _) (by simpa using unknown)
    · rw [List.map_append, List.map_append, List.mem_append, List.mem_append, grouped.listed]
      rfl
    · rcases List.mem_append.mp member with old | new
      · have apart : liveMessageKey output ≠ group.1 :=
          fun same => unknown (same ▸ List.mem_map_of_mem old)
        simp [grouped.members group old, apart]
      · obtain rfl := List.mem_singleton.mp new
        rw [grouped.listed, List.mem_map, not_exists] at unknown
        have none : outputs.filter (liveMessageKey · = liveMessageKey output) = [] := by
          simpa using fun other inside same => unknown other ⟨inside, same⟩
        simp [none]

theorem grouped_groupLive (modelOrigin : Option OutputOrigin) (live : List LiveOutput) :
    Grouped (live.filter (selected modelOrigin)) (groupLive modelOrigin live) := by
  rw [groupLive]
  induction live.filter (selected modelOrigin) using List.reverseRecOn with
  | nil => exact ⟨.nil, by simp, by simp⟩
  | append_singleton before last ih =>
    rw [List.foldl_concat]
    exact ih.add last

namespace Projection

variable {view : Projection} {entry other : MessageEntry} {model : OutputOrigin} {id : String}

theorem grouped (view : Projection) :
    Grouped (view.live.filter (selected view.modelOrigin)) view.groups :=
  grouped_groupLive view.modelOrigin view.live

theorem mem_group {group : RowKey × List LiveOutput} {output : LiveOutput}
    (listed : group ∈ view.groups) : output ∈ group.2 ↔
      output ∈ view.live.filter (selected view.modelOrigin) ∧ liveMessageKey output = group.1 := by
  rw [view.grouped.members group listed, List.mem_filter, decide_eq_true_eq]

/-- The key that live output of a message would have. -/
def itemKey (model : OutputOrigin) (entry : MessageEntry) (id : String) : RowKey :=
  .modelItem (originKey model) entry.requestId id

theorem group_key {group : RowKey × List LiveOutput} (member : group ∈ view.groups) :
    ∃ output, group.2.head? = some output ∧ output ∈ view.live ∧
      selected view.modelOrigin output = true ∧ liveMessageKey output = group.1 := by
  obtain ⟨first, given, own⟩ :=
    List.mem_map.mp ((view.grouped.listed _).mp (List.mem_map_of_mem member))
  obtain ⟨output, rest, same⟩ :=
    List.exists_cons_of_ne_nil (List.ne_nil_of_mem ((mem_group member).mpr ⟨given, own⟩))
  have inside := (mem_group member).mp (same ▸ List.mem_cons_self)
  obtain ⟨listed, chosen⟩ := List.mem_filter.mp inside.1
  exact ⟨output, by simp [same], listed, chosen, inside.2⟩

/-- The candidates of a message are the groups with its own key. -/
theorem mem_candidates (selects : view.modelOrigin = some model)
    (named : entry.providerItemId = some id) (group : RowKey × List LiveOutput) :
    group ∈ view.candidates entry ↔ group ∈ view.groups ∧ group.1 = itemKey model entry id := by
  rw [candidates, List.mem_filter]
  refine and_congr_right fun member => ?_
  obtain ⟨output, first, -, chosen, key⟩ := group_key member
  rw [first, ← key, Option.any_some, chosen, named, liveMessageKey, itemKey]
  simp only [selected, selects, Option.any_some, decide_eq_true_eq] at chosen
  simp [chosen]

theorem unambiguous_named (alone : view.unambiguous entry = true) :
    ∃ id, entry.providerItemId = some id ∧
      storedMessageKey view.origin entry = some (actorOutputKey view.origin, entry.requestId, id) ∧
      view.providerCount (actorOutputKey view.origin, entry.requestId, id) = 1 := by
  rw [unambiguous, Option.any_eq_true] at alone
  obtain ⟨key, stored, count⟩ := alone
  obtain ⟨id, kept, rfl⟩ := Option.map_eq_some_iff.mp stored
  exact ⟨id, (Option.filter_eq_some_iff.mp kept).1, stored, of_decide_eq_true count⟩

theorem groups_nil (missing : view.modelOrigin = none) : view.groups = [] := by
  have none : view.live.filter (selected view.modelOrigin) = [] := by
    rw [List.filter_eq_nil_iff, missing]
    exact fun _ _ => Bool.false_ne_true
  rw [groups, groupLive, none]
  rfl

theorem eq_singleton {Source Key : Type} {items : List Source} {key : Source → Key} {item : Source}
    (keys : (items.map key).Nodup) (same : ∀ other ∈ items, key other = key item)
    (member : item ∈ items) : items = [item] := by
  cases items with
  | nil => cases member
  | cons first rest =>
    cases rest with
    | nil => rw [List.mem_singleton.mp member]
    | cons second rest =>
      have left := same first (by simp)
      have right := same second (by simp)
      simp [left, right] at keys

/-- A message stands for the live output of its item, if no other message has it. -/
theorem matched_eq_some {key : RowKey} : view.matched entry = some key ↔
    view.unambiguous entry = true ∧ ∃ model id, view.modelOrigin = some model ∧
      entry.providerItemId = some id ∧ key = itemKey model entry id ∧
      key ∈ view.groups.map Prod.fst := by
  rw [matched]
  by_cases alone : view.unambiguous entry = true
  · rw [if_pos alone]
    obtain ⟨id, named, -⟩ := unambiguous_named alone
    cases selects : view.modelOrigin with
    | none => simp [candidates, groups_nil selects]
    | some model =>
      have every := mem_candidates selects named
      have keys : ((view.candidates entry).map Prod.fst).Nodup :=
        view.grouped.keys.sublist (List.filter_sublist.map _)
      constructor
      · intro found
        split at found
        case h_1 group only =>
          obtain rfl := Option.some.inj found
          obtain ⟨listed, same⟩ := (every group).mp (only ▸ List.mem_singleton_self _)
          exact ⟨alone, model, id, rfl, named, same, List.mem_map_of_mem listed⟩
        case h_2 => cases found
      · intro given
        obtain ⟨-, chosen, item, picked, same, equal, listed⟩ := given
        obtain rfl := Option.some.inj picked
        obtain rfl := Option.some.inj (named.symm.trans same)
        obtain ⟨group, inside, own⟩ := List.mem_map.mp listed
        have one : view.candidates entry = [group] := by
          apply eq_singleton keys
          · intro other member
            exact ((every other).mp member).2.trans (own.trans equal).symm
          · exact (every group).mpr ⟨inside, own.trans equal⟩
        simp [one, own]
  · simp [alone]

/-! Row keys. -/

/-- The message stands for the live output. -/
def Absorbs (view : Projection) (entry : MessageEntry) (output : LiveOutput) : Prop :=
  view.matched entry = some (liveMessageKey output)

theorem Absorbs.item {output : LiveOutput} (absorbs : view.Absorbs entry output) :
    (entry.requestId = output.requestId ∧ entry.providerItemId = some output.itemId ∧
      view.unambiguous entry = true) ∧ selected view.modelOrigin output = true := by
  obtain ⟨alone, model, id, selects, named, key, -⟩ := matched_eq_some.mp absorbs
  injection key with origin request item
  exact ⟨⟨request.symm, item ▸ named, alone⟩, by simp [selected, selects, origin]⟩

variable {outputs : List LiveOutput}

end Projection

end ExomonadHarness.Browser.Timeline
