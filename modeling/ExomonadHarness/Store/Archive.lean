import ExomonadHarness.Finalize
import ExomonadHarness.Store.Rounds

/-! The tables that retain conversation items: the items themselves, the requests that
hold them, the provider responses they came from and the envelopes that delivered them. -/

namespace ExomonadHarness.Store

open Json Transport Checked Transaction
open Scheduler (OperationId)

structure Origin (Hash : Type) where
  request : RequestId
  position : ℕ
  hash : Hash
  deriving DecidableEq

/-- A reference names the origins of the items it stands for. -/
abbrev ContextReference (Hash : Type) := List (Origin Hash)

inductive ContextTextSelector where
  | messageText (part : ℕ)
  | toolResultText
  | reasoningText (part : ℕ)
  deriving DecidableEq

structure ContextTextOverlay where
  selector : ContextTextSelector
  text : String
  deriving DecidableEq

/-- One row of `request_items`; a copied row keeps the place it was copied from. -/
structure RequestItem (Hash : Type) where
  request : RequestId
  position : ℕ
  hash : Hash
  source : Option (RequestId × ℕ) := none
  sources : List (ContextReference Hash) := []
  note : Bool := false
  overlays : List ContextTextOverlay := []
  outputOperation : Option OperationId := none
  deriving DecidableEq

variable {Hash : Type}

def RequestItem.place (row : RequestItem Hash) : RequestId × ℕ :=
  (row.request, row.position)

inductive ProviderResponseState where
  | streaming | completed | interrupted | failed | rejected
  deriving DecidableEq

inductive ProviderRequestPurpose where
  | inference | serverCompaction | textSummary
  deriving DecidableEq

inductive ResponsesProtocol where
  | standard
  deriving DecidableEq

/-- The sealed request of a provider response. `Window` holds the fields that are only
compared: the input and output references, the instructions, the model, the effort, the
session, the cache comparison and the native transport. -/
structure IssuedRequestRecord (Hash Window : Type) where
  purpose : Option ProviderRequestPurpose
  tools : Hash
  toolsAllowed : Option (List String)
  window : Window
  deriving DecidableEq

structure ReplayResponse (Hash : Type) where
  responseId : String
  items : List Hash
  usage : Usage
  deriving DecidableEq

inductive CompletionMarker (Hash : Type) where
  | finalize (origin : Origin Hash) (schema : Hash)
  deriving DecidableEq

structure ReplayRecord (Hash Window : Type) where
  format : ℕ
  request : RequestId
  issued : IssuedRequestRecord Hash Window
  response : ReplayResponse Hash
  completion : Option (CompletionMarker Hash)
  providerContract : Option (ResponsesRoute × ResponsesProtocol)
  deriving DecidableEq

/-- One row of `provider_requests`. -/
structure ProviderRequest (Hash Window : Type) where
  request : RequestId
  issued : IssuedRequestRecord Hash Window
  contract : ResponsesRoute × ResponsesProtocol
  state : ProviderResponseState
  responseId : Option String
  completionEvent : Option ℕ
  deriving DecidableEq

/-- One row of `provider_items`: the provider's position of an item and its place. -/
structure ProviderItem (Hash : Type) where
  request : RequestId
  index : ℕ
  position : ℕ
  hash : Hash
  deriving DecidableEq

def ProviderItem.key (row : ProviderItem Hash) : RequestId × ℕ :=
  (row.request, row.index)

/-- The rows of `events` that the modelled operations write. -/
inductive Event (Hash Window : Type) where
  | modelTurn (request : RequestId) (record : ReplayRecord Hash Window)
  | chatMessage (request : RequestId) (position : ℕ) (hash : Hash) (envelope : Option ℕ)
  | other (request : Option RequestId) (kind payload : String)
  deriving DecidableEq

/-- One row of `envelopes`. -/
structure EnvelopeRow (Hash : Type) where
  id : ℕ
  sender : String
  recipient : String
  kind : String
  hash : Hash
  delivered : Option RequestId
  deriving DecidableEq

inductive ClaimState where
  | pending | settled | interrupted
  deriving DecidableEq

/-- One row of `claims`: the standing of an operation on one request. -/
structure ClaimRow (Hash : Type) where
  operation : OperationId
  request : RequestId
  state : ClaimState
  output : Option Hash := none
  terminal : Option String := none
  deriving DecidableEq

def ClaimRow.key (row : ClaimRow Hash) : OperationId × RequestId :=
  (row.operation, row.request)

/-- `compacted` marks the requests whose history starts with their own items. -/
structure Archive (Hash Window : Type) where
  storeId : String
  bindings : Table Binding.actor
  items : Hash → Option Value
  requests : Table RequestRow.id
  placed : Table (@RequestItem.place Hash)
  issued : Table (@ProviderRequest.request Hash Window)
  owned : Table (@ProviderItem.key Hash)
  events : List (Event Hash Window)
  envelopes : Table (@EnvelopeRow.id Hash)
  claims : Table (@ClaimRow.key Hash)
  compacted : RequestId → Bool

def isConfigurationUpdate (item : Value) : Bool :=
  (item.get? "type").bind Value.asStr = some "configuration_update"

def isToolOutput (item : Value) : Bool :=
  (item.index "type").asStr = some "function_call_output" ||
    (item.index "type").asStr = some "custom_tool_call_output"

/-- Ordinary writers never publish the output of an operation. -/
def requireOrdinary (item : Value) (request : RequestId) (position : ℕ) :
    Except StoreError PUnit :=
  require (!isToolOutput item) (.unboundOutputPublication request position)

namespace Archive

variable {Window : Type}

/-- The position after the last item of a request. -/
def nextPosition (archive : Archive Hash Window) (request : RequestId) : ℕ :=
  ((archive.placed.rows.filter (·.request = request)).map (·.position + 1)).foldr max 0

section

variable {archive : Archive Hash Window} {request : RequestId}

/-- The next position is after every item of the request. -/
theorem lt_nextPosition {row : RequestItem Hash} (member : row ∈ archive.placed.rows)
    (held : row.request = request) : row.position < archive.nextPosition request := by
  have inside : row.position + 1 ∈
      (archive.placed.rows.filter (·.request = request)).map (·.position + 1) :=
    List.mem_map.mpr ⟨row, List.mem_filter.mpr ⟨member, by simpa using held⟩, rfl⟩
  exact List.le_max_of_le inside le_rfl

end

variable [DecidableEq Hash]

/-- Retain an item under its hash unless the hash is taken. -/
def put (archive : Archive Hash Window) (hash : Hash) (item : Value) : Archive Hash Window :=
  { archive with items := Function.update archive.items hash (archive.items hash <|> some item) }

section

variable {archive : Archive Hash Window} {hash other : Hash} {item kept : Value}

theorem items_put : (archive.put hash item).items other =
    if other = hash then (archive.items hash <|> some item) else archive.items other := by
  simp only [put, Function.update_apply]

/-- Retaining an item replaces none. -/
theorem items_put_of_some (found : archive.items other = some kept) :
    (archive.put hash item).items other = some kept := by
  rw [items_put]
  split
  case isTrue same =>
    subst same
    rw [found]
    rfl
  case isFalse => exact found

theorem items_put_self : ∃ kept, (archive.put hash item).items hash = some kept ∧
    (archive.items hash = some kept ∨ archive.items hash = none ∧ kept = item) := by
  rw [items_put, if_pos rfl]
  cases found : archive.items hash with
  | none => exact ⟨item, rfl, .inr ⟨rfl, rfl⟩⟩
  | some kept => exact ⟨kept, rfl, .inl rfl⟩

theorem put_of_stored (found : archive.items hash = some kept) : archive.put hash item = archive := by
  have same : Function.update archive.items hash (archive.items hash <|> some item) =
      archive.items := by
    rw [Function.update_eq_self_iff, found]
    rfl
  rw [put, same]

/-- Items are still found by their content after one more is retained. -/
theorem content_put {hash : Value → Hash} {itemHash : Hash}
    (content : ∀ {itemHash item}, archive.items itemHash = some item → hash item = itemHash)
    (found : (archive.put (hash item) item).items itemHash = some kept) : hash kept = itemHash := by
  rw [items_put] at found
  split at found
  case isFalse => exact content found
  case isTrue same =>
    subst same
    cases old : archive.items (hash item) with
    | some stored =>
      rw [old] at found
      cases found
      exact content old
    | none =>
      rw [old] at found
      cases found
      rfl

/-- A retained item is found under its hash. -/
theorem items_hash {hash : Value → Hash} (distinct : Function.Injective hash)
    (content : ∀ {itemHash item}, archive.items itemHash = some item → hash item = itemHash) :
    (archive.put (hash item) item).items (hash item) = some item := by
  obtain ⟨kept, found, _⟩ : ∃ kept, (archive.put (hash item) item).items (hash item) = some kept ∧
    (archive.items (hash item) = some kept ∨ archive.items (hash item) = none ∧ kept = item) :=
    items_put_self
  rw [found, distinct (content_put content found)]

end

end Archive

end ExomonadHarness.Store
