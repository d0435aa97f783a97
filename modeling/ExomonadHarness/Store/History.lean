import ExomonadHarness.Store.Archive

/-! The history of a request: the items retained along its lineage, with the items of
each provider response in the provider's order. -/

namespace ExomonadHarness.Store

open Json Checked
open Scheduler (OperationId)

variable {Hash Window : Type}

/-- One item of a history, with the place it was first retained at. -/
structure Occurrence (Hash : Type) where
  request : RequestId
  position : ℕ
  hash : Hash
  item : Value
  outputOperation : Option OperationId
  origin : Origin Hash
  sources : List (ContextReference Hash)
  note : Bool
  overlays : List ContextTextOverlay
  deriving DecidableEq

def RequestItem.origin (row : RequestItem Hash) : Origin Hash where
  request := (row.source.getD row.place).1
  position := (row.source.getD row.place).2
  hash := row.hash

def RequestItem.occurrence (row : RequestItem Hash) (item : Value) : Occurrence Hash where
  request := row.request
  position := row.position
  hash := row.hash
  item := item
  outputOperation := row.outputOperation
  origin := row.origin
  sources := row.sources
  note := row.note
  overlays := row.overlays

/-! Provider order. -/

/-- Place the members of each group, in the order of its queue, where the group stands. -/
def fill {Element Key : Type} [DecidableEq Key] (group : Element → Option Key) :
    List Element → (Key → List Element) → List Element
  | [], _ => []
  | element :: rest, queues =>
    match group element with
    | none => element :: fill group rest queues
    | some key =>
      (queues key).head?.getD element ::
        fill group rest (Function.update queues key (queues key).tail)

/-- The place of the last member of a group. -/
def lastPlace {Element Key : Type} [DecidableEq Key] (group : Element → Option Key)
    (elements : List Element) (key : Key) : Option ℕ :=
  (elements.zipIdx.filter (group ·.1 = some key)).getLast?.map Prod.snd

namespace Archive

/-- The rows of one request in order. -/
def itemsOf (archive : Archive Hash Window) (request : RequestId) : List (RequestItem Hash) :=
  (archive.placed.rows.filter (·.request = request)).insertionSort fun left right =>
    left.position ≤ right.position

variable [DecidableEq Hash]

/-- Rows whose item is not retained drop out of the join. -/
def occurrencesOf (archive : Archive Hash Window) (request : RequestId) : List (Occurrence Hash) :=
  (archive.itemsOf request).filterMap fun row => (archive.items row.hash).map row.occurrence

end Archive

end ExomonadHarness.Store
