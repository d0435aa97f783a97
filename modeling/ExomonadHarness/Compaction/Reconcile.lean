import ExomonadHarness.Compaction.Window

/-! `compaction_reconciliation.rs`: the items of a compaction result become occurrences of
their sources or items of their own. -/

namespace ExomonadHarness.Compaction

open Json Checked
open Scheduler (OperationId)
open Store (Occurrence Origin RequestId StoreError)

variable {Hash : Type}

inductive CompactionItem (Hash : Type) where
  | retained (occurrence : Occurrence Hash)
  | authored (item : Value)

inductive CompactionOwnershipRefusal (Hash : Type) where
  | missingSource
  | duplicateSource
  | unownedToolItem
  | ambiguousSource (hash : Hash)

inductive ReconcileError (Hash : Type) where
  | store (failure : StoreError)
  | ownership (request : RequestId) (position : ℕ) (reason : CompactionOwnershipRefusal Hash)

/-- What the reconciliation reads from the store. -/
structure CompactionStore (Hash : Type) where
  occurrencesForRequests : List RequestId → Except StoreError (List (Occurrence Hash))
  history : RequestId → Except StoreError (List (Occurrence Hash))
  validateCanonicalHistory : List (Occurrence Hash) → Except StoreError PUnit
  invocationOrigins : List OperationId → Except StoreError (List (Origin Hash))
  projectContextNote : Occurrence Hash → Except StoreError Value
  itemHash : Value → Except StoreError Hash

def ownershipBearing (item : Value) : Bool :=
  isToolItem item

def placeOf (occurrence : Occurrence Hash) : RequestId × ℕ :=
  (occurrence.request, occurrence.position)

section

variable [DecidableEq Hash]

/-- The sources: issued occurrences that are stored as given and visible, each origin once. -/
def collectSources (target : RequestId) (persisted visible : List (Occurrence Hash))
    (sources : List (Occurrence Hash)) :
    List (Occurrence Hash) → Except (ReconcileError Hash) (List (Occurrence Hash))
  | [] => .ok sources
  | occurrence :: rest => do
    require (visible.any (placeOf · = placeOf occurrence) &&
        persisted.reverse.find? (placeOf · = placeOf occurrence) = some occurrence)
      (.ownership target 0 .missingSource)
    require (sources.all (·.origin ≠ occurrence.origin)) (.ownership target 0 .duplicateSource)
    collectSources target persisted visible (sources ++ [occurrence]) rest

/-- One more position with a given source; no position and no origin twice. -/
def insertSelection (target : RequestId) (selections : List (ℕ × Occurrence Hash))
    (position : ℕ) (selected : Occurrence Hash) :
    Except (ReconcileError Hash) (List (ℕ × Occurrence Hash)) := do
  require (selections.all fun entry => entry.1 ≠ position && entry.2.origin ≠ selected.origin)
    (.ownership target position .duplicateSource)
  return selections ++ [(position, selected)]

def selectRetained (store : CompactionStore Hash) (target : RequestId) (items : List Value)
    (sources : List (Occurrence Hash)) (selections : List (ℕ × Occurrence Hash))
    (entry : ℕ × Occurrence Hash) : Except (ReconcileError Hash) (List (ℕ × Occurrence Hash)) := do
  let original ← okOr (sources.find? (·.origin = entry.2.origin))
    (.ownership target entry.1 .missingSource)
  require (original = entry.2) (.ownership target entry.1 .duplicateSource)
  let projected ← (store.projectContextNote entry.2).mapError .store
  require (items[entry.1]? = some projected) (.ownership target entry.1 .duplicateSource)
  insertSelection target selections entry.1 entry.2

def selectGenerated (target : RequestId) (items : List Value)
    (selections : List (ℕ × Occurrence Hash)) (entry : ℕ × Occurrence Hash) :
    Except (ReconcileError Hash) (List (ℕ × Occurrence Hash)) := do
  require (items[entry.1]? = some entry.2.item) (.ownership target entry.1 .duplicateSource)
  insertSelection target selections entry.1 entry.2

/-- What the loop over the items consults. -/
structure Reconciliation (Hash : Type) where
  target : RequestId
  selections : List (ℕ × Occurrence Hash)
  hasGenerated : Bool
  /-- Each source with the hash of its attributed text. -/
  candidates : List (Occurrence Hash × Hash)
  forcedPending : List (Origin Hash)
  itemHash : Value → Except StoreError Hash

namespace Reconciliation

/-- The sources an item of the given hash may stand for. -/
def candidatesFor (context : Reconciliation Hash) (hash : Hash) : List (Occurrence Hash) :=
  (context.candidates.filter fun entry => entry.1.hash = hash || entry.2 = hash).map Prod.fst

/-- An item without a source may not own a tool operation. -/
def author (context : Reconciliation Hash) (item : Value) (position : ℕ)
    (reason : CompactionOwnershipRefusal Hash) :
    Except (ReconcileError Hash) (Option (CompactionItem Hash)) := do
  require (!ownershipBearing item) (.ownership context.target position reason)
  return some (.authored item)

/-- One item, with the origins consumed so far. -/
def reconcileItem (context : Reconciliation Hash) (consumed : List (Origin Hash)) (item : Value)
    (position : ℕ) :
    Except (ReconcileError Hash) (Option (CompactionItem Hash) × List (Origin Hash)) :=
  match context.selections.lookup position with
  | some source => .ok (some (.retained source), consumed)
  | none =>
    if context.hasGenerated then do
      let image ← context.author item position .unownedToolItem
      return (image, consumed)
    else do
      let hash ← (context.itemHash item).mapError .store
      match context.candidatesFor hash with
      | [source] =>
        if source.origin ∈ context.forcedPending then return (none, consumed)
        else if source.origin ∈ consumed then do
          let image ← context.author item position .duplicateSource
          return (image, consumed)
        else return (some (.retained source), source.origin :: consumed)
      | [] => do
        let image ← context.author item position .unownedToolItem
        return (image, consumed)
      | _ => do
        let image ← context.author item position (.ambiguousSource hash)
        return (image, consumed)

def reconcileItems (context : Reconciliation Hash) (consumed : List (Origin Hash)) :
    List (Value × ℕ) → Except (ReconcileError Hash) (List (CompactionItem Hash))
  | [] => .ok []
  | (item, position) :: rest => do
    let (image, consumed) ← context.reconcileItem consumed item position
    let later ← context.reconcileItems consumed rest
    return image.toList ++ later

end Reconciliation

def reconcile (store : CompactionStore Hash) (target source : RequestId) (items : List Value)
    (retained generated : List (ℕ × Occurrence Hash)) (issued : List (Option (Occurrence Hash)))
    (pending : List OperationId) : Except (ReconcileError Hash) (List (CompactionItem Hash)) := do
  let requests := (issued.reduceOption.map (·.request)).dedup
  let persisted ← (store.occurrencesForRequests requests).mapError .store
  let visible ← (store.history source).mapError .store
  let sources ← collectSources target persisted visible [] issued.reduceOption
  (store.validateCanonicalHistory issued.reduceOption).mapError .store
  let selections ← retained.foldlM (selectRetained store target items sources) []
  let selections ← generated.foldlM (selectGenerated target items) selections
  (store.validateCanonicalHistory (generated.map Prod.snd)).mapError .store
  let pendingOrigins ← (store.invocationOrigins pending).mapError .store
  let candidates ← sources.mapM fun source => do
    let projected ← (store.projectContextNote source).mapError .store
    let hash ← (store.itemHash projected).mapError .store
    return (source, hash)
  let forcedOrigins := selections.map (·.2.origin)
  let context : Reconciliation Hash :=
    { target, selections, hasGenerated := !generated.isEmpty, candidates
      forcedPending := forcedOrigins.filter (· ∈ pendingOrigins), itemHash := store.itemHash }
  context.reconcileItems forcedOrigins items.zipIdx

end

end ExomonadHarness.Compaction
