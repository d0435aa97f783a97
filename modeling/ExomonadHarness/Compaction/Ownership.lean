import ExomonadHarness.Compaction.Reconcile
import ExomonadHarness.Store.HistoryOrder
import ExomonadHarness.Support.Ancestry

/-! Who owns the items of a reconciled compaction. -/

namespace ExomonadHarness.Compaction

open Json Checked
open Scheduler (OperationId)
open Store (Archive Occurrence Origin RequestId StoreError orderBy)

variable {Hash : Type}

def CompactionItem.origin? : CompactionItem Hash → Option (Origin Hash)
  | retained occurrence => some occurrence.origin
  | authored _ => none

/-- The bytes of an item are those of a source, or of its attributed text. -/
def Echoes (store : CompactionStore Hash) (source : Occurrence Hash) (item : Value) : Prop :=
  ∃ hash, store.itemHash item = .ok hash ∧ (source.hash = hash ∨ ∃ projected,
    store.projectContextNote source = .ok projected ∧ store.itemHash projected = .ok hash)

/-- The arguments of a reconciliation. -/
structure CompactionResult (Hash : Type) where
  items : List Value
  retained : List (ℕ × Occurrence Hash)
  generated : List (ℕ × Occurrence Hash)
  issued : List (Option (Occurrence Hash))
  pending : List OperationId

/-- What becomes of one item of a compaction result. -/
inductive Image (store : CompactionStore Hash) (given : CompactionResult Hash) :
    Value × ℕ → Option (CompactionItem Hash) → Prop where
  | selected {item : Value} {position : ℕ} {occurrence : Occurrence Hash}
      (listed : (position, occurrence) ∈ given.retained)
      (issued : some occurrence ∈ given.issued)
      (shown : store.projectContextNote occurrence = .ok item) :
      Image store given (item, position) (some (.retained occurrence))
  | generated {position : ℕ} {occurrence : Occurrence Hash}
      (listed : (position, occurrence) ∈ given.generated) :
      Image store given (occurrence.item, position) (some (.retained occurrence))
  | matched {item : Value} {position : ℕ} {source : Occurrence Hash}
      (issued : some source ∈ given.issued) (echoes : Echoes store source item) :
      Image store given (item, position) (some (.retained source))
  | authored {item : Value} {position : ℕ} (free : ownershipBearing item = false) :
      Image store given (item, position) (some (.authored item))
  | dropped {item : Value} {position place : ℕ} {source kept : Occurrence Hash}
      {pending : List (Origin Hash)} (issued : some source ∈ given.issued)
      (echoes : Echoes store source item)
      (only : ∀ other, some other ∈ given.issued → Echoes store other item → other = source)
      (forced : (place, kept) ∈ given.retained ++ given.generated) (same : kept.origin = source.origin)
      (awaited : store.invocationOrigins given.pending = .ok pending)
      (unsettled : source.origin ∈ pending) :
      Image store given (item, position) none

/-- The ownership of a reconciled compaction. -/
structure Reconciled (store : CompactionStore Hash) (given : CompactionResult Hash)
    (result : List (CompactionItem Hash)) : Prop where
  distinct : (result.filterMap CompactionItem.origin?).Nodup
  known : ∀ occurrence, .retained occurrence ∈ result → some occurrence ∈ given.issued ∨
    ∃ position, (position, occurrence) ∈ given.generated
  owned : ∀ item, .authored item ∈ result → ownershipBearing item = false
  ordered : ∃ images, List.Forall₂ (Image store given) given.items.zipIdx images ∧
    result = images.reduceOption

section

variable [DecidableEq Hash]

theorem collectSources_eq_ok {target : RequestId} {persisted visible start sources rest :
      List (Occurrence Hash)}
    (collected : collectSources target persisted visible start rest = .ok sources) :
    sources = start ++ rest := by
  induction rest generalizing start with
  | nil => simpa [collectSources, eq_comm] using collected
  | cons occurrence rest ih =>
    simp only [collectSources, bind_eq_ok, require_eq_ok] at collected
    obtain ⟨_, -, _, -, collected⟩ := collected
    rw [ih collected, List.append_assoc, List.singleton_append]

/-- The selected positions: every one checked, no position and no origin twice. -/
structure Selected (store : CompactionStore Hash) (given : CompactionResult Hash)
    (selections : List (ℕ × Occurrence Hash)) : Prop where
  positions : (selections.map Prod.fst).Nodup
  origins : (selections.map (·.2.origin)).Nodup
  images : ∀ position occurrence, (position, occurrence) ∈ selections →
    (position, occurrence) ∈ given.retained ++ given.generated ∧
    ∃ item, given.items[position]? = some item ∧
      Image store given (item, position) (some (.retained occurrence))

namespace Selected

variable {store : CompactionStore Hash} {given : CompactionResult Hash} {target : RequestId}
  {selections next : List (ℕ × Occurrence Hash)} {position : ℕ} {occurrence : Occurrence Hash}

theorem insert (selected : Selected store given selections)
    (inserted : insertSelection target selections position occurrence = .ok next)
    (listed : (position, occurrence) ∈ given.retained ++ given.generated)
    {item : Value} (read : given.items[position]? = some item)
    (image : Image store given (item, position) (some (.retained occurrence))) :
    Selected store given next := by
  simp only [insertSelection, bind_eq_ok, require_eq_ok, pure_eq_ok, List.all_eq_true,
    Bool.and_eq_true, decide_eq_true_eq] at inserted
  obtain ⟨_, fresh, rfl⟩ := inserted
  refine ⟨?_, ?_, ?_⟩
  · rw [List.map_append, List.nodup_append]
    refine ⟨selected.positions, List.nodup_singleton _, fun left listed right last => ?_⟩
    obtain ⟨entry, member, rfl⟩ := List.mem_map.mp listed
    rw [List.mem_singleton.mp last]
    exact (fresh entry member).1
  · rw [List.map_append, List.nodup_append]
    refine ⟨selected.origins, List.nodup_singleton _, fun left listed right last => ?_⟩
    obtain ⟨entry, member, rfl⟩ := List.mem_map.mp listed
    rw [List.mem_singleton.mp last]
    exact (fresh entry member).2
  · intro other source present
    rcases List.mem_append.mp present with earlier | last
    · exact selected.images other source earlier
    · cases List.mem_singleton.mp last
      exact ⟨listed, item, read, image⟩

theorem retained (selected : Selected store given selections) {sources : List (Occurrence Hash)}
    (issued : sources = given.issued.reduceOption) {entry : ℕ × Occurrence Hash}
    (listed : entry ∈ given.retained)
    (taken : selectRetained store target given.items sources selections entry = .ok next) :
    Selected store given next := by
  simp only [selectRetained, bind_eq_ok, okOr_eq_ok, require_eq_ok, mapError_eq_ok,
    decide_eq_true_eq] at taken
  obtain ⟨original, found, _, same, projected, shown, _, read, inserted⟩ := taken
  have source : some entry.2 ∈ given.issued := by
    rw [← same, ← List.reduceOption_mem_iff, ← issued]
    exact List.mem_of_find?_eq_some found
  exact selected.insert inserted (List.mem_append_left _ listed) read
    (.selected listed source shown)

theorem generated (selected : Selected store given selections) {entry : ℕ × Occurrence Hash}
    (listed : entry ∈ given.generated)
    (taken : selectGenerated target given.items selections entry = .ok next) :
    Selected store given next := by
  simp only [selectGenerated, bind_eq_ok, require_eq_ok, decide_eq_true_eq] at taken
  obtain ⟨_, read, inserted⟩ := taken
  exact selected.insert inserted (List.mem_append_right _ listed) read (.generated listed)

omit [DecidableEq Hash] in
theorem none (store : CompactionStore Hash) (given : CompactionResult Hash) :
    Selected store given [] :=
  ⟨.nil, .nil, by simp⟩

end Selected

/-- How one item is reconciled, and which origin it consumes. -/
inductive Reconciles (context : Reconciliation Hash) (consumed : List (Origin Hash)) (item : Value)
    (position : ℕ) : Option (CompactionItem Hash) → List (Origin Hash) → Prop where
  | selected {source : Occurrence Hash} (found : context.selections.lookup position = some source) :
      Reconciles context consumed item position (some (.retained source)) consumed
  | authored (free : ownershipBearing item = false) :
      Reconciles context consumed item position (some (.authored item)) consumed
  | echo {hash : Hash} {source : Occurrence Hash} (hashed : context.itemHash item = .ok hash)
      (only : context.candidatesFor hash = [source])
      (pending : source.origin ∈ context.forcedPending) :
      Reconciles context consumed item position none consumed
  | matched {hash : Hash} {source : Occurrence Hash} (hashed : context.itemHash item = .ok hash)
      (only : context.candidatesFor hash = [source]) (fresh : source.origin ∉ consumed) :
      Reconciles context consumed item position (some (.retained source)) (source.origin :: consumed)

namespace Reconciliation

variable {context : Reconciliation Hash} {consumed after : List (Origin Hash)} {item : Value}
  {position : ℕ} {image : Option (CompactionItem Hash)}

omit [DecidableEq Hash] in
theorem author_eq_ok {reason : CompactionOwnershipRefusal Hash}
    (authored : context.author item position reason = .ok image) :
    ownershipBearing item = false ∧ image = some (.authored item) := by
  simp only [author, bind_eq_ok, require_eq_ok, pure_eq_ok, Bool.not_eq_true'] at authored
  obtain ⟨_, free, rfl⟩ := authored
  exact ⟨free, rfl⟩

theorem reconciles_of_ok (done : context.reconcileItem consumed item position = .ok (image, after)) :
    Reconciles context consumed item position image after := by
  have authored {reason : CompactionOwnershipRefusal Hash}
      (done : (do
        let image ← context.author item position reason
        return (image, consumed)) = .ok (image, after)) :
      Reconciles context consumed item position image after := by
    simp only [bind_eq_ok, pure_eq_ok, Prod.mk.injEq] at done
    obtain ⟨_, passed, rfl, rfl⟩ := done
    obtain ⟨free, rfl⟩ := author_eq_ok passed
    exact .authored free
  unfold reconcileItem at done
  split at done
  case h_1 source found =>
    cases done
    exact .selected found
  case h_2 =>
    split at done
    case isTrue => exact authored done
    case isFalse =>
      simp only [bind_eq_ok, mapError_eq_ok] at done
      obtain ⟨hash, hashed, done⟩ := done
      split at done
      case h_1 source only =>
        split_ifs at done with pending used
        · cases done
          exact .echo hashed only pending
        · exact authored done
        · cases done
          exact .matched hashed only used
      case h_2 => exact authored done
      case h_3 => exact authored done

end Reconciliation

/-- What the loop consults is what the arguments say. -/
structure Prepared (store : CompactionStore Hash) (given : CompactionResult Hash)
    (context : Reconciliation Hash) : Prop where
  selected : Selected store given context.selections
  hashed : context.itemHash = store.itemHash
  candidates : List.Forall₂ (fun source entry => entry.1 = source ∧ ∃ projected,
      store.projectContextNote source = .ok projected ∧ store.itemHash projected = .ok entry.2)
    given.issued.reduceOption context.candidates
  pending : ∃ origins, store.invocationOrigins given.pending = .ok origins ∧
    ∀ origin ∈ context.forcedPending,
      origin ∈ origins ∧ origin ∈ context.selections.map (·.2.origin)

namespace Prepared

variable {store : CompactionStore Hash} {given : CompactionResult Hash}
  {context : Reconciliation Hash} {consumed after : List (Origin Hash)} {item : Value}
  {position : ℕ} {image : Option (CompactionItem Hash)} {hash : Hash} {source : Occurrence Hash}

theorem mem_candidatesFor (prepared : Prepared store given context)
    (hashed : store.itemHash item = .ok hash) :
    source ∈ context.candidatesFor hash ↔ some source ∈ given.issued ∧ Echoes store source item := by
  simp only [Reconciliation.candidatesFor, List.mem_map, List.mem_filter, Bool.or_eq_true,
    decide_eq_true_eq]
  constructor
  · intro listed
    obtain ⟨entry, ⟨member, matching⟩, rfl⟩ := listed
    obtain ⟨source, present, same, projected, shown, hashedNote⟩ :=
      exists_left_of_forall₂ prepared.candidates entry member
    rw [same]
    refine ⟨List.reduceOption_mem_iff.mp present, hash, hashed, ?_⟩
    rcases matching with own | note
    · exact .inl (same ▸ own)
    · exact .inr ⟨projected, shown, note ▸ hashedNote⟩
  · intro echoed
    obtain ⟨issued, other, again, matching⟩ := echoed
    cases hashed.symm.trans again
    obtain ⟨entry, member, rfl, projected, shown, hashedNote⟩ :=
      exists_right_of_forall₂ prepared.candidates source (List.reduceOption_mem_iff.mpr issued)
    refine ⟨entry, ⟨member, ?_⟩, rfl⟩
    rcases matching with own | ⟨_, shownAgain, note⟩
    · exact .inl own
    · cases shown.symm.trans shownAgain
      exact .inr (Except.ok.inj (hashedNote.symm.trans note))

theorem image_of_reconciles (prepared : Prepared store given context)
    (read : given.items[position]? = some item)
    (done : Reconciles context consumed item position image after) :
    Image store given (item, position) image := by
  cases done with
  | selected found =>
    obtain ⟨-, other, again, image⟩ :=
      prepared.selected.images position _ (OrderedMap.mem_of_lookup found)
    cases read.symm.trans again
    exact image
  | authored free => exact .authored free
  | echo hashed only pending =>
    rw [prepared.hashed] at hashed
    obtain ⟨origins, awaited, forced⟩ := prepared.pending
    obtain ⟨unsettled, selected⟩ := forced _ pending
    obtain ⟨⟨place, kept⟩, member, same⟩ := List.mem_map.mp selected
    have listed := (prepared.selected.images place kept member).1
    obtain ⟨issued, echoes⟩ :=
      (prepared.mem_candidatesFor hashed).mp (only ▸ List.mem_singleton_self _)
    refine .dropped issued echoes (fun other present echoed => ?_) listed same awaited unsettled
    have candidate := (prepared.mem_candidatesFor hashed).mpr ⟨present, echoed⟩
    exact List.mem_singleton.mp (only ▸ candidate)
  | matched hashed only fresh =>
    rw [prepared.hashed] at hashed
    obtain ⟨issued, echoes⟩ :=
      (prepared.mem_candidatesFor hashed).mp (only ▸ List.mem_singleton_self _)
    exact .matched issued echoes

/-- The origins of a reconciled tail: those selected for it and those not consumed before. -/
theorem items (prepared : Prepared store given context) {entries : List (Value × ℕ)}
    {result : List (CompactionItem Hash)}
    (listed : ∀ entry ∈ entries, given.items[entry.2]? = some entry.1)
    (positions : (entries.map Prod.snd).Nodup)
    (forced : ∀ origin ∈ context.selections.map (·.2.origin), origin ∈ consumed)
    (done : context.reconcileItems consumed entries = .ok result) :
    (∃ images, List.Forall₂ (Image store given) entries images ∧ result = images.reduceOption) ∧
    (result.filterMap CompactionItem.origin?).Nodup ∧
    ∀ origin ∈ result.filterMap CompactionItem.origin?, origin ∉ consumed ∨
      ∃ position ∈ entries.map Prod.snd, ∃ occurrence,
        (position, occurrence) ∈ context.selections ∧ occurrence.origin = origin := by
  induction entries generalizing consumed result with
  | nil =>
    cases done
    exact ⟨⟨[], .nil, rfl⟩, .nil, by simp⟩
  | cons entry entries ih =>
    obtain ⟨item, position⟩ := entry
    simp only [Reconciliation.reconcileItems, bind_eq_ok, pure_eq_ok] at done
    obtain ⟨⟨image, after⟩, step, later, rest, rfl⟩ := done
    have taken := Reconciliation.reconciles_of_ok step
    have here := prepared.image_of_reconciles (listed _ List.mem_cons_self) taken
    have others := fun other member => listed other (List.mem_cons_of_mem _ member)
    obtain ⟨outside, distinct⟩ := List.nodup_cons.mp positions
    have covered : ∀ origin ∈ context.selections.map (·.2.origin), origin ∈ after := by
      cases taken with
      | matched => exact fun origin member => List.mem_cons_of_mem _ (forced origin member)
      | _ => exact forced
    obtain ⟨⟨images, related, same⟩, nodup, sources⟩ := ih others distinct covered rest
    refine ⟨⟨image :: images, .cons here related, ?_⟩, ?_⟩
    · rw [same]
      cases image <;> rfl
    have widen : ∀ origin ∈ later.filterMap CompactionItem.origin?, origin ∉ after ∨
        ∃ place ∈ ((item, position) :: entries).map Prod.snd, ∃ occurrence,
          (place, occurrence) ∈ context.selections ∧ occurrence.origin = origin := by
      intro origin member
      refine (sources origin member).imp_right fun selected => ?_
      obtain ⟨place, among, found⟩ := selected
      exact ⟨place, List.mem_cons_of_mem _ among, found⟩
    cases taken with
    | authored | echo => exact ⟨nodup, widen⟩
    | @selected source found =>
      have member := OrderedMap.mem_of_lookup found
      refine ⟨List.nodup_cons.mpr ⟨fun again => ?_, nodup⟩, ?_⟩
      · rcases sources source.origin again with unused | ⟨place, among, occurrence, listed, same⟩
        · exact unused (forced _ (List.mem_map_of_mem member))
        · have place_eq := List.inj_on_of_nodup_map prepared.selected.origins listed member same
          exact outside ((Prod.mk.inj place_eq).1 ▸ among)
      · intro origin present
        rcases List.mem_cons.mp present with rfl | present
        · exact .inr ⟨position, List.mem_cons_self, source, member, rfl⟩
        · exact widen origin present
    | @matched _ source _ _ fresh =>
      refine ⟨List.nodup_cons.mpr ⟨fun again => ?_, nodup⟩, ?_⟩
      · rcases sources source.origin again with unused | ⟨place, _, occurrence, listed, same⟩
        · exact unused List.mem_cons_self
        · exact fresh (same ▸ forced _ (List.mem_map_of_mem listed))
      · intro origin present
        rcases List.mem_cons.mp present with rfl | present
        · exact .inl fresh
        · exact (widen origin present).imp_left fun unused used => unused (List.mem_cons_of_mem _ used)

end Prepared

theorem prepared_of_reconcile {store : CompactionStore Hash} {given : CompactionResult Hash}
    {target source : RequestId} {result : List (CompactionItem Hash)}
    (done : reconcile store target source given.items given.retained given.generated given.issued
      given.pending = .ok result) :
    ∃ context, Prepared store given context ∧
      context.reconcileItems (context.selections.map (·.2.origin)) given.items.zipIdx =
        .ok result := by
  simp only [reconcile, bind_eq_ok, mapError_eq_ok] at done
  obtain ⟨persisted, -, visible, -, sources, collected, -, -, first, retained, selections, generated,
    -, -, origins, awaited, candidates, noted, done⟩ := done
  have issued : sources = given.issued.reduceOption := collectSources_eq_ok collected
  subst issued
  refine ⟨_, ⟨?_, rfl, ?_, origins, awaited, ?_⟩, done⟩
  · refine foldlM_invariant (Selected store given) generated ?_ fun entry listed _ _ selected taken =>
      selected.generated listed taken
    exact foldlM_invariant (Selected store given) retained (.none store given)
      fun entry listed _ _ selected taken => selected.retained rfl listed taken
  · refine (mapM_eq_ok.mp noted).imp fun source entry noted => ?_
    simp only [bind_eq_ok, mapError_eq_ok, pure_eq_ok] at noted
    obtain ⟨projected, shown, hash, hashed, rfl⟩ := noted
    exact ⟨rfl, projected, shown, hashed⟩
  · intro origin member
    obtain ⟨selected, pending⟩ := List.mem_filter.mp member
    exact ⟨of_decide_eq_true pending, selected⟩

/-- A reconciled compaction retains no origin twice, invents no tool item, keeps the order of
its items and drops only echoes of what is forced to stay pending. -/
theorem reconcile_owned {store : CompactionStore Hash} {given : CompactionResult Hash}
    {target source : RequestId} {result : List (CompactionItem Hash)}
    (done : reconcile store target source given.items given.retained given.generated given.issued
      given.pending = .ok result) : Reconciled store given result := by
  obtain ⟨context, prepared, looped⟩ := prepared_of_reconcile done
  have listed : ∀ entry ∈ given.items.zipIdx, given.items[entry.2]? = some entry.1 :=
    fun entry member => List.mem_zipIdx_iff_getElem?.mp member
  have positions : (given.items.zipIdx.map Prod.snd).Nodup := by
    rw [List.zipIdx_map_snd]
    exact List.nodup_range' ..
  obtain ⟨⟨images, related, rfl⟩, distinct, -⟩ :=
    prepared.items listed positions (fun _ member => member) looped
  have imaged (item : CompactionItem Hash) (member : item ∈ images.reduceOption) :
      ∃ entry, Image store given entry (some item) := by
    obtain ⟨entry, -, image⟩ :=
      exists_left_of_forall₂ related (some item) (List.reduceOption_mem_iff.mp member)
    exact ⟨entry, image⟩
  refine ⟨distinct, fun occurrence member => ?_, fun item member => ?_, images, related, rfl⟩
  · obtain ⟨entry, image⟩ := imaged _ member
    cases image with
    | selected _ issued _ => exact .inl issued
    | generated listed => exact .inr ⟨_, listed⟩
    | matched issued _ => exact .inl issued
  · obtain ⟨entry, image⟩ := imaged _ member
    cases image with
    | authored free => exact free

/-! What an archive stores and shows. -/

/-- The ancestors of a request, up to one that is compacted. -/
def lineage {Window : Type} (archive : Archive Hash Window) (head : RequestId) : List RequestId :=
  Ancestry.climb (fun id => (archive.requests.find? id).map fun row =>
    if archive.compacted id then none else row.parent) archive.requests.rows.length head

/-- `history` up to a compacted ancestor, in the provider's order. -/
def history {Window : Type} (archive : Archive Hash Window) (index : Origin Hash → Option ℕ)
    (head : RequestId) : Except StoreError (List (Occurrence Hash)) := do
  require (archive.requests.find? head).isSome (.missingRequest head)
  return orderBy index ((lineage archive head).reverse.flatMap archive.occurrencesOf)

/-- The store of an archive, with the checks and projections of `given`. -/
def compactionStore {Window : Type} (archive : Archive Hash Window)
    (index : Origin Hash → Option ℕ) (given : CompactionStore Hash) : CompactionStore Hash :=
  { given with
    occurrencesForRequests := fun requests => .ok (requests.flatMap archive.occurrencesOf)
    history := history archive index }

theorem collectSources_checked {target : RequestId} {persisted visible start sources rest :
      List (Occurrence Hash)}
    (collected : collectSources target persisted visible start rest = .ok sources) :
    ∀ occurrence ∈ rest, occurrence ∈ persisted ∧
      ∃ other ∈ visible, placeOf other = placeOf occurrence := by
  induction rest generalizing start with
  | nil => simp
  | cons occurrence rest ih =>
    simp only [collectSources, bind_eq_ok, require_eq_ok, Bool.and_eq_true, decide_eq_true_eq,
      List.any_eq_true] at collected
    obtain ⟨_, ⟨shown, found⟩, _, -, collected⟩ := collected
    refine List.forall_mem_cons.mpr ⟨⟨?_, shown⟩, ih collected⟩
    exact List.mem_reverse.mp (List.mem_of_find?_eq_some found)

/-- The sources of a reconciled compaction are stored in the archive and in the history of
the compacted request. -/
theorem reconcile_stored {Window : Type} {archive : Archive Hash Window}
    {index : Origin Hash → Option ℕ} {reads : CompactionStore Hash} {given : CompactionResult Hash}
    {target source : RequestId} {result : List (CompactionItem Hash)}
    (done : reconcile (compactionStore archive index reads) target source given.items given.retained
      given.generated given.issued given.pending = .ok result) (occurrence : Occurrence Hash)
    (issued : some occurrence ∈ given.issued) :
    occurrence ∈ archive.occurrencesOf occurrence.request ∧ ∃ visible,
      history archive index source = .ok visible ∧
        ∃ other ∈ visible, placeOf other = placeOf occurrence := by
  simp only [reconcile, bind_eq_ok, mapError_eq_ok] at done
  obtain ⟨persisted, read, visible, shown, sources, collected, -⟩ := done
  obtain ⟨stored, seen⟩ :=
    collectSources_checked collected occurrence (List.reduceOption_mem_iff.mpr issued)
  refine ⟨?_, visible, shown, seen⟩
  cases read
  obtain ⟨request, -, member⟩ := List.mem_flatMap.mp stored
  obtain ⟨row, placed, same⟩ := List.mem_filterMap.mp member
  obtain ⟨item, -, rfl⟩ := Option.map_eq_some_iff.mp same
  have own := (List.mem_filter.mp ((List.perm_insertionSort _ _).mem_iff.mp placed)).2
  rwa [← of_decide_eq_true own] at member

theorem reconcile_owned_echo :
    let call : Value := .object [("type", .string "function_call")]
    let occurrence : Occurrence ℕ :=
      { request := "r", position := 0, hash := 0, item := call, outputOperation := none
        origin := ⟨"r", 0, 0⟩, sources := [], note := false, overlays := [] }
    let store : CompactionStore ℕ :=
      { occurrencesForRequests := fun _ => .ok [occurrence], history := fun _ => .ok [occurrence]
        validateCanonicalHistory := fun _ => .ok ⟨⟩, invocationOrigins := fun _ => .ok [⟨"r", 0, 0⟩]
        projectContextNote := fun source => .ok source.item
        itemHash := fun item => .ok (if isToolItem item then 0 else 1) }
    let given : CompactionResult ℕ :=
      { items := [call, message "user" "hello", call], retained := [(2, occurrence)], generated := []
        issued := [some occurrence], pending := [] }
    Reconciled store given [.authored (message "user" "hello"), .retained occurrence] := by
  intro call occurrence store given
  have done : reconcile store "s" "r" given.items given.retained given.generated given.issued
      given.pending = .ok [.authored (message "user" "hello"), .retained occurrence] := by
    rfl
  exact reconcile_owned done

end

end ExomonadHarness.Compaction
