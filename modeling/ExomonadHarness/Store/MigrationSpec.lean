import ExomonadHarness.Store.Migration

/-! What the migrated claims are: the copies between requests as a relation on the tables,
and the operations of the requests where the copies begin. -/

namespace ExomonadHarness.Store.LegacyStore

open Json Checked Transaction Memo
open Scheduler (OperationId)

variable {Hash Window : Type}

def Snapshot (store : LegacyStore Hash Window) (request : RequestId) : Prop :=
  ∃ checkpoint ∈ store.checkpoints.rows, checkpoint.snapshot = request

/-- The request follows directly on a snapshot. -/
def SnapshotChild (store : LegacyStore Hash Window) (request parent : RequestId) : Prop :=
  Ancestry.Above store.parent request parent ∧ store.Snapshot parent

/-- The agent of the request's branch was forked with the request as its snapshot. -/
def HereFork (store : LegacyStore Hash Window) (fromStr : String → Except String Document)
    (request : RequestId) (metadata : Value) : Prop :=
  ∃ row fork document, store.archive.requests.find? request = some row ∧
    store.forkSource row.branch = some fork ∧ fromStr fork = .ok document ∧
    metadata = document.value ∧ metadata.index "kind" = .string "here" ∧
    metadata.index "snapshot_request" = .string request

section

variable (fromStr : String → Except String Document)

/-- What a request was copied from. The row of a checkpoint comes before a snapshot parent,
and both come before the metadata of a fork. -/
inductive CopiedFrom (store : LegacyStore Hash Window) (request : RequestId) : CopySource → Prop
  | snapshot {checkpoint : LegacyCheckpoint} (row : checkpoint ∈ store.checkpoints.rows)
      (same : checkpoint.snapshot = request) :
      CopiedFrom store request ⟨checkpoint.source, true⟩
  | child {parent : RequestId} (own : ¬store.Snapshot request)
      (child : store.SnapshotChild request parent) : CopiedFrom store request ⟨parent, false⟩
  | here {metadata : Value} {source : RequestId} (own : ¬store.Snapshot request)
      (apart : ∀ parent, ¬store.SnapshotChild request parent)
      (fork : store.HereFork fromStr request metadata)
      (head : (metadata.index "source_head_request").asStr = some source) :
      CopiedFrom store request ⟨source, true⟩

/-- The claim on the request stands behind the copies of a source: it is on the source
itself, or anywhere in its lineage. -/
def Behind (store : LegacyStore Hash Window) (source : CopySource) (call : String)
    (request : RequestId) : Prop :=
  (∃ claim ∈ store.claims.rows, claim.key = (request, call)) ∧
    if source.requiresCallItem then
      Relation.ReflTransGen (Ancestry.Above store.parent) source.request request ∧
        (store.parent request).isSome
    else request = source.request

/-- One claim is a copy of another. -/
def CopyEdge (store : LegacyStore Hash Window) (claim source : RequestId × String) : Prop :=
  source.2 = claim.2 ∧
    ∃ origin, store.CopiedFrom fromStr claim.1 origin ∧ store.Behind origin claim.2 source.1

def CopyChain (store : LegacyStore Hash Window) : RequestId × String → RequestId × String → Prop :=
  Relation.ReflTransGen (store.CopyEdge fromStr)

/-- The copies of a claim begin at a request that was not copied. -/
def Root (store : LegacyStore Hash Window) (claim root : RequestId × String) : Prop :=
  store.CopyChain fromStr claim root ∧ ∀ origin, ¬store.CopiedFrom fromStr root.1 origin

/-- A copy has nothing behind it, or does not say where it comes from. -/
def Dangling (store : LegacyStore Hash Window) (claim : RequestId × String) : Prop :=
  (∃ origin, store.CopiedFrom fromStr claim.1 origin ∧
    ∀ request, ¬store.Behind origin claim.2 request) ∨
  ((¬store.Snapshot claim.1 ∧ ∀ parent, ¬store.SnapshotChild claim.1 parent) ∧
    ∃ metadata, store.HereFork fromStr claim.1 metadata ∧
      (metadata.index "source_head_request").asStr = none)

/-- Some claim leads to a cycle of copies, to a dangling copy or to two roots. -/
def Unprovenanced (store : LegacyStore Hash Window) : Prop :=
  ∃ claim ∈ store.claims.rows,
    (∃ met, store.CopyChain fromStr claim.key met ∧
      (Relation.TransGen (store.CopyEdge fromStr) met met ∨ store.Dangling fromStr met)) ∨
    ∃ left right, store.Root fromStr claim.key left ∧ store.Root fromStr claim.key right ∧
      left ≠ right

end

/-- The operation that a request issued under a call. -/
def Issues (store : LegacyStore Hash Window) (claim : RequestId × String)
    (operation : OperationId) : Prop :=
  ∃ row, store.archive.requests.find? claim.1 = some row ∧
    operation = ⟨store.archive.identityForBranch row.branch, claim.1, claim.2⟩

/-- A row of the new table keeps the claim and names the operation of its one root. -/
structure Migrated (store : LegacyStore Hash Window) (fromStr : String → Except String Document)
    (claim : LegacyClaim Hash) (row : ClaimRow Hash) : Prop where
  request : row.request = claim.request
  call : row.operation.call = claim.call
  state : row.state = claim.state
  output : row.output = claim.output
  root : ∃ root, store.Root fromStr claim.key root ∧ store.Issues root row.operation ∧
    ∀ other, store.Root fromStr claim.key other → other = root

/-- The claim that a migrated row stands for. -/
def claimOf (row : ClaimRow Hash) : RequestId × String :=
  (row.request, row.operation.call)

section

variable {store next : LegacyStore Hash Window} {fromStr : String → Except String Document}
  {print : List CheckpointClaim → String} {claim source met : RequestId × String}
  {request : RequestId} {call : String} {origin : CopySource} {operation : OperationId}

theorem find?_isSome_iff_snapshot :
    (store.checkpoints.find? request).isSome ↔ store.Snapshot request := by
  constructor
  · intro present
    obtain ⟨checkpoint, found⟩ := Option.isSome_iff_exists.mp present
    exact ⟨checkpoint, Table.mem_of_find? found, Table.key_of_find? found⟩
  · intro snapshot
    obtain ⟨checkpoint, member, same⟩ := snapshot
    rw [← same, Table.find?_key member]
    rfl

theorem parent_join_eq_some {parent : RequestId} :
    (store.parent request).join = some parent ↔ Ancestry.Above store.parent request parent := by
  rw [Option.join_eq_some_iff]
  rfl

theorem snapshotChild_eq_some {parent : RequestId} :
    (store.parent request).join.filter (fun parent => (store.checkpoints.find? parent).isSome) =
        some parent ↔ store.SnapshotChild request parent := by
  rw [Option.filter_eq_some_iff, parent_join_eq_some, find?_isSome_iff_snapshot]
  rfl

theorem parseDocument_eq_ok {text : String} {value : Value} :
    parseDocument fromStr text = .ok value ↔
      ∃ document, fromStr text = .ok document ∧ document.value = value := by
  rw [parseDocument, mapError_eq_ok]
  exact map_eq_ok

theorem hereSource_eq_some :
    store.hereSource fromStr request call = .ok (some origin) ↔
      ∃ metadata, store.HereFork fromStr request metadata ∧
        ∃ source, (metadata.index "source_head_request").asStr = some source ∧
          origin = ⟨source, true⟩ := by
  constructor
  · intro found
    unfold hereSource at found
    split at found
    case h_1 => cases found
    case h_2 fork recorded =>
      obtain ⟨row, issued, recorded⟩ := Option.bind_eq_some_iff.mp recorded
      simp only [bind_eq_ok, parseDocument_eq_ok] at found
      obtain ⟨metadata, ⟨document, parsed, same⟩, found⟩ := found
      split at found
      case isTrue here =>
        simp only [bind_eq_ok, okOr_eq_ok, pure_eq_ok, Option.some.injEq] at found
        obtain ⟨source, head, origin⟩ := found
        exact ⟨metadata, ⟨row, fork, document, issued, recorded, parsed, same.symm, here.1, here.2⟩,
          source, head, origin.symm⟩
      case isFalse => cases found
  · intro forked
    obtain ⟨metadata, ⟨row, fork, document, issued, recorded, parsed, same, kind, snapshot⟩, source,
      head, rfl⟩ := forked
    have read : parseDocument fromStr fork = .ok metadata :=
      parseDocument_eq_ok.mpr ⟨document, parsed, same.symm⟩
    simp only [hereSource, issued, Option.bind_some, recorded, read]
    simp [bind, Except.bind, kind, snapshot, head, okOr, pure, Except.pure]

theorem copySource_eq_some :
    store.copySource fromStr request call = .ok (some origin) ↔
      store.CopiedFrom fromStr request origin := by
  unfold copySource
  split
  case h_1 checkpoint found =>
    have member := Table.mem_of_find? found
    have same := Table.key_of_find? found
    constructor
    · intro answered
      cases answered
      exact .snapshot member same
    · intro copied
      cases copied with
      | snapshot row equal =>
        have unique := Table.find?_key row
        rw [equal, found] at unique
        cases unique
        rfl
      | child own => exact absurd ⟨checkpoint, member, same⟩ own
      | here own => exact absurd ⟨checkpoint, member, same⟩ own
  case h_2 absent =>
    have own : ¬store.Snapshot request := by
      rw [← find?_isSome_iff_snapshot, absent]
      simp
    split
    case h_1 parent found =>
      have child := snapshotChild_eq_some.mp found
      constructor
      · intro answered
        cases answered
        exact .child own child
      · intro copied
        cases copied with
        | snapshot row equal => exact absurd ⟨_, row, equal⟩ own
        | child _ other =>
          rw [snapshotChild_eq_some.mpr other] at found
          cases found
          rfl
        | here _ apart => exact absurd child (apart parent)
    case h_2 childless =>
      have apart : ∀ parent, ¬store.SnapshotChild request parent := by
        intro parent child
        rw [snapshotChild_eq_some.mpr child] at childless
        cases childless
      rw [hereSource_eq_some]
      constructor
      · intro forked
        obtain ⟨metadata, fork, source, head, rfl⟩ := forked
        exact .here own apart fork head
      · intro copied
        cases copied with
        | snapshot row equal => exact absurd ⟨_, row, equal⟩ own
        | child _ child => exact absurd child (apart _)
        | here _ _ fork head => exact ⟨_, fork, _, head, rfl⟩

theorem mem_lineage (acyclic : Ancestry.Acyclic store.parent) {head : RequestId} :
    request ∈ store.lineage head ↔
      Relation.ReflTransGen (Ancestry.Above store.parent) head request ∧
        (store.parent request).isSome := by
  have knows : ∀ request, (store.parent request).isSome →
      request ∈ store.archive.requests.rows.map RequestRow.id := by
    intro request present
    rw [parent, Option.isSome_map] at present
    obtain ⟨row, found⟩ := Option.isSome_iff_exists.mp present
    exact List.mem_map.mpr ⟨row, Table.mem_of_find? found, Table.key_of_find? found⟩
  rw [lineage, ← List.length_map]
  exact Ancestry.mem_climb acyclic knows

theorem mem_sourceClaims (acyclic : Ancestry.Acyclic store.parent) :
    request ∈ store.sourceClaims origin.request call origin.requiresCallItem ↔
      store.Behind origin call request := by
  unfold sourceClaims Behind
  split
  case isTrue =>
    simp only [List.mem_insertionSort, List.mem_map, List.mem_filter, Bool.and_eq_true,
      decide_eq_true_eq, mem_lineage acyclic, LegacyClaim.key, Prod.mk.injEq]
    constructor
    · intro found
      obtain ⟨claim, ⟨member, same, above⟩, rfl⟩ := found
      exact ⟨⟨claim, member, rfl, same⟩, above⟩
    · intro found
      obtain ⟨⟨claim, member, rfl, same⟩, above⟩ := found
      exact ⟨claim, ⟨member, same, above⟩, rfl⟩
  case isFalse =>
    simp only [Option.mem_toList, Option.map_eq_some_iff]
    constructor
    · intro found
      obtain ⟨claim, found, rfl⟩ := found
      have key := Table.key_of_find? found
      have same : claim.request = origin.request := congrArg Prod.fst key
      exact ⟨⟨claim, Table.mem_of_find? found, by rw [key, same]⟩, same⟩
    · intro found
      obtain ⟨⟨claim, member, key⟩, rfl⟩ := found
      exact ⟨claim, key ▸ Table.find?_key member, congrArg Prod.fst key⟩

theorem expand_eq_leaf (found : store.expand fromStr claim = .ok (.inl operation)) :
    (∀ origin, ¬store.CopiedFrom fromStr claim.1 origin) ∧ store.Issues claim operation := by
  simp only [expand, bind_eq_ok] at found
  obtain ⟨answer, source, found⟩ := found
  cases answer with
  | some source =>
    obtain ⟨claims, -, same⟩ := map_eq_ok.mp found
    cases same
  | none =>
    obtain ⟨issued, original, same⟩ := map_eq_ok.mp found
    cases same
    refine ⟨fun origin copied => ?_, ?_⟩
    · rw [copySource_eq_some.mpr copied] at source
      cases source
    · simp only [originalOperation, bind_eq_ok, okOr_eq_ok, pure_eq_ok] at original
      obtain ⟨_, -, row, found, same⟩ := original
      exact ⟨row, found, same.symm⟩

theorem copiedClaims_eq_ok {sources : List (RequestId × String)}
    (found : store.copiedClaims fromStr request call origin = .ok sources) :
    sources ≠ [] ∧
      sources = (store.sourceClaims origin.request call origin.requiresCallItem).map (·, call) := by
  have built : !(store.sourceClaims origin.request call origin.requiresCallItem).isEmpty ∧
      (store.sourceClaims origin.request call origin.requiresCallItem).map (·, call) = sources := by
    simp only [copiedClaims] at found
    split at found
    case isTrue =>
      simp only [bind_eq_ok, require_eq_ok, pure_eq_ok] at found
      obtain ⟨-, -, -, nonempty, same⟩ := found
      exact ⟨nonempty, same⟩
    case isFalse =>
      simp only [bind_eq_ok, require_eq_ok, pure_eq_ok] at found
      obtain ⟨-, nonempty, same⟩ := found
      exact ⟨nonempty, same⟩
  obtain ⟨nonempty, rfl⟩ := built
  refine ⟨?_, rfl⟩
  simpa using nonempty

theorem CopiedFrom.unique {other : CopySource} (left : store.CopiedFrom fromStr request origin)
    (right : store.CopiedFrom fromStr request other) : origin = other := by
  have found : store.copySource fromStr request "" = .ok (some origin) :=
    copySource_eq_some.mpr left
  rw [copySource_eq_some.mpr right] at found
  cases found
  rfl

theorem expand_eq_copy (acyclic : Ancestry.Acyclic store.parent)
    {sources : List (RequestId × String)}
    (found : store.expand fromStr claim = .ok (.inr sources)) :
    sources ≠ [] ∧ ∃ origin, store.CopiedFrom fromStr claim.1 origin ∧
      ∀ source, source ∈ sources ↔ store.CopyEdge fromStr claim source := by
  simp only [expand, bind_eq_ok] at found
  obtain ⟨answer, source, found⟩ := found
  cases answer with
  | none =>
    obtain ⟨issued, -, same⟩ := map_eq_ok.mp found
    cases same
  | some origin =>
    obtain ⟨claims, copied, same⟩ := map_eq_ok.mp found
    cases same
    have copy := copySource_eq_some.mp source
    obtain ⟨nonempty, rfl⟩ := copiedClaims_eq_ok copied
    refine ⟨nonempty, origin, copy, fun source => ?_⟩
    rw [List.mem_map]
    constructor
    · intro listed
      obtain ⟨request, member, rfl⟩ := listed
      exact ⟨rfl, origin, copy, (mem_sourceClaims acyclic).mp member⟩
    · intro edge
      obtain ⟨same, other, copied, behind⟩ := edge
      cases copied.unique copy
      exact ⟨source.1, (mem_sourceClaims acyclic).mpr behind, by rw [← same]⟩

/-- A fork that names no source is no copy and no original. -/
theorem copySource_ne_ok {metadata : Value} {answer : Option CopySource}
    (own : ¬store.Snapshot request) (apart : ∀ parent, ¬store.SnapshotChild request parent)
    (fork : store.HereFork fromStr request metadata)
    (head : (metadata.index "source_head_request").asStr = none) :
    store.copySource fromStr request call ≠ .ok answer := by
  have absent : store.checkpoints.find? request = none := by
    rwa [← find?_isSome_iff_snapshot, Option.not_isSome_iff_eq_none] at own
  have childless : (store.parent request).join.filter
      (fun parent => (store.checkpoints.find? parent).isSome) = none := by
    rw [Option.eq_none_iff_forall_ne_some]
    intro parent found
    exact apart parent (snapshotChild_eq_some.mp found)
  obtain ⟨row, text, document, issued, recorded, parsed, same, kind, snapshot⟩ := fork
  have read : parseDocument fromStr text = .ok metadata :=
    parseDocument_eq_ok.mpr ⟨document, parsed, same.symm⟩
  simp only [copySource, absent, childless, hereSource, issued, Option.bind_some, recorded, read]
  simp [bind, Except.bind, kind, snapshot, head, okOr]

theorem Issues.names (issues : store.Issues claim operation) :
    claim = (operation.request, operation.call) := by
  obtain ⟨row, -, rfl⟩ := issues
  rfl

/-- Copies keep the name of the call. -/
theorem chain_call (chain : store.CopyChain fromStr claim met) : met.2 = claim.2 := by
  induction chain with
  | refl => rfl
  | tail _ edge same => exact edge.1.trans same

section

variable (acyclic : Ancestry.Acyclic store.parent)
include acyclic

theorem edge_of_copies (copies : (store.graph fromStr).Copies claim source) :
    store.CopyEdge fromStr claim source := by
  obtain ⟨sources, expanded, member⟩ := copies
  obtain ⟨-, origin, -, listed⟩ := expand_eq_copy acyclic expanded
  exact (listed source).mp member

theorem copies_of_edge (resolved : (store.graph fromStr).Resolved claim operation)
    (edge : store.CopyEdge fromStr claim source) : (store.graph fromStr).Copies claim source := by
  cases resolved with
  | leaf found =>
    obtain ⟨-, origin, copied, -⟩ := edge
    exact absurd copied ((expand_eq_leaf found).1 origin)
  | copy found =>
    obtain ⟨-, origin, -, listed⟩ := expand_eq_copy acyclic found
    exact ⟨_, found, (listed source).mpr edge⟩

theorem reaches_of_chain (resolved : (store.graph fromStr).Resolved claim operation)
    (chain : store.CopyChain fromStr claim met) : (store.graph fromStr).Reaches claim met := by
  induction chain with
  | refl => exact .refl
  | tail _ edge reaches =>
    exact reaches.tail (copies_of_edge acyclic (resolved.reached reaches) edge)

theorem chain_of_reaches (reaches : (store.graph fromStr).Reaches claim met) :
    store.CopyChain fromStr claim met := by
  induction reaches with
  | refl => exact .refl
  | tail _ copies chain => exact chain.tail (edge_of_copies acyclic copies)

theorem resolved_of_chain (resolved : (store.graph fromStr).Resolved claim operation)
    (chain : store.CopyChain fromStr claim met) :
    (store.graph fromStr).Resolved met operation :=
  resolved.reached (reaches_of_chain acyclic resolved chain)

theorem root_of_resolved (resolved : (store.graph fromStr).Resolved claim operation) :
    ∃ root, store.Root fromStr claim root ∧ store.Issues root operation := by
  obtain ⟨root, reaches, leaf⟩ := resolved.root
  obtain ⟨original, issues⟩ := expand_eq_leaf leaf
  exact ⟨root, ⟨chain_of_reaches acyclic reaches, original⟩, issues⟩

theorem issues_of_root {root : RequestId × String}
    (resolved : (store.graph fromStr).Resolved claim operation)
    (isRoot : store.Root fromStr claim root) : store.Issues root operation := by
  obtain ⟨chain, original⟩ := isRoot
  cases resolved_of_chain acyclic resolved chain with
  | leaf found => exact (expand_eq_leaf found).2
  | copy found =>
    obtain ⟨-, origin, copied, -⟩ := expand_eq_copy acyclic found
    exact absurd copied (original origin)

theorem root_unique {left right : RequestId × String}
    (resolved : (store.graph fromStr).Resolved claim operation)
    (first : store.Root fromStr claim left) (second : store.Root fromStr claim right) :
    left = right := by
  rw [(issues_of_root acyclic resolved first).names, (issues_of_root acyclic resolved second).names]

theorem not_cyclic (resolved : (store.graph fromStr).Resolved claim operation) :
    ¬Relation.TransGen (store.CopyEdge fromStr) claim claim := by
  intro cycle
  obtain ⟨source, edge, back⟩ := Relation.TransGen.head'_iff.mp cycle
  have copies := copies_of_edge acyclic resolved edge
  have reaches := reaches_of_chain acyclic (resolved.copied copies) back
  exact resolved.not_cyclic .refl (.head' copies reaches)

theorem not_dangling (resolved : (store.graph fromStr).Resolved claim operation) :
    ¬store.Dangling fromStr claim := by
  intro dangling
  rcases dangling with ⟨origin, copied, nothing⟩ | ⟨⟨own, apart⟩, metadata, fork, head⟩
  · cases resolved with
    | leaf found => exact (expand_eq_leaf found).1 origin copied
    | copy found nonempty =>
      obtain ⟨-, _, -, listed⟩ := expand_eq_copy acyclic found
      obtain ⟨source, member⟩ := List.exists_mem_of_ne_nil _ nonempty
      obtain ⟨-, other, named, behind⟩ := (listed source).mp member
      cases copied.unique named
      exact nothing source.1 behind
  · obtain ⟨answer, source⟩ : ∃ answer, store.copySource fromStr claim.1 claim.2 = .ok answer := by
      cases resolved with
      | leaf found =>
        obtain ⟨answer, source, -⟩ := bind_eq_ok.mp found
        exact ⟨answer, source⟩
      | copy found =>
        obtain ⟨answer, source, -⟩ := bind_eq_ok.mp found
        exact ⟨answer, source⟩
    exact copySource_ne_ok own apart fork head source

theorem resolve_ne_exhausted (member : claim ∈ store.claims.rows.map LegacyClaim.key)
    (cache : Cache (RequestId × String) OperationId) :
    store.resolve fromStr claim cache ≠ .error .exhausted := by
  refine Graph.resolve_ne_exhausted ?_ ?_ .nil (by simp) member cache
  · intro copy source copies
    obtain ⟨same, origin, -, ⟨found, listed, key⟩, -⟩ := edge_of_copies acyclic copies
    exact List.mem_map.mpr ⟨found, listed, by rw [key, ← same]⟩
  · simp

theorem foldlM_migrateClaim_ne_exhausted {claims : List (LegacyClaim Hash)}
    (within : ∀ claim ∈ claims, claim ∈ store.claims.rows)
    (start : Cache (RequestId × String) OperationId × Table (@ClaimRow.key Hash)) :
    claims.foldlM (store.migrateClaim fromStr) start ≠ .error .exhausted := by
  apply foldlM_ne_error
  intro claim member state stopped
  rcases bind_eq_error.mp stopped with stopped | ⟨answer, -, stopped⟩
  · exact resolve_ne_exhausted acyclic (List.mem_map_of_mem (within claim member)) state.1 stopped
  rcases bind_eq_error.mp stopped with stopped | ⟨_, -, stopped⟩
  · exact mapError_ne_error (fun cause same => by cases same) stopped
  · cases inserted : state.2.insert? (migratedClaim claim answer.1) with
    | none =>
      rw [inserted] at stopped
      cases stopped
    | some claims =>
      rw [inserted] at stopped
      cases stopped

end

/-- The claims migrated so far, each with the operation it resolves to. -/
theorem foldlM_migrateClaim {claims : List (LegacyClaim Hash)}
    {start final : Cache (RequestId × String) OperationId × Table (@ClaimRow.key Hash)}
    (sound : (store.graph fromStr).Sound start.1)
    (done : claims.foldlM (store.migrateClaim fromStr) start = .ok final) :
    ∃ rows, final.2.rows = start.2.rows ++ rows ∧
      List.Forall₂ (fun claim row => ∃ operation, row = migratedClaim claim operation ∧
        (store.graph fromStr).Resolved claim.key operation) claims rows := by
  induction claims generalizing start with
  | nil =>
    cases done
    exact ⟨[], by simp, .nil⟩
  | cons claim rest ih =>
    simp only [List.foldlM_cons, migrateClaim, bind_eq_ok, okOr_eq_ok, pure_eq_ok] at done
    obtain ⟨state, ⟨⟨operation, cache⟩, resolves, _, -, claims, inserted, rfl⟩, done⟩ := done
    obtain ⟨resolved, kept⟩ := Graph.resolve_sound sound resolves
    obtain ⟨rows, same, related⟩ := ih kept done
    obtain ⟨-, added⟩ := Table.insert?_eq_some.mp inserted
    refine ⟨migratedClaim claim operation :: rows, ?_, .cons ⟨operation, rfl, resolved⟩ related⟩
    rw [same, added, List.append_assoc]
    rfl

/-- What a migration that succeeds has resolved. -/
theorem resolved_of_migrateClaims (fresh : store.archive.claims.rows = [])
    (done : store.migrateClaims fromStr print = .ok next) :
    List.Forall₂ (fun claim row => ∃ operation, row = migratedClaim claim operation ∧
      (store.graph fromStr).Resolved claim.key operation)
      store.orderedClaims next.archive.claims.rows := by
  simp only [migrateClaims, bind_eq_ok, pure_eq_ok] at done
  obtain ⟨⟨cache, claims⟩, migrated, checkpoints, -, rfl⟩ := done
  obtain ⟨rows, same, related⟩ := foldlM_migrateClaim (by simp [Graph.Sound]) migrated
  rw [fresh, List.nil_append] at same
  exact same ▸ related

theorem perm_orderedClaims : store.orderedClaims.Perm store.claims.rows :=
  List.perm_insertionSort _ _

theorem commit_migration {failure : Stop MigrationError}
    (failed : store.migrateClaims fromStr print = .error failure) :
    commit (migration fromStr print) store = (.error failure, store) := by
  apply commit_of_error
  unfold Transaction.commit migration
  simp [answer, failed, StateT.run, bind, StateT.bind, Except.bind, liftM, monadLift,
    MonadLift.monadLift, StateT.lift, get, getThe, MonadStateOf.get, StateT.get, pure, Except.pure]

section

variable (acyclic : Ancestry.Acyclic store.parent)
include acyclic

theorem migrated_of_resolved {legacy : LegacyClaim Hash}
    (resolved : (store.graph fromStr).Resolved legacy.key operation) :
    store.Migrated fromStr legacy (migratedClaim legacy operation) where
  request := rfl
  call := by
    obtain ⟨root, ⟨chain, -⟩, issues⟩ := root_of_resolved acyclic resolved
    have same := chain_call chain
    rw [issues.names] at same
    exact same
  state := rfl
  output := rfl
  root := by
    obtain ⟨root, isRoot, issues⟩ := root_of_resolved acyclic resolved
    exact ⟨root, isRoot, issues, fun other also => root_unique acyclic resolved also isRoot⟩

/-- Two claims have one operation exactly when their copies meet. -/
theorem operation_eq_iff {other : OperationId}
    (left : (store.graph fromStr).Resolved claim operation)
    (right : (store.graph fromStr).Resolved source other) :
    operation = other ↔
      ∃ met, store.CopyChain fromStr claim met ∧ store.CopyChain fromStr source met := by
  constructor
  · intro same
    subst same
    obtain ⟨root, ⟨chain, -⟩, issues⟩ := root_of_resolved acyclic left
    obtain ⟨base, ⟨path, -⟩, issued⟩ := root_of_resolved acyclic right
    rw [issued.names, ← issues.names] at path
    exact ⟨root, chain, path⟩
  · intro meeting
    obtain ⟨met, chain, path⟩ := meeting
    obtain ⟨root, reaches, leaf⟩ := (resolved_of_chain acyclic left chain).root
    exact (resolved_of_chain acyclic right path).root_value reaches leaf

theorem migrateClaims_ne_exhausted : store.migrateClaims fromStr print ≠ .error .exhausted := by
  intro stopped
  rcases bind_eq_error.mp stopped with stopped | ⟨state, -, stopped⟩
  · exact foldlM_migrateClaim_ne_exhausted acyclic
      (fun claim member => perm_orderedClaims.mem_iff.mp member) _ stopped
  rcases bind_eq_error.mp stopped with stopped | ⟨checkpoints, -, stopped⟩
  · exact mapError_ne_error (fun cause same => by cases same) stopped
  · cases stopped

theorem resolved_of_row (fresh : store.archive.claims.rows = [])
    (done : store.migrateClaims fromStr print = .ok next) {row : ClaimRow Hash}
    (member : row ∈ next.archive.claims.rows) :
    (store.graph fromStr).Resolved (claimOf row) row.operation := by
  obtain ⟨claim, -, operation, rfl, resolved⟩ := exists_left_of_forall₂
    (resolved_of_migrateClaims fresh done) row member
  have call := (migrated_of_resolved acyclic resolved).call
  have same : claimOf (migratedClaim claim operation) = claim.key := Prod.ext rfl call
  rw [same]
  exact resolved

/-- A migration that cannot tell where a claim comes from is refused. -/
theorem migrateClaims_refused (fresh : store.archive.claims.rows = [])
    (unprovenanced : store.Unprovenanced fromStr) :
    store.migrateClaims fromStr print ≠ .ok next := by
  intro done
  obtain ⟨claim, member, broken⟩ := unprovenanced
  have listed := perm_orderedClaims.mem_iff.mpr member
  obtain ⟨row, -, operation, -, resolved⟩ := exists_right_of_forall₂
    (resolved_of_migrateClaims fresh done) claim listed
  rcases broken with ⟨met, chain, cycle | dangling⟩ | ⟨left, right, first, second, apart⟩
  · exact not_cyclic acyclic (resolved_of_chain acyclic resolved chain) cycle
  · exact not_dangling acyclic (resolved_of_chain acyclic resolved chain) dangling
  · exact apart (root_unique acyclic resolved first second)

/-- The migration of legacy claims always ends. When it succeeds, every claim is migrated
once, unchanged, to the operation of the one request where its copies begin, and two claims
share their operation exactly when their copies meet. A cycle, a dangling copy or a second
root refuses the migration and leaves every table as it was. -/
theorem migration_of_legacy_claims (fresh : store.archive.claims.rows = []) :
    store.migrateClaims fromStr print ≠ .error .exhausted ∧
    (∀ next, store.migrateClaims fromStr print = .ok next →
      (∃ order : List (LegacyClaim Hash), order.Perm store.claims.rows ∧
        List.Forall₂ (store.Migrated fromStr) order next.archive.claims.rows) ∧
      ∀ left ∈ next.archive.claims.rows, ∀ right ∈ next.archive.claims.rows,
        left.operation = right.operation ↔ ∃ met,
          store.CopyChain fromStr (claimOf left) met ∧
            store.CopyChain fromStr (claimOf right) met) ∧
    (store.Unprovenanced fromStr → ∃ failure,
      commit (migration fromStr print) store = (.error (.refused failure), store)) := by
  refine ⟨migrateClaims_ne_exhausted acyclic, fun next done => ⟨?_, ?_⟩, fun broken => ?_⟩
  · refine ⟨store.orderedClaims, perm_orderedClaims, ?_⟩
    refine (resolved_of_migrateClaims fresh done).imp fun claim row found => ?_
    obtain ⟨operation, rfl, resolved⟩ := found
    exact migrated_of_resolved acyclic resolved
  · intro left first right second
    exact operation_eq_iff acyclic (resolved_of_row acyclic fresh done first)
      (resolved_of_row acyclic fresh done second)
  · cases outcome : store.migrateClaims fromStr print with
    | ok next => exact absurd outcome (migrateClaims_refused acyclic fresh broken)
    | error stop =>
      cases stop with
      | exhausted => exact absurd outcome (migrateClaims_ne_exhausted acyclic)
      | refused failure => exact ⟨failure, commit_migration outcome⟩

end

end

/-- A request with a call, and the snapshot of a checkpoint that copied its claim. -/
def copiedStore : LegacyStore ℕ PUnit where
  archive :=
    { storeId := "store"
      bindings := .empty
      items := fun _ => some (.object [("call_id", .string "call"), ("input", .string "text"),
        ("name", .string "echo"), ("type", .string "custom_tool_call")])
      requests :=
        { rows := [⟨"first", none, "/root", none, none, none⟩,
            ⟨"snapshot", some "first", "/root", none, none, none⟩]
          distinct := by decide }
      placed :=
        { rows := [⟨"first", 0, 0, none, [], false, [], none⟩,
            ⟨"snapshot", 0, 0, none, [], false, [], none⟩]
          distinct := by decide }
      issued := .empty
      owned := .empty
      events := []
      envelopes := .empty
      claims := .empty
      compacted := fun _ => false }
  claims :=
    { rows := [⟨"snapshot", "call", .pending, none⟩, ⟨"first", "call", .interrupted, none⟩]
      distinct := by decide }
  checkpoints :=
    { rows := [⟨"checkpoint", "first", "snapshot", "[]"⟩]
      distinct := by decide }
  forkSource := fun _ => none

theorem copiedStore_acyclic : Ancestry.Acyclic copiedStore.parent := by
  apply Ancestry.acyclic_of_rank fun request => if request = "snapshot" then 1 else 0
  intro node above step
  have found : node = "snapshot" ∧ above = "first" := by
    obtain ⟨row, found, parent⟩ := Option.map_eq_some_iff.mp step
    have member := Table.mem_of_find? found
    have id := Table.key_of_find? found
    simp only [copiedStore, List.mem_cons, List.not_mem_nil, or_false] at member
    rcases member with rfl | rfl
    · cases parent
    · cases parent
      exact ⟨id.symm, rfl⟩
  rw [found.1, found.2]
  decide

theorem migration_of_copied_store :
    (copiedStore.migrateClaims (fun _ => .ok ⟨.array [], rfl⟩) (fun _ => "[]")).toOption.map
        (fun next => next.archive.claims.rows) =
      some [⟨⟨.standalone "store" "/root", "first", "call"⟩, "first", .interrupted, none, none⟩,
        ⟨⟨.standalone "store" "/root", "first", "call"⟩, "snapshot", .pending, none, none⟩] ∧
    copiedStore.migrateClaims (fun _ => .ok ⟨.array [], rfl⟩) (fun _ => "[]") ≠
      .error .exhausted :=
  ⟨rfl, (migration_of_legacy_claims copiedStore_acyclic rfl).1⟩

end ExomonadHarness.Store.LegacyStore
