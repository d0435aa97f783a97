import ExomonadHarness.Store.History
import ExomonadHarness.Support.Subsequence

/-! `store/replay.rs`: the occurrences a legacy response record is bound to, found by
the hashes it lists. -/

namespace ExomonadHarness.Store

open Subsequence

variable {Hash Window : Type} [DecidableEq Hash]

/-- The test of both scans. -/
def hasHash (hash : Hash) (occurrence : Occurrence Hash) : Bool :=
  occurrence.hash = hash

/-- The forward loop of `ordered_membership`. -/
def membershipFrom (original : List (Occurrence Hash)) : ℕ → List Hash → Option (List (Origin Hash))
  | _, [] => some []
  | start, hash :: rest => do
    let index ← firstFrom hasHash original hash start
    let found ← original[index]?
    let origins ← membershipFrom original (index + 1) rest
    return found.origin :: origins

/-- The backward loop, over the hashes in reverse. -/
def membershipBefore (original : List (Occurrence Hash)) :
    ℕ → List Hash → Option (List (Origin Hash))
  | _, [] => some []
  | limit, hash :: rest => do
    let index ← lastBefore hasHash original hash limit
    let found ← original[index]?
    let origins ← membershipBefore original index rest
    return found.origin :: origins

def orderedMembership (original : List (Occurrence Hash)) (hashes : List Hash) (reverse : Bool) :
    Option (List (Origin Hash)) :=
  if reverse then (membershipBefore original original.length hashes.reverse).map List.reverse
  else membershipFrom original 0 hashes

/-- The occurrences a request retained first itself. -/
def ownOccurrences (occurrences : List (Occurrence Hash)) : List (Occurrence Hash) :=
  occurrences.filter fun occurrence =>
    occurrence.request = occurrence.origin.request && occurrence.position = occurrence.origin.position

/-- The origins `response_envelopes` binds a record to; without them its hashes are unknown. -/
def legacyOrigins (original : List (Occurrence Hash)) (hashes : List Hash) :
    Option (List (Origin Hash)) :=
  (orderedMembership original hashes false).filter fun first =>
    some first = orderedMembership original hashes true

/-- The places behind the origins of `orderedMembership`. -/
def orderedPlaces (original : List (Occurrence Hash)) (hashes : List Hash) (reverse : Bool) :
    Option (List ℕ) :=
  if reverse then rightmostPlaces hasHash original hashes
  else leftmost hasHash original 0 hashes

def originsAt (original : List (Occurrence Hash)) (places : List ℕ) : List (Origin Hash) :=
  places.filterMap fun place => original[place]?.map Occurrence.origin

section

variable {original : List (Occurrence Hash)} {hashes : List Hash}

theorem membershipFrom_eq (start : ℕ) :
    membershipFrom original start hashes =
      (leftmost hasHash original start hashes).map (originsAt original) := by
  induction hashes generalizing start with
  | nil => rfl
  | cons hash rest ih =>
    rw [membershipFrom, leftmost]
    cases scanned : firstFrom hasHash original hash start with
    | none => rfl
    | some index =>
      obtain ⟨_, found, read, _⟩ := firstFrom_spec scanned
      simp only [Option.bind_eq_bind, Option.bind_some, read, ih]
      cases leftmost hasHash original (index + 1) rest with
      | none => rfl
      | some places => simp [originsAt, read]

theorem membershipBefore_eq (limit : ℕ) :
    membershipBefore original limit hashes =
      (rightmost hasHash original limit hashes).map (originsAt original) := by
  induction hashes generalizing limit with
  | nil => rfl
  | cons hash rest ih =>
    rw [membershipBefore, rightmost]
    cases scanned : lastBefore hasHash original hash limit with
    | none => rfl
    | some index =>
      obtain ⟨_, found, read, _⟩ := lastBefore_spec scanned
      simp only [Option.bind_eq_bind, Option.bind_some, read, ih]
      cases rightmost hasHash original index rest with
      | none => rfl
      | some places => simp [originsAt, read]

theorem orderedMembership_eq (reverse : Bool) :
    orderedMembership original hashes reverse =
      (orderedPlaces original hashes reverse).map (originsAt original) := by
  cases reverse with
  | false => exact membershipFrom_eq 0
  | true =>
    simp only [orderedMembership, orderedPlaces, rightmostPlaces, if_true, membershipBefore_eq,
      Option.map_map]
    congr 1
    funext places
    simp only [Function.comp_def, originsAt, List.filterMap_reverse]

/-- Where origins are distinct, they tell the places of two embeddings apart. -/
theorem originsAt_injective (distinct : (original.map Occurrence.origin).Nodup)
    {left right : List ℕ} (leftFit : List.Forall₂ (At hasHash original) hashes left)
    (rightFit : List.Forall₂ (At hasHash original) hashes right)
    (same : originsAt original left = originsAt original right) : left = right := by
  induction leftFit generalizing right with
  | nil =>
    cases rightFit
    rfl
  | @cons _ leftPlace _ _ here _ ih =>
    cases rightFit with
    | @cons _ rightPlace _ _ there rightFit =>
      obtain ⟨first, read, _⟩ := here
      obtain ⟨second, reread, _⟩ := there
      simp only [originsAt, List.filterMap_cons, read, reread, Option.map_some,
        List.cons.injEq] at same
      obtain ⟨head, tail⟩ := same
      have bound : leftPlace < (original.map Occurrence.origin).length := by
        rw [List.length_map]
        exact (List.getElem?_eq_some_iff.mp read).1
      have shared : (original.map Occurrence.origin)[leftPlace]? =
          (original.map Occurrence.origin)[rightPlace]? := by
        rw [List.getElem?_map, List.getElem?_map, read, reread, Option.map_some, Option.map_some,
          head]
      rw [(List.getElem?_inj bound distinct).mp shared, ih rightFit tail]

theorem legacyOrigins_eq_some (distinct : (original.map Occurrence.origin).Nodup)
    {origins : List (Origin Hash)} :
    legacyOrigins original hashes = some origins ↔
      ∃ places, (Embeds hasHash original hashes places ∧
        ∀ other, Embeds hasHash original hashes other → other = places) ∧
        origins = originsAt original places := by
  simp only [legacyOrigins, Option.filter_eq_some_iff, decide_eq_true_eq, orderedMembership_eq]
  constructor
  · intro bound
    obtain ⟨forward, backward⟩ := bound
    obtain ⟨first, left, rfl⟩ := Option.map_eq_some_iff.mp forward
    obtain ⟨last, right, same⟩ := Option.map_eq_some_iff.mp backward.symm
    have meet : first = last := originsAt_injective distinct (leftmost_embeds left).1.fit
      (rightmostPlaces_embeds right).fit same.symm
    subst meet
    exact ⟨first, scans_agree_iff.mp ⟨left, right⟩, rfl⟩
  · intro unique
    obtain ⟨places, only, rfl⟩ := unique
    obtain ⟨left, right⟩ := scans_agree_iff.mpr only
    have forward : orderedPlaces original hashes false = some places := left
    have backward : orderedPlaces original hashes true = some places := right
    rw [forward, backward]
    exact ⟨rfl, rfl⟩

omit [DecidableEq Hash] in
theorem ownOccurrences_distinct (archive : Archive Hash Window) (request : RequestId) :
    ((ownOccurrences (archive.occurrencesOf request)).map Occurrence.origin).Nodup := by
  have rows : ((archive.itemsOf request).map RequestItem.place).Nodup := by
    have sorted := (List.perm_insertionSort (fun left right : RequestItem Hash =>
      left.position ≤ right.position) (archive.placed.rows.filter (·.request = request)))
    refine (sorted.map _).nodup_iff.mpr ?_
    exact archive.placed.distinct.sublist (List.filter_sublist.map _)
  have placed : (archive.occurrencesOf request).Pairwise fun left right =>
      (left.request, left.position) ≠ (right.request, right.position) := by
    refine List.Pairwise.filterMap _ ?_ (List.pairwise_map.mp rows)
    intro left right apart first fromLeft second fromRight
    obtain ⟨_, _, rfl⟩ := Option.map_eq_some_iff.mp fromLeft
    obtain ⟨_, _, rfl⟩ := Option.map_eq_some_iff.mp fromRight
    exact apart
  have kept : (ownOccurrences (archive.occurrencesOf request)).Pairwise fun left right =>
      (left.request, left.position) ≠ (right.request, right.position) :=
    placed.sublist List.filter_sublist
  refine List.pairwise_map.mpr (kept.imp_of_mem ?_)
  intro left right leftMember rightMember apart same
  have leftOwn := (List.mem_filter.mp leftMember).2
  have rightOwn := (List.mem_filter.mp rightMember).2
  simp only [Bool.and_eq_true, decide_eq_true_eq] at leftOwn rightOwn
  refine apart ?_
  rw [leftOwn.1, leftOwn.2, rightOwn.1, rightOwn.2, same]

end

/-- The two scans exist and agree exactly when the hashes have one embedding, so a
legacy record is bound only where it can mean one list of occurrences. -/
theorem legacy_membership_unambiguous (archive : Archive Hash Window) :
    (∀ (original : List (Occurrence Hash)) (hashes : List Hash),
        (∃ places, orderedPlaces original hashes false = some places ∧
            orderedPlaces original hashes true = some places) ↔
          ∃! places, Embeds hasHash original hashes places) ∧
      (∀ (original : List (Occurrence Hash)) (hashes : List Hash) (reverse : Bool),
        orderedMembership original hashes reverse =
          (orderedPlaces original hashes reverse).map (originsAt original)) ∧
      ∀ (request : RequestId) (hashes : List Hash) (origins : List (Origin Hash)),
        legacyOrigins (ownOccurrences (archive.occurrencesOf request)) hashes = some origins ↔
          ∃ places, (Embeds hasHash (ownOccurrences (archive.occurrencesOf request)) hashes places ∧
            ∀ other, Embeds hasHash (ownOccurrences (archive.occurrencesOf request)) hashes other →
              other = places) ∧
            origins = originsAt (ownOccurrences (archive.occurrencesOf request)) places := by
  refine ⟨fun original hashes => ?_, fun original hashes reverse => orderedMembership_eq reverse,
    fun request hashes origins => legacyOrigins_eq_some (ownOccurrences_distinct archive request)⟩
  exact exists_congr fun places => scans_agree_iff

end ExomonadHarness.Store
