import Mathlib

/-! Embeddings of one list in another, and the greedy scans that find the leftmost
and the rightmost one. -/

namespace Subsequence

variable {α β : Type} (fits : α → β → Bool) (text : List β)

/-- The item at a place is one that was sought. -/
def At (sought : α) (place : ℕ) : Prop :=
  ∃ item, text[place]? = some item ∧ fits sought item = true

/-- Ascending places of the text with the items that are sought, in order. -/
structure Embeds (wanted : List α) (places : List ℕ) : Prop where
  ascending : places.Pairwise (· < ·)
  fit : List.Forall₂ (At fits text) wanted places

/-- The first place from `start` on. -/
def firstFrom (sought : α) (start : ℕ) : Option ℕ :=
  ((text.drop start).findIdx? (fits sought)).map (start + ·)

/-- The last place before `limit`. -/
def lastBefore (sought : α) (limit : ℕ) : Option ℕ :=
  ((text.take limit).reverse.findIdx? (fits sought)).map ((text.take limit).length - 1 - ·)

/-- Take the first place that is left for each item. -/
def leftmost : ℕ → List α → Option (List ℕ)
  | _, [] => some []
  | start, sought :: rest => do
    let place ← firstFrom fits text sought start
    let places ← leftmost (place + 1) rest
    return place :: places

/-- Take the last place that is left for each item, from the last item on. -/
def rightmost : ℕ → List α → Option (List ℕ)
  | _, [] => some []
  | limit, sought :: rest => do
    let place ← lastBefore fits text sought limit
    let places ← rightmost place rest
    return place :: places

variable {fits text} {sought : α} {wanted : List α} {places : List ℕ} {place start limit : ℕ}

theorem firstFrom_spec (found : firstFrom fits text sought start = some place) :
    start ≤ place ∧ At fits text sought place := by
  obtain ⟨offset, index, rfl⟩ := Option.map_eq_some_iff.mp found
  obtain ⟨bound, fit, _⟩ := List.findIdx?_eq_some_iff_getElem.mp index
  refine ⟨Nat.le_add_right _ _, _, ?_, fit⟩
  rw [← List.getElem?_drop, List.getElem?_eq_getElem bound]

theorem firstFrom_le (after : start ≤ place) (here : At fits text sought place) :
    ∃ first, firstFrom fits text sought start = some first ∧ first ≤ place := by
  obtain ⟨item, read, fit⟩ := here
  obtain ⟨offset, rfl⟩ := Nat.exists_eq_add_of_le after
  rw [← List.getElem?_drop] at read
  cases scanned : (text.drop start).findIdx? (fits sought) with
  | none =>
    have absent := List.findIdx?_eq_none_iff.mp scanned item (List.mem_of_getElem? read)
    rw [fit] at absent
    cases absent
  | some index =>
    refine ⟨start + index, by rw [firstFrom, scanned]; rfl, Nat.add_le_add_left ?_ _⟩
    obtain ⟨_, _, earlier⟩ := List.findIdx?_eq_some_iff_getElem.mp scanned
    obtain ⟨bound, same⟩ := List.getElem?_eq_some_iff.mp read
    refine Nat.not_lt.mp fun before => earlier offset before ?_
    rw [same]
    exact fit

theorem lastBefore_spec (found : lastBefore fits text sought limit = some place) :
    place < limit ∧ At fits text sought place := by
  obtain ⟨offset, index, rfl⟩ := Option.map_eq_some_iff.mp found
  obtain ⟨bound, fit, _⟩ := List.findIdx?_eq_some_iff_getElem.mp index
  rw [List.length_reverse] at bound
  have within : (text.take limit).length - 1 - offset < (text.take limit).length := by omega
  have short : (text.take limit).length ≤ limit := by
    rw [List.length_take]
    exact min_le_left _ _
  refine ⟨by omega, _, ?_, fit⟩
  rw [List.getElem_reverse, ← List.getElem?_eq_getElem, List.getElem?_take_of_lt (by omega)]

theorem le_lastBefore (before : place < limit) (here : At fits text sought place) :
    ∃ last, lastBefore fits text sought limit = some last ∧ place ≤ last := by
  obtain ⟨item, read, fit⟩ := here
  rw [← List.getElem?_take_of_lt before] at read
  cases scanned : (text.take limit).reverse.findIdx? (fits sought) with
  | none =>
    have member := List.mem_reverse.mpr (List.mem_of_getElem? read)
    have absent := List.findIdx?_eq_none_iff.mp scanned item member
    rw [fit] at absent
    cases absent
  | some index =>
    refine ⟨(text.take limit).length - 1 - index, by rw [lastBefore, scanned]; rfl, ?_⟩
    obtain ⟨_, _, earlier⟩ := List.findIdx?_eq_some_iff_getElem.mp scanned
    obtain ⟨bound, same⟩ := List.getElem?_eq_some_iff.mp read
    refine Nat.not_lt.mp fun less => ?_
    have near : (text.take limit).length - 1 - place < index := by omega
    refine earlier _ near ?_
    have back : (text.take limit).length - 1 - ((text.take limit).length - 1 - place) = place := by
      omega
    simp only [List.getElem_reverse, back, same]
    exact fit

theorem leftmost_embeds (found : leftmost fits text start wanted = some places) :
    Embeds fits text wanted places ∧ ∀ place ∈ places, start ≤ place := by
  induction wanted generalizing start places with
  | nil =>
    cases found
    exact ⟨⟨.nil, .nil⟩, fun _ absent => absurd absent List.not_mem_nil⟩
  | cons sought rest ih =>
    simp only [leftmost, Option.bind_eq_bind, Option.bind_eq_some_iff, Option.pure_def,
      Option.some.injEq] at found
    obtain ⟨place, first, others, tail, rfl⟩ := found
    obtain ⟨after, here⟩ := firstFrom_spec first
    obtain ⟨embeds, beyond⟩ := ih tail
    refine ⟨⟨List.pairwise_cons.mpr ⟨fun other member => beyond other member, embeds.ascending⟩,
      .cons here embeds.fit⟩, ?_⟩
    intro other member
    rcases List.mem_cons.mp member with rfl | member
    · exact after
    · exact after.trans ((Nat.le_succ _).trans (beyond other member))

/-- No embedding has an item further left than the scan. -/
theorem leftmost_le (embeds : Embeds fits text wanted places) (after : ∀ place ∈ places, start ≤ place) :
    ∃ first, leftmost fits text start wanted = some first ∧ List.Forall₂ (· ≤ ·) first places := by
  obtain ⟨ascending, fit⟩ := embeds
  induction fit generalizing start with
  | nil => exact ⟨[], rfl, .nil⟩
  | @cons sought place wanted places here fit ih =>
    obtain ⟨beyond, ascending⟩ := List.pairwise_cons.mp ascending
    obtain ⟨first, found, least⟩ := firstFrom_le (after place List.mem_cons_self) here
    have further : ∀ other ∈ places, first + 1 ≤ other := fun other member =>
      Nat.succ_le_of_lt (least.trans_lt (beyond other member))
    obtain ⟨others, tail, below⟩ := ih further ascending
    refine ⟨first :: others, ?_, .cons least below⟩
    simp only [leftmost, found, tail, Option.bind_eq_bind, Option.bind_some, Option.pure_def]

theorem rightmost_embeds (found : rightmost fits text limit wanted = some places) :
    (places.Pairwise (· > ·) ∧ List.Forall₂ (At fits text) wanted places) ∧
      ∀ place ∈ places, place < limit := by
  induction wanted generalizing limit places with
  | nil =>
    cases found
    exact ⟨⟨.nil, .nil⟩, fun _ absent => absurd absent List.not_mem_nil⟩
  | cons sought rest ih =>
    simp only [rightmost, Option.bind_eq_bind, Option.bind_eq_some_iff, Option.pure_def,
      Option.some.injEq] at found
    obtain ⟨place, last, others, tail, rfl⟩ := found
    obtain ⟨before, here⟩ := lastBefore_spec last
    obtain ⟨⟨descending, fit⟩, below⟩ := ih tail
    refine ⟨⟨List.pairwise_cons.mpr ⟨below, descending⟩, .cons here fit⟩, ?_⟩
    intro other member
    rcases List.mem_cons.mp member with rfl | member
    · exact before
    · exact (below other member).trans before

/-- No embedding has an item further right than the scan. -/
theorem le_rightmost (descending : places.Pairwise (· > ·))
    (fit : List.Forall₂ (At fits text) wanted places) (before : ∀ place ∈ places, place < limit) :
    ∃ last, rightmost fits text limit wanted = some last ∧ List.Forall₂ (· ≤ ·) places last := by
  induction fit generalizing limit with
  | nil => exact ⟨[], rfl, .nil⟩
  | @cons sought place wanted places here fit ih =>
    obtain ⟨beyond, descending⟩ := List.pairwise_cons.mp descending
    obtain ⟨last, found, greatest⟩ := le_lastBefore (before place List.mem_cons_self) here
    have nearer : ∀ other ∈ places, other < last := fun other member =>
      (beyond other member).trans_le greatest
    obtain ⟨others, tail, above⟩ := ih descending nearer
    refine ⟨last :: others, ?_, .cons greatest above⟩
    simp only [rightmost, found, tail, Option.bind_eq_bind, Option.bind_some, Option.pure_def]

theorem Embeds.bounded (embeds : Embeds fits text wanted places) :
    ∀ place ∈ places, place < text.length := by
  have fit := embeds.fit
  clear embeds
  induction fit with
  | nil => exact fun _ absent => absurd absent List.not_mem_nil
  | cons here _ ih =>
    intro place member
    rcases List.mem_cons.mp member with rfl | member
    · obtain ⟨item, read, _⟩ := here
      exact (List.getElem?_eq_some_iff.mp read).1
    · exact ih place member

/-- The places of the rightmost embedding, in ascending order. -/
def rightmostPlaces (fits : α → β → Bool) (text : List β) (wanted : List α) : Option (List ℕ) :=
  (rightmost fits text text.length wanted.reverse).map List.reverse

theorem rightmostPlaces_embeds (found : rightmostPlaces fits text wanted = some places) :
    Embeds fits text wanted places := by
  obtain ⟨last, scanned, rfl⟩ := Option.map_eq_some_iff.mp found
  obtain ⟨⟨descending, fit⟩, _⟩ := rightmost_embeds scanned
  refine ⟨List.pairwise_reverse.mpr descending, ?_⟩
  have reversed := List.rel_reverse fit
  rw [List.reverse_reverse] at reversed
  exact reversed

theorem le_rightmostPlaces (embeds : Embeds fits text wanted places) :
    ∃ last, rightmostPlaces fits text wanted = some last ∧ List.Forall₂ (· ≤ ·) places last := by
  have inside : ∀ place ∈ places.reverse, place < text.length := fun place member =>
    embeds.bounded place (List.mem_reverse.mp member)
  obtain ⟨last, scanned, above⟩ := le_rightmost (List.pairwise_reverse.mpr embeds.ascending)
    (List.rel_reverse embeds.fit) inside
  refine ⟨last.reverse, by rw [rightmostPlaces, scanned]; rfl, ?_⟩
  have reversed := List.rel_reverse above
  rw [List.reverse_reverse] at reversed
  exact reversed

theorem eq_of_forall₂_le {left right : List ℕ} (below : List.Forall₂ (· ≤ ·) left right)
    (above : List.Forall₂ (· ≤ ·) right left) : left = right := by
  induction below with
  | nil => rfl
  | cons le _ ih =>
    cases above with
    | cons ge above => rw [le_antisymm le ge, ih above]

/-- The two scans meet exactly when there is one embedding only. -/
theorem scans_agree_iff :
    leftmost fits text 0 wanted = some places ∧ rightmostPlaces fits text wanted = some places ↔
      Embeds fits text wanted places ∧
        ∀ other, Embeds fits text wanted other → other = places := by
  constructor
  · intro agree
    refine ⟨(leftmost_embeds agree.1).1, fun other embeds => ?_⟩
    obtain ⟨first, left, below⟩ := leftmost_le embeds fun place _ => Nat.zero_le place
    obtain ⟨last, right, above⟩ := le_rightmostPlaces embeds
    rw [agree.1] at left
    rw [agree.2] at right
    cases left
    cases right
    exact eq_of_forall₂_le above below
  · intro unique
    obtain ⟨embeds, only⟩ := unique
    obtain ⟨first, left, _⟩ := leftmost_le embeds fun place _ => Nat.zero_le place
    obtain ⟨last, right, _⟩ := le_rightmostPlaces embeds
    rw [left, right, only first (leftmost_embeds left).1, only last (rightmostPlaces_embeds right)]
    exact ⟨rfl, rfl⟩

end Subsequence
