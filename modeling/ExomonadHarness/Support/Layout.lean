import Mathlib

/-! A sequence laid out in cells, some of which have an owner, and the two lists code
keeps of it: the items, and the owners with the positions of their items. -/

namespace Layout

variable {Owner Item : Type}

/-- A place of two sequences one after the other is a place of one of them. -/
theorem append_place {first second : List Item} {position : ℕ} {item : Item}
    (read : (first ++ second)[position]? = some item) : first[position]? = some item ∨
      ∃ place, position = first.length + place ∧ second[place]? = some item := by
  rcases Nat.lt_or_ge position first.length with inside | beyond
  · rw [List.getElem?_append_left inside] at read
    exact .inl read
  · rw [List.getElem?_append_right beyond] at read
    exact .inr ⟨position - first.length, by omega, read⟩

/-- The owners of the cells, each with its position counted from a start. -/
def ownersFrom (start : ℕ) : List (Option Owner × Item) → List (ℕ × Owner)
  | [] => []
  | (none, _) :: rest => ownersFrom (start + 1) rest
  | (some owner, _) :: rest => (start, owner) :: ownersFrom (start + 1) rest

def owners (cells : List (Option Owner × Item)) : List (ℕ × Owner) :=
  ownersFrom 0 cells

variable {cells later : List (Option Owner × Item)} {start position : ℕ} {owner : Owner}

theorem ownersFrom_append (start : ℕ) (cells later : List (Option Owner × Item)) :
    ownersFrom start (cells ++ later) =
      ownersFrom start cells ++ ownersFrom (start + cells.length) later := by
  induction cells generalizing start with
  | nil => rfl
  | cons first rest ih =>
    obtain ⟨owner, item⟩ := first
    have shifted : start + 1 + rest.length = start + (rest.length + 1) := by omega
    cases owner with
    | none => rw [List.cons_append, ownersFrom, ih, ownersFrom, List.length_cons, shifted]
    | some owner =>
      rw [List.cons_append, ownersFrom, ih, ownersFrom, List.length_cons, shifted, List.cons_append]

theorem ownersFrom_succ (start : ℕ) (cells : List (Option Owner × Item)) :
    ownersFrom (start + 1) cells = (ownersFrom start cells).map fun pair => (pair.1 + 1, pair.2) := by
  induction cells generalizing start with
  | nil => rfl
  | cons first rest ih =>
    obtain ⟨owner, item⟩ := first
    cases owner with
    | none => rw [ownersFrom, ownersFrom, ih]
    | some owner => rw [ownersFrom, ownersFrom, ih, List.map_cons]

theorem mem_ownersFrom : (position, owner) ∈ ownersFrom start cells ↔
    ∃ item, start ≤ position ∧ cells[position - start]? = some (some owner, item) := by
  induction cells generalizing start with
  | nil => simp [ownersFrom]
  | cons first rest ih =>
    obtain ⟨holder, content⟩ := first
    rcases Nat.lt_trichotomy position start with before | here | after
    · cases holder <;> simp [ownersFrom, ih] <;> omega
    · subst here
      cases holder <;> simp [ownersFrom, ih, eq_comm]
    · have different : position ≠ start := by omega
      have place : position - start = position - (start + 1) + 1 := by omega
      rw [place]
      cases holder <;> simp [ownersFrom, ih, different, after, after.le]

theorem mem_owners : (position, owner) ∈ owners cells ↔
    ∃ item, cells[position]? = some (some owner, item) := by
  simp [owners, mem_ownersFrom]

theorem ownersFrom_ascending (start : ℕ) (cells : List (Option Owner × Item)) :
    ((ownersFrom start cells).map Prod.fst).Pairwise (· < ·) := by
  induction cells generalizing start with
  | nil => exact .nil
  | cons first rest ih =>
    obtain ⟨owner, item⟩ := first
    cases owner with
    | none => exact ih (start + 1)
    | some owner =>
      rw [ownersFrom, List.map_cons, List.pairwise_cons]
      refine ⟨fun position listed => ?_, ih (start + 1)⟩
      obtain ⟨pair, member, rfl⟩ := List.mem_map.mp listed
      obtain ⟨_, after, _⟩ := mem_ownersFrom.mp member
      exact after

theorem owners_nodup (cells : List (Option Owner × Item)) :
    ((owners cells).map Prod.fst).Nodup :=
  (ownersFrom_ascending 0 cells).imp ne_of_lt

end Layout
