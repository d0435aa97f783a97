import Mathlib

/-! Taking one element out of a vector: the least by a comparison, and removal that
moves the last element into the gap. -/

namespace Selection

variable {α : Type}

/-- The last element takes the place of the removed one. -/
def swapRemove (items : List α) (index : ℕ) : Option (α × List α) := do
  let taken ← items[index]?
  let last ← items.getLast?
  return (taken, (items.set index last).dropLast)

/-- The first of the least elements. -/
def minBy (order : α → α → Ordering) : List α → Option α
  | [] => none
  | first :: rest =>
    some (rest.foldl (fun best other => if order best other = .gt then other else best) first)

theorem swapRemove_perm {items rest : List α} {index : ℕ} {taken : α}
    (removed : swapRemove items index = some (taken, rest)) : items.Perm (taken :: rest) := by
  simp only [swapRemove, Option.bind_eq_bind, Option.bind_eq_some_iff, Option.pure_def,
    Option.some.injEq, Prod.mk.injEq] at removed
  obtain ⟨found, read, last, final, rfl, rfl⟩ := removed
  obtain ⟨front, rfl⟩ := List.getLast?_eq_some_iff.mp final
  obtain ⟨bound, same⟩ := List.getElem?_eq_some_iff.mp read
  rw [List.length_append, List.length_singleton] at bound
  rcases Nat.lt_or_eq_of_le (Nat.le_of_lt_succ bound) with inside | ending
  · rw [List.getElem_append_left inside] at same
    rw [List.set_append_left _ _ inside, List.dropLast_concat]
    have split : front.set index last = front.take index ++ last :: front.drop (index + 1) := by
      rw [List.set_eq_take_append_cons_drop, if_pos inside]
    have whole : front = front.take index ++ found :: front.drop (index + 1) := by
      rw [← same, List.getElem_cons_drop, List.take_append_drop]
    rw [split]
    nth_rewrite 1 [whole]
    rw [List.append_assoc, List.cons_append]
    refine List.perm_middle.trans (.cons _ ?_)
    exact (List.perm_append_singleton _ _).append_left _
  · subst ending
    have taken : found = last := by simpa using same.symm
    subst taken
    rw [List.set_append_right _ _ le_rfl, Nat.sub_self, List.set_cons_zero, List.dropLast_concat]
    exact List.perm_append_singleton _ _

theorem minBy_isSome {order : α → α → Ordering} {items : List α} (nonempty : items ≠ []) :
    ∃ least, minBy order items = some least := by
  cases items with
  | nil => exact absurd rfl nonempty
  | cons first rest => exact ⟨_, rfl⟩

/-- What is found is in the list and no element comes before it. -/
theorem minBy_least {β : Type} [LinearOrder β] {key : α → β} {order : α → α → Ordering}
    (greater : ∀ left right, order left right = .gt ↔ key right < key left)
    {items : List α} {least : α} (found : minBy order items = some least) :
    least ∈ items ∧ ∀ item ∈ items, key least ≤ key item := by
  cases items with
  | nil => cases found
  | cons first rest =>
    cases found
    induction rest generalizing first with
    | nil => simp
    | cons second rest ih =>
      obtain ⟨member, below⟩ :=
        ih (if order first second = .gt then second else first)
      rw [List.foldl_cons]
      have head := below _ List.mem_cons_self
      have tail := fun item listed => below item (List.mem_cons_of_mem _ listed)
      by_cases swap : order first second = .gt
      · have less := (greater first second).mp swap
        rw [if_pos swap] at member head tail ⊢
        refine ⟨List.mem_cons_of_mem _ member, fun item listed => ?_⟩
        rcases List.mem_cons.mp listed with rfl | listed
        · exact head.trans less.le
        · rcases List.mem_cons.mp listed with rfl | listed
          · exact head
          · exact tail item listed
      · have most := not_lt.mp fun less => swap ((greater first second).mpr less)
        rw [if_neg swap] at member head tail ⊢
        refine ⟨?_, fun item listed => ?_⟩
        · rcases List.mem_cons.mp member with same | member
          · rw [same]
            exact List.mem_cons_self
          · exact List.mem_cons_of_mem _ (List.mem_cons_of_mem _ member)
        · rcases List.mem_cons.mp listed with rfl | listed
          · exact head
          · rcases List.mem_cons.mp listed with rfl | listed
            · exact head.trans most
            · exact tail item listed

end Selection
