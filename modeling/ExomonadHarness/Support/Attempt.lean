import Mathlib

/-! Computations that may fail and keep what they did before the failure. -/

namespace Attempt

variable {State Failure : Type} {α β : Type}

/-- A computation that changes a state and answers or fails; nothing is undone. -/
abbrev Computation (State Failure α : Type) := ExceptT Failure (StateM State) α

/-- A computed answer or failure. -/
def lift (result : Except Failure α) : Computation State Failure α :=
  ExceptT.mk (pure result)

/-- The computation answers from this state and leaves the next one. -/
def Reaches (attempt : Computation State Failure α) (state : State) (result : α) (next : State) : Prop :=
  attempt.run.run state = (.ok result, next)

variable {state next : State} {result : α}

@[simp] theorem reaches_pure {value : α} :
    Reaches (pure value : Computation State Failure α) state result next ↔
      result = value ∧ next = state := by
  change ((.ok value : Except Failure α), state) = (.ok result, next) ↔ _
  simp [eq_comm]

@[simp] theorem reaches_lift {computed : Except Failure α} :
    Reaches (lift computed : Computation State Failure α) state result next ↔
      computed = .ok result ∧ next = state := by
  change (computed, state) = (.ok result, next) ↔ _
  simp [eq_comm]

@[simp] theorem reaches_bind {attempt : Computation State Failure β}
    {rest : β → Computation State Failure α} :
    Reaches (attempt >>= rest) state result next ↔
      ∃ value middle, Reaches attempt state value middle ∧
        Reaches (rest value) middle result next := by
  have unfolded : (attempt >>= rest).run.run state =
      (ExceptT.bindCont rest (attempt.run.run state).1).run (attempt.run.run state).2 := rfl
  simp only [Reaches, unfolded]
  rcases attempt.run.run state with ⟨failed | answered, middle⟩
  · constructor
    · intro ran
      cases ran
    · intro ran
      obtain ⟨_, _, impossible, _⟩ := ran
      cases impossible
  · constructor
    · intro ran
      exact ⟨answered, middle, rfl, ran⟩
    · intro ran
      obtain ⟨_, _, same, ran⟩ := ran
      cases same
      exact ran

@[simp] theorem reaches_map {attempt : Computation State Failure β} {change : β → α} :
    Reaches (change <$> attempt) state result next ↔
      ∃ value, Reaches attempt state value next ∧ result = change value := by
  rw [map_eq_pure_bind, reaches_bind]
  simp only [reaches_pure]
  constructor
  · intro ran
    obtain ⟨value, middle, ran, same, still⟩ := ran
    subst still
    exact ⟨value, ran, same⟩
  · intro ran
    obtain ⟨value, ran, same⟩ := ran
    exact ⟨value, next, ran, same, rfl⟩

end Attempt
