import Mathlib

/-! Transactions over a state, with rules for what a committed one ensures. -/

namespace Transaction

variable {State Failure : Type} {α β : Type}

/-- A transaction reads and writes the state and answers, or is refused. -/
abbrev Tx (State Failure α : Type) := StateT State (Except Failure) α

/-- Commit an accepted transaction and roll a refused one back. -/
def commit (tx : Tx State Failure α) (state : State) : Except Failure α × State :=
  match tx.run state with
  | .ok (answer, next) => (.ok answer, next)
  | .error failure => (.error failure, state)

/-- A computed answer or refusal. -/
def answer (result : Except Failure α) : Tx State Failure α :=
  liftM result

/-- Run a step that only reads the state and may refuse. -/
def observe (read : State → Except Failure α) : Tx State Failure α := do
  let state ← get
  answer (read state)

/-- The transaction answers from this state and leaves the next one. -/
def Answers (tx : Tx State Failure α) (state : State) (result : α) (next : State) : Prop :=
  tx.run state = .ok (result, next)

section

variable {state next : State} {result : α}

@[simp] theorem answers_pure {value : α} :
    Answers (pure value : Tx State Failure α) state result next ↔ result = value ∧ next = state := by
  rw [Answers, StateT.run_pure]
  constructor
  · intro same
    cases same
    exact ⟨rfl, rfl⟩
  · intro same
    rw [same.1, same.2]
    rfl

@[simp] theorem answers_bind {tx : Tx State Failure β} {rest : β → Tx State Failure α} :
    Answers (tx >>= rest) state result next ↔
      ∃ value middle, Answers tx state value middle ∧ Answers (rest value) middle result next := by
  simp only [Answers, StateT.run_bind]
  cases tx.run state with
  | error failure =>
    constructor
    · intro ran
      cases ran
    · intro ran
      obtain ⟨_, _, impossible, _⟩ := ran
      cases impossible
  | ok reached =>
    obtain ⟨value, middle⟩ := reached
    constructor
    · intro ran
      exact ⟨value, middle, rfl, ran⟩
    · intro ran
      obtain ⟨_, _, same, ran⟩ := ran
      cases same
      exact ran

@[simp] theorem answers_get {value : State} :
    Answers (get : Tx State Failure State) state value next ↔ value = state ∧ next = state :=
  answers_pure

@[simp] theorem answers_set {value : State} {done : PUnit} :
    Answers (set value : Tx State Failure PUnit) state done next ↔ next = value := by
  constructor
  · intro ran
    cases ran
    rfl
  · intro same
    rw [same]
    rfl

@[simp] theorem answers_modify {change : State → State} {done : PUnit} :
    Answers (modify change : Tx State Failure PUnit) state done next ↔ next = change state := by
  constructor
  · intro ran
    cases ran
    rfl
  · intro same
    rw [same]
    rfl

@[simp] theorem answers_answer {computed : Except Failure α} :
    Answers (answer computed : Tx State Failure α) state result next ↔
      computed = .ok result ∧ next = state := by
  cases computed with
  | error failure =>
    constructor
    · intro ran
      cases ran
    · intro ran
      cases ran.1
  | ok value =>
    constructor
    · intro ran
      cases ran
      exact ⟨rfl, rfl⟩
    · intro ran
      obtain ⟨same, still⟩ := ran
      cases same
      cases still
      rfl

@[simp] theorem answers_observe {read : State → Except Failure α} :
    Answers (observe read : Tx State Failure α) state result next ↔
      read state = .ok result ∧ next = state := by
  simp [observe, and_comm]

@[simp] theorem answers_map {tx : Tx State Failure β} {change : β → α} :
    Answers (change <$> tx) state result next ↔
      ∃ value, Answers tx state value next ∧ result = change value := by
  rw [map_eq_pure_bind, answers_bind]
  simp only [answers_pure]
  constructor
  · intro ran
    obtain ⟨value, middle, ran, same, still⟩ := ran
    subst still
    exact ⟨value, ran, same⟩
  · intro ran
    obtain ⟨value, ran, same⟩ := ran
    exact ⟨value, next, ran, same, rfl⟩

@[simp] theorem answers_forM_cons {Element : Type} {element : Element} {rest : List Element}
    {each : Element → Tx State Failure PUnit} {done : PUnit} :
    Answers (List.forM (element :: rest) each) state done next ↔
      ∃ middle, Answers (each element) state ⟨⟩ middle ∧
        Answers (rest.forM each) middle done next := by
  change Answers (each element >>= fun _ => rest.forM each) state done next ↔ _
  rw [answers_bind]
  constructor
  · intro ran
    obtain ⟨_, middle, first, later⟩ := ran
    exact ⟨middle, first, later⟩
  · intro ran
    obtain ⟨middle, first, later⟩ := ran
    exact ⟨⟨⟩, middle, first, later⟩

variable {tx : Tx State Failure α}

/-- A committed transaction answered and moved on. -/
theorem commit_eq_ok :
    commit tx state = (.ok result, next) ↔ Answers tx state result next := by
  unfold Transaction.commit Answers
  split
  case h_1 answer reached ran =>
    rw [ran]
    simp only [Prod.mk.injEq, Except.ok.injEq]
  case h_2 failure ran =>
    rw [ran]
    simp

/-- A transaction whose commit answered ran to the committed state. -/
theorem answers_commit (answered : (commit tx state).1 = .ok result) :
    Answers tx state result (commit tx state).2 :=
  commit_eq_ok.mp (Prod.ext answered rfl)

theorem commit_of_error {failure : Failure} (refused : (commit tx state).1 = .error failure) :
    commit tx state = (.error failure, state) := by
  unfold Transaction.commit at refused ⊢
  split
  case h_1 answer reached ran =>
    rw [ran] at refused
    cases refused
  case h_2 other ran =>
    rw [ran] at refused
    cases refused
    rfl

/-- A transaction that answers nothing is refused and rolled back. -/
theorem commit_refused (silent : ∀ result next, ¬ Answers tx state result next) :
    ∃ failure, commit tx state = (.error failure, state) := by
  cases ran : tx.run state with
  | ok reached => exact absurd ran (silent reached.1 reached.2)
  | error failure =>
    refine ⟨failure, ?_⟩
    rw [Transaction.commit, ran]

end

end Transaction
