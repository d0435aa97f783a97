import ExomonadHarness.Budget.Cell

/-! Every scope keeps within its limits and counts exactly the admissions made
through it and through the scopes below it. -/

namespace ExomonadHarness.Budget

open Transport

/-- Neither a limit nor the deadline is looser than those of the other scope. -/
structure Scope.Within (scope other : Scope) : Prop where
  requests : scope.limits.requests ≤ other.limits.requests
  tools : scope.limits.tools ≤ other.limits.tools
  reportedTokens : scope.limits.reportedTokens ≤ other.limits.reportedTokens
  seconds : scope.limits.seconds ≤ other.limits.seconds
  deadline : scope.deadline ≤ other.deadline

theorem Scope.Within.refl (scope : Scope) : scope.Within scope :=
  ⟨le_refl _, le_refl _, le_refl _, le_refl _, le_refl _⟩

theorem Scope.Within.trans {first second third : Scope} (lower : first.Within second)
    (upper : second.Within third) : first.Within third :=
  ⟨lower.requests.trans upper.requests, lower.tools.trans upper.tools,
    lower.reportedTokens.trans upper.reportedTokens, lower.seconds.trans upper.seconds,
    lower.deadline.trans upper.deadline⟩

namespace Cell

variable {latest : ℕ} {now : Readings} {cell next : Cell} {chain : List ℕ}

theorem getElem?_chain_modify (change : Counts → Counts) (nodup : chain.Nodup)
    (scopes : List Scope) (id : ℕ) :
    (chain.foldl (fun scopes id =>
        scopes.modify id fun scope => { scope with counts := change scope.counts }) scopes)[id]? =
      (scopes[id]?).map fun scope =>
        if id ∈ chain then { scope with counts := change scope.counts } else scope := by
  induction chain generalizing scopes with
  | nil => simp
  | cons head rest ih =>
    obtain ⟨absent, nodup⟩ := List.nodup_cons.mp nodup
    rw [List.foldl_cons, ih nodup, List.getElem?_modify]
    by_cases same : head = id
    · subst same
      simp [absent, Function.comp_def]
    · simp [same, Ne.symm same]

theorem length_chain_modify (change : Counts → Counts) (scopes : List Scope) :
    (chain.foldl (fun scopes id =>
        scopes.modify id fun scope => { scope with counts := change scope.counts })
      scopes).length = scopes.length := by
  induction chain generalizing scopes with
  | nil => rfl
  | cons head rest ih => rw [List.foldl_cons, ih, List.length_modify]

theorem updateCounts_getElem? (change : Counts → Counts) (nodup : chain.Nodup) (id : ℕ) :
    (cell.updateCounts change chain).scopes[id]? =
      (cell.scopes[id]?).map fun scope =>
        if id ∈ chain then { scope with counts := change scope.counts } else scope :=
  getElem?_chain_modify change nodup cell.scopes id

@[simp] theorem updateCounts_length (change : Counts → Counts) :
    (cell.updateCounts change chain).scopes.length = cell.scopes.length :=
  length_chain_modify change cell.scopes

@[simp] theorem updateCounts_budgets (change : Counts → Counts) :
    (cell.updateCounts change chain).budgets = cell.budgets := rfl

/-- A check only ever touches the gate, and it fails with the reason it leaves. -/
theorem check_spec (now : Readings) (cell : Cell) (chain : List ℕ) :
    (cell.reason = none ∧ cell.check now chain = (.ok (), cell)) ∨
      ∃ reason next, cell.check now chain = (.error reason, next) ∧ next.reason = some reason ∧
        next.scopes = cell.scopes ∧ next.budgets = cell.budgets ∧
        ∀ earlier, cell.reason = some earlier → reason = earlier := by
  unfold check
  split
  · rename_i reason latched
    right
    refine ⟨reason, cell, rfl, latched, rfl, rfl, ?_⟩
    intro earlier held
    exact Option.some.inj (latched.symm.trans held)
  · rename_i opened
    split
    · rename_i reason _
      right
      refine ⟨reason, cell.latch reason, rfl, rfl, rfl, rfl, ?_⟩
      intro earlier held
      simp [opened] at held
    · exact .inl ⟨opened, rfl⟩

/-- An admission either fails with the reason it leaves and counts nothing, or
finds room in every scope and counts once in each. -/
theorem admit_spec (now : Readings) (cell : Cell) (chain : List ℕ) (tool : Bool) :
    (cell.reason = none ∧
        cell.admitKind now chain tool = (.ok (), cell.updateCounts (·.admitKind tool) chain) ∧
        ∀ scope ∈ cell.scopesOf chain,
          scope.counts.admissions tool < scope.limits.admissions tool) ∨
      ∃ reason next, cell.admitKind now chain tool = (.error reason, next) ∧
        next.reason = some reason ∧ next.scopes = cell.scopes ∧ next.budgets = cell.budgets ∧
        ∀ earlier, cell.reason = some earlier → reason = earlier := by
  rcases check_spec now cell chain with ⟨opened, checked⟩ | ⟨reason, next, checked, rest⟩
  · unfold admitKind
    rw [checked]
    dsimp only
    split
    · right
      refine ⟨_, _, rfl, rfl, rfl, rfl, ?_⟩
      intro earlier held
      simp [opened] at held
    · rename_i room
      left
      refine ⟨opened, rfl, ?_⟩
      simpa using room
  · right
    refine ⟨reason, next, ?_, rest⟩
    unfold admitKind
    rw [checked]

/-- What holds of every cell grown from one root. -/
structure Valid (cell : Cell) : Prop where
  aligned : cell.budgets.length = cell.scopes.length
  ascending : ∀ id < cell.budgets.length, (cell.chain id).Pairwise (· < ·)
  own : ∀ id < cell.budgets.length, (cell.chain id).getLast? = some id
  counted : ∀ {id : ℕ} {scope : Scope}, cell.scopes[id]? = some scope → ∀ tool,
    scope.counts.admissions tool ≤ scope.limits.admissions tool
  narrower : ∀ {id ancestor : ℕ} {scope other : Scope}, cell.scopes[id]? = some scope →
    ancestor ∈ cell.chain id → cell.scopes[ancestor]? = some other → scope.Within other

theorem Valid.le_of_mem (valid : cell.Valid) {id ancestor : ℕ}
    (known : id < cell.budgets.length) (member : ancestor ∈ cell.chain id) : ancestor ≤ id := by
  obtain ⟨ancestors, shape⟩ := List.getLast?_eq_some_iff.mp (valid.own id known)
  have ascending := valid.ascending id known
  rw [shape] at member ascending
  rcases List.mem_append.mp member with above | own
  · exact ((List.pairwise_append.mp ascending).2.2 ancestor above id (by simp)).le
  · exact (List.mem_singleton.mp own).le

theorem Valid.nodup (valid : cell.Valid) {id : ℕ} (known : id < cell.budgets.length) :
    (cell.chain id).Nodup :=
  (valid.ascending id known).imp (fun less => less.ne)

/-- Validity does not read the gate. -/
theorem Valid.gate (valid : cell.Valid) (scopes : next.scopes = cell.scopes)
    (budgets : next.budgets = cell.budgets) : next.Valid := by
  obtain ⟨reason, cancelled, nextScopes, nextBudgets⟩ := next
  subst scopes budgets
  exact ⟨valid.aligned, valid.ascending, valid.own, valid.counted, valid.narrower⟩

theorem Valid.updateCounts (valid : cell.Valid) (change : Counts → Counts)
    (nodup : chain.Nodup)
    (counted : ∀ {id : ℕ} {scope : Scope}, id ∈ chain → cell.scopes[id]? = some scope → ∀ tool,
      (change scope.counts).admissions tool ≤ scope.limits.admissions tool) :
    (cell.updateCounts change chain).Valid where
  aligned := by simpa using valid.aligned
  ascending := valid.ascending
  own := valid.own
  counted := by
    intro id scope found tool
    rw [updateCounts_getElem? change nodup] at found
    obtain ⟨old, held, rfl⟩ := Option.map_eq_some_iff.mp found
    split
    · rename_i member
      exact counted member held tool
    · exact valid.counted held tool
  narrower := by
    intro id ancestor scope other found member ancestorFound
    rw [updateCounts_getElem? change nodup] at found ancestorFound
    obtain ⟨old, held, rfl⟩ := Option.map_eq_some_iff.mp found
    obtain ⟨oldOther, otherHeld, rfl⟩ := Option.map_eq_some_iff.mp ancestorFound
    have within := valid.narrower held member otherHeld
    split <;> split <;>
      exact ⟨within.requests, within.tools, within.reportedTokens, within.seconds, within.deadline⟩

theorem narrow_within (latest : ℕ) (now : Readings) (parent : Scope) (limits : Limits) :
    Scope.Within
      { limits := parent.limits.narrow limits
        deadline := min parent.deadline
          (deadlineAfter latest now (parent.limits.narrow limits).seconds) } parent :=
  ⟨min_le_right _ _, min_le_right _ _, min_le_right _ _, min_le_right _ _, min_le_left _ _⟩

/-- A budget of a valid cell is narrowed below its own scope. -/
theorem Valid.narrow_eq (valid : cell.Valid) (latest : ℕ) (now : Readings) {budget : ℕ}
    (known : budget < cell.budgets.length) (limits : Limits) :
    ∃ parent scope, cell.scopes[budget]? = some parent ∧ scope.Within parent ∧
      scope.counts = {} ∧
      cell.narrow latest now (cell.chain budget) limits =
        cell.extend (cell.chain budget) scope := by
  have inside : budget < cell.scopes.length := valid.aligned ▸ known
  obtain ⟨ancestors, shape⟩ := List.getLast?_eq_some_iff.mp (valid.own budget known)
  have found : cell.scopes[budget]? = some cell.scopes[budget] := List.getElem?_eq_getElem inside
  have last : (cell.scopesOf (cell.chain budget)).getLast? = some cell.scopes[budget] := by
    rw [shape, scopesOf, List.filterMap_append]
    simp [found]
  refine ⟨_, _, found, narrow_within latest now _ limits, rfl, ?_⟩
  unfold narrow
  rw [last]

theorem extend_chain_old (scope : Scope) {id : ℕ} (known : id < cell.budgets.length) :
    (cell.extend chain scope).chain id = cell.chain id := by
  simp [extend, Cell.chain, List.getElem?_append_left known]

theorem extend_chain_new (scope : Scope) :
    (cell.extend chain scope).chain cell.budgets.length = chain ++ [cell.scopes.length] := by
  simp [extend, Cell.chain]

@[simp] theorem extend_length (scope : Scope) :
    (cell.extend chain scope).budgets.length = cell.budgets.length + 1 := by
  simp [extend]

theorem extend_getElem? {scope found : Scope} {id : ℕ}
    (held : (cell.extend chain scope).scopes[id]? = some found) :
    cell.scopes[id]? = some found ∨ id = cell.scopes.length ∧ found = scope := by
  unfold extend at held
  rw [List.getElem?_append] at held
  split at held
  · exact .inl held
  · rename_i outside
    obtain ⟨position, same⟩ := List.getElem?_eq_some_iff.mp held
    simp only [List.length_singleton] at position
    have last : id = cell.scopes.length := by omega
    subst last
    simp at same
    exact .inr ⟨rfl, same.symm⟩

/-- The scopes of a known budget below a new scope. -/
theorem Valid.extend (valid : cell.Valid) {budget : ℕ} {parent scope : Scope}
    (known : budget < cell.budgets.length) (found : cell.scopes[budget]? = some parent)
    (within : scope.Within parent) (fresh : scope.counts = {}) :
    (cell.extend (cell.chain budget) scope).Valid where
  aligned := by simp [Cell.extend, valid.aligned]
  ascending := by
    intro id inside
    rcases Nat.lt_succ_iff_lt_or_eq.mp (extend_length scope ▸ inside) with old | rfl
    · rw [extend_chain_old scope old]
      exact valid.ascending id old
    · rw [extend_chain_new]
      apply List.pairwise_append.mpr
      refine ⟨valid.ascending budget known, List.pairwise_singleton _ _, ?_⟩
      intro ancestor member last same
      have above := valid.le_of_mem known member
      have aligned := valid.aligned
      rw [List.mem_singleton.mp same]
      omega
  own := by
    intro id inside
    rcases Nat.lt_succ_iff_lt_or_eq.mp (extend_length scope ▸ inside) with old | rfl
    · rw [extend_chain_old scope old]
      exact valid.own id old
    · rw [extend_chain_new, valid.aligned]
      simp
  counted := by
    intro id other held tool
    rcases extend_getElem? held with old | ⟨_, rfl⟩
    · exact valid.counted old tool
    · simp [fresh, Counts.admissions]
  narrower := by
    intro id ancestor lower upper held member upperHeld
    rcases extend_getElem? held with old | ⟨rfl, rfl⟩
    · have inside : id < cell.budgets.length := by
        rw [valid.aligned]
        exact (List.getElem?_eq_some_iff.mp old).1
      rw [extend_chain_old scope inside] at member
      have above := valid.le_of_mem inside member
      rcases extend_getElem? upperHeld with upperOld | ⟨rfl, _⟩
      · exact valid.narrower old member upperOld
      · have aligned := valid.aligned
        omega
    · rw [← valid.aligned, extend_chain_new] at member
      rcases extend_getElem? upperHeld with upperOld | ⟨_, rfl⟩
      · rcases List.mem_append.mp member with above | own
        · exact within.trans (valid.narrower found above upperOld)
        · have outside := (List.getElem?_eq_some_iff.mp upperOld).1
          rw [List.mem_singleton.mp own] at outside
          exact absurd outside (lt_irrefl _)
      · exact Scope.Within.refl _

end Cell

end ExomonadHarness.Budget
