import ExomonadHarness.Budget.Accounting

/-! Whole runs of a cell: the limits hold, every scope's counts are explained by the
admissions of the run, and the first exhaustion is the answer to all that follow. -/

namespace ExomonadHarness.Budget

open Transport

theorem Counts.admissions_admitKind {counts : Counts} {limits : Limits} {tool : Bool}
    (room : counts.admissions tool < limits.admissions tool) (other : Bool) :
    (counts.admitKind tool).admissions other =
      counts.admissions other + if other = tool then 1 else 0 := by
  obtain ⟨requests, tools, _, _⟩ := limits.fits
  cases tool <;> cases other <;>
    simp only [Counts.admissions, Limits.admissions, Counts.admitKind] at room ⊢ <;>
    simp at room ⊢
  · apply Nat.mod_eq_of_lt
    omega
  · apply Nat.mod_eq_of_lt
    omega

theorem Counts.admissions_recordUsage (counts : Counts) (usage : Option Usage) (tool : Bool) :
    (counts.recordUsage usage).admissions tool = counts.admissions tool := by
  unfold Counts.recordUsage
  split
  · rfl
  · dsimp only
    split <;> rfl

/-- Whether an event is an admission granted directly to a budget. -/
def Event.admitted (budget : ℕ) (tool : Bool) : Event → Bool
  | .admitKind of kind (.ok _) => of == budget && kind == tool
  | _ => false

/-- The admissions of a run that were made directly through a budget. -/
def direct (events : List Event) (tool : Bool) (budget : ℕ) : ℕ :=
  events.countP (Event.admitted budget tool)

theorem direct_append (events : List Event) (event : Event) (tool : Bool) (budget : ℕ) :
    direct (events ++ [event]) tool budget =
      direct events tool budget + if event.admitted budget tool then 1 else 0 := by
  simp [direct, List.countP_append, List.countP_singleton]

namespace Cell

variable {latest : ℕ} {now : Readings} {cell next : Cell} {events : List Event} {event : Event}

/-- The budgets that draw on a scope. -/
def covered (cell : Cell) (id : ℕ) : Finset ℕ :=
  (Finset.range cell.budgets.length).filter (id ∈ cell.chain ·)

/-- Every scope has counted exactly the admissions of the budgets that draw on it. -/
structure Accounted (events : List Event) (cell : Cell) : Prop where
  fresh : ∀ budget, cell.budgets.length ≤ budget → ∀ tool, direct events tool budget = 0
  counted : ∀ {id : ℕ} {scope : Scope}, cell.scopes[id]? = some scope → ∀ tool,
    scope.counts.admissions tool = ∑ budget ∈ cell.covered id, direct events tool budget

theorem Accounted.congr (accounted : Accounted events cell) {later : List Event}
    (same : ∀ tool budget, direct later tool budget = direct events tool budget) :
    Accounted later cell where
  fresh := by
    intro budget outside tool
    rw [same]
    exact accounted.fresh budget outside tool
  counted := by
    intro id scope found tool
    simp only [same]
    exact accounted.counted found tool

theorem Accounted.gate (accounted : Accounted events cell) (scopes : next.scopes = cell.scopes)
    (budgets : next.budgets = cell.budgets) : Accounted events next := by
  obtain ⟨reason, cancelled, nextScopes, nextBudgets⟩ := next
  subst scopes budgets
  exact ⟨accounted.fresh, accounted.counted⟩

theorem Accounted.extend (accounted : Accounted events cell) (valid : cell.Valid)
    {chain : List ℕ} {scope : Scope} (fresh : scope.counts = {}) :
    Accounted events (cell.extend chain scope) where
  fresh := by
    intro other outside tool
    rw [extend_length] at outside
    exact accounted.fresh other (by omega) tool
  counted := by
    intro id found held tool
    have grown : ∑ below ∈ (cell.extend chain scope).covered id,
          direct events tool below =
        ∑ below ∈ cell.covered id, direct events tool below := by
      symm
      apply Finset.sum_subset_zero_on_sdiff
      · intro below member
        simp only [covered, Finset.mem_filter, Finset.mem_range, extend_length] at member ⊢
        refine ⟨by omega, ?_⟩
        rw [extend_chain_old scope member.1]
        exact member.2
      · intro below member
        simp only [covered, Finset.mem_sdiff, Finset.mem_filter, Finset.mem_range,
          extend_length] at member
        obtain ⟨⟨inside, drawn⟩, absent⟩ := member
        by_cases old : below < cell.budgets.length
        · rw [extend_chain_old scope old] at drawn
          exact absurd ⟨old, drawn⟩ absent
        · exact accounted.fresh below (by omega) tool
      · intro below _
        rfl
    rw [grown]
    rcases extend_getElem? held with old | ⟨rfl, rfl⟩
    · exact accounted.counted old tool
    · have empty : cell.covered cell.scopes.length = ∅ := by
        apply Finset.filter_eq_empty_iff.mpr
        intro below inside member
        have above := valid.le_of_mem (Finset.mem_range.mp inside) member
        have bound := Finset.mem_range.mp inside
        have aligned := valid.aligned
        omega
      simp [empty, fresh, Counts.admissions]

theorem mem_scopesOf {chain : List ℕ} {id : ℕ} {scope : Scope} (member : id ∈ chain)
    (found : cell.scopes[id]? = some scope) : scope ∈ cell.scopesOf chain :=
  List.mem_filterMap.mpr ⟨id, member, found⟩

theorem Accounted.admitKind (accounted : Accounted events cell) (valid : cell.Valid) {budget : ℕ}
    {tool : Bool} (known : budget < cell.budgets.length)
    (room : ∀ scope ∈ cell.scopesOf (cell.chain budget),
      scope.counts.admissions tool < scope.limits.admissions tool) :
    Accounted (events ++ [.admitKind budget tool (.ok ())])
      (cell.updateCounts (·.admitKind tool) (cell.chain budget)) where
  fresh := by
    intro other outside kind
    have different : ¬ budget = other := by
      rw [updateCounts_budgets] at outside
      omega
    rw [direct_append, accounted.fresh other outside]
    simp [Event.admitted, different]
  counted := by
    intro id scope found kind
    rw [updateCounts_getElem? _ (valid.nodup known)] at found
    obtain ⟨old, held, rfl⟩ := Option.map_eq_some_iff.mp found
    have before := accounted.counted held kind
    have sum : ∑ other ∈ cell.covered id,
          direct (events ++ [.admitKind budget tool (.ok ())]) kind other =
        (∑ other ∈ cell.covered id, direct events kind other) +
          if budget ∈ cell.covered id ∧ tool = kind then 1 else 0 := by
      simp only [direct_append, Finset.sum_add_distrib]
      congr 1
      by_cases same : tool = kind
      · simp [Event.admitted, same]
      · simp [Event.admitted, same]
    have drawn : budget ∈ cell.covered id ↔ id ∈ cell.chain budget := by
      simp [covered, known]
    change _ = ∑ other ∈ cell.covered id, _
    rw [sum, ← before]
    simp only [drawn]
    by_cases member : id ∈ cell.chain budget
    · have counts := Counts.admissions_admitKind (room old (mem_scopesOf member held)) kind
      simp only [member, if_true, true_and, counts, eq_comm]
    · simp [member]

/-- What a call keeps of a cell and of the account of its events. -/
theorem Accounted.step (valid : cell.Valid) (accounted : Accounted events cell)
    (taken : Step latest cell event next) : next.Valid ∧ Accounted (events ++ [event]) next := by
  have quiet (silent : ∀ budget tool, event.admitted budget tool = false) :
      Accounted (events ++ [event]) cell := by
    apply accounted.congr
    intro tool budget
    simp [direct_append, silent]
  cases taken with
  | narrow budget known limits now =>
    obtain ⟨parent, scope, found, within, fresh, narrowed⟩ :=
      valid.narrow_eq latest now known limits
    rw [narrowed]
    exact ⟨valid.extend known found within fresh, (quiet fun _ _ => rfl).extend valid fresh⟩
  | admitKind budget known tool now =>
    rcases admit_spec now cell (cell.chain budget) tool with
      ⟨_, admitted, room⟩ | ⟨reason, next, refused, _, scopes, budgets, _⟩
    · rw [admitted]
      dsimp only
      refine ⟨valid.updateCounts _ (valid.nodup known) ?_, accounted.admitKind valid known room⟩
      intro id scope member found other
      have free := room scope (mem_scopesOf member found)
      rw [Counts.admissions_admitKind free other]
      have within := valid.counted found other
      split
      · rename_i same
        subst same
        omega
      · omega
    · rw [refused] at quiet ⊢
      exact ⟨valid.gate scopes budgets, (quiet fun _ _ => rfl).gate scopes budgets⟩
  | usage budget known usage now =>
    have recorded : (cell.updateCounts (·.recordUsage usage) (cell.chain budget)).Valid := by
      apply valid.updateCounts _ (valid.nodup known)
      intro id scope _ found tool
      rw [Counts.admissions_recordUsage]
      exact valid.counted found tool
    have explained : Accounted (events ++ [.usage budget usage])
        (cell.updateCounts (·.recordUsage usage) (cell.chain budget)) := by
      refine ⟨(quiet fun _ _ => rfl).fresh, ?_⟩
      intro id scope found tool
      rw [updateCounts_getElem? _ (valid.nodup known)] at found
      obtain ⟨old, held, rfl⟩ := Option.map_eq_some_iff.mp found
      have before := (quiet fun _ _ => rfl).counted held tool
      split
      · rw [Counts.admissions_recordUsage]
        exact before
      · exact before
    unfold Cell.usage
    rcases check_spec now (cell.updateCounts (·.recordUsage usage) (cell.chain budget))
        (cell.chain budget) with ⟨_, checked⟩ | ⟨reason, next, checked, _, scopes, budgets, _⟩
    · rw [checked]
      exact ⟨recorded, explained⟩
    · rw [checked]
      exact ⟨recorded.gate scopes budgets, explained.gate scopes budgets⟩
  | exhausted budget known now =>
    unfold Cell.exhausted at quiet ⊢
    rcases check_spec now cell (cell.chain budget) with
      ⟨_, checked⟩ | ⟨reason, next, checked, _, scopes, budgets, _⟩
    · rw [checked] at quiet ⊢
      exact ⟨valid, quiet fun _ _ => rfl⟩
    · rw [checked] at quiet ⊢
      exact ⟨valid.gate scopes budgets, (quiet fun _ _ => rfl).gate scopes budgets⟩

end Cell

/-- The exhaustion a call reports to its caller. -/
def Event.reported : Event → Option Exhausted
  | .admitKind _ _ (.error reason) => some reason
  | .exhausted _ answer => answer
  | _ => none

variable {latest : ℕ} {cell next : Cell} {event : Event}

/-- A reported exhaustion is latched, and a latched reason stays and is what every
admission answers. -/
theorem Step.latched (taken : Step latest cell event next) :
    (∀ reason, event.reported = some reason → next.reason = some reason) ∧
      ∀ reason, cell.reason = some reason → next.reason = some reason ∧
        ∀ budget tool answer, event = .admitKind budget tool answer → answer = .error reason := by
  cases taken with
  | narrow budget known limits now =>
    refine ⟨by simp [Event.reported], ?_⟩
    intro reason held
    refine ⟨?_, by simp⟩
    unfold Cell.narrow
    split <;> exact held
  | admitKind budget known tool now =>
    rcases Cell.admit_spec now cell (cell.chain budget) tool with
      ⟨opened, admitted, _⟩ | ⟨reason, next, refused, latched, _, _, same⟩
    · rw [admitted]
      simp [Event.reported, opened]
    · rw [refused]
      refine ⟨by simpa [Event.reported] using latched, ?_⟩
      intro earlier held
      have agree := same earlier held
      subst agree
      refine ⟨latched, ?_⟩
      intro _ _ answer shape
      cases shape
      rfl
  | usage budget known usage now =>
    refine ⟨by simp [Event.reported], ?_⟩
    intro reason held
    refine ⟨?_, by simp⟩
    unfold Cell.usage
    rcases Cell.check_spec now (cell.updateCounts (·.recordUsage usage) (cell.chain budget))
        (cell.chain budget) with ⟨opened, _⟩ | ⟨latest, next, checked, latched, _, _, same⟩
    · exact absurd (held.symm.trans opened) (by simp)
    · rw [checked]
      rw [latched, same reason held]
  | exhausted budget known now =>
    unfold Cell.exhausted
    rcases Cell.check_spec now cell (cell.chain budget) with
      ⟨opened, checked⟩ | ⟨reason, next, checked, latched, _, _, same⟩
    · rw [checked]
      simp [Event.reported, opened]
    · rw [checked]
      refine ⟨by simpa [Event.reported] using latched, ?_⟩
      intro earlier held
      refine ⟨?_, by simp⟩
      rw [latched, same earlier held]

/-- A refused admission counts nothing in any scope. -/
theorem Step.refused {budget : ℕ} {tool : Bool} {reason : Exhausted}
    (taken : Step latest cell (.admitKind budget tool (.error reason)) next) :
    next.scopes = cell.scopes := by
  generalize called : Event.admitKind budget tool (.error reason) = event at taken
  cases taken with
  | admitKind budget known tool now =>
    rcases Cell.admit_spec now cell (cell.chain budget) tool with
      ⟨_, admitted, _⟩ | ⟨_, next, refused, _, scopes, _⟩
    · rw [admitted] at called
      simp at called
    · rw [refused]
      exact scopes
  | _ => simp at called

end ExomonadHarness.Budget
