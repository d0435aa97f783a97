import ExomonadHarness.Support.Checked

/-! Readings that must all agree. -/

namespace Checked

variable {Failure Source Reading : Type} [DecidableEq Reading]

/-- The one value that all sources are read as, if there is any source. -/
def agreed (read : Source → Except Failure Reading) (conflict : Failure) (sources : List Source) :
    Except Failure (Option Reading) :=
  sources.foldlM
    (fun found source => do
      let reading ← read source
      require (found.all (· = reading)) conflict
      return some reading) none

variable {read : Source → Except Failure Reading} {conflict : Failure} {sources : List Source}
  {reading : Reading}

private theorem agreed_from {found : Option Reading} :
    sources.foldlM
      (fun found source => do
        let reading ← read source
        require (found.all (· = reading)) conflict
        return some reading) (some reading) = .ok found ↔
      found = some reading ∧ ∀ source ∈ sources, read source = .ok reading := by
  induction sources generalizing reading with
  | nil =>
    rw [List.foldlM_nil, pure_eq_ok]
    simp [eq_comm]
  | cons source rest ih =>
    rw [List.foldlM_cons]
    simp only [bind_eq_ok, require_eq_ok, pure_eq_ok, List.forall_mem_cons]
    constructor
    · intro ran
      obtain ⟨_, ⟨other, passed, _, same, rfl⟩, ran⟩ := ran
      obtain ⟨answer, others⟩ := ih.mp ran
      have same : reading = other := by simpa using same
      subst same
      exact ⟨answer, passed, others⟩
    · intro ran
      obtain ⟨answer, passed, others⟩ := ran
      exact ⟨_, ⟨reading, passed, ⟨⟩, by simp, rfl⟩, ih.mpr ⟨answer, others⟩⟩

theorem agreed_eq_some : agreed read conflict sources = .ok (some reading) ↔
    sources ≠ [] ∧ ∀ source ∈ sources, read source = .ok reading := by
  cases sources with
  | nil => simp [agreed]
  | cons source rest =>
    rw [agreed, List.foldlM_cons]
    simp only [bind_eq_ok, require_eq_ok, pure_eq_ok, List.forall_mem_cons]
    constructor
    · intro ran
      obtain ⟨_, ⟨other, passed, _, _, rfl⟩, ran⟩ := ran
      obtain ⟨answer, others⟩ := agreed_from.mp ran
      cases answer
      exact ⟨List.cons_ne_nil _ _, passed, others⟩
    · intro ran
      obtain ⟨_, passed, others⟩ := ran
      exact ⟨_, ⟨reading, passed, ⟨⟩, rfl, rfl⟩, agreed_from.mpr ⟨rfl, others⟩⟩

theorem agreed_eq_none : agreed read conflict sources = .ok none ↔ sources = [] := by
  cases sources with
  | nil => simp [agreed]
  | cons source rest =>
    rw [agreed, List.foldlM_cons]
    simp only [bind_eq_ok, require_eq_ok, pure_eq_ok, reduceCtorEq, iff_false]
    intro ran
    obtain ⟨_, ⟨other, _, _, _, rfl⟩, ran⟩ := ran
    cases (agreed_from.mp ran).1

end Checked
