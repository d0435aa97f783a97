import Mathlib

/-! Sequences of checks that stop at the first failure. Each rule reads one
success backwards: which checks passed, and with what values. -/

namespace Checked

universe u v w

variable {Failure : Type u} {Value : Type v} {Next : Type v} {failure : Failure}

/-- Continue only when the condition holds. -/
def require (condition : Bool) (failure : Failure) : Except Failure PUnit.{v + 1} :=
  if condition then .ok ⟨⟩ else .error failure

/-- The value of an option, or the given failure. -/
def okOr (value : Option Value) (failure : Failure) : Except Failure Value :=
  match value with
  | some value => .ok value
  | none => .error failure

/-- Refuse at the first element that is bad. -/
def refuseFirst {Key : Type w} (keys : List Key) (bad : Key → Bool) (failure : Key → Failure) :
    Except Failure PUnit.{v + 1} :=
  match keys.find? bad with
  | some key => .error (failure key)
  | none => .ok ⟨⟩

@[simp] theorem bind_eq_ok {first : Except Failure Value} {next : Value → Except Failure Next}
    {result : Next} :
    (first >>= next) = .ok result ↔ ∃ value, first = .ok value ∧ next value = .ok result := by
  cases first with
  | error failure => simp [bind, Except.bind]
  | ok value => simp [bind, Except.bind]

theorem bind_eq_error {first : Except Failure Value} {next : Value → Except Failure Next} :
    (first >>= next) = .error failure ↔
      first = .error failure ∨ ∃ value, first = .ok value ∧ next value = .error failure := by
  cases first with
  | error failure => simp [bind, Except.bind]
  | ok value => simp [bind, Except.bind]

@[simp] theorem mapError_eq_ok {Other : Type u} {first : Except Failure Value}
    {relabel : Failure → Other} {result : Value} :
    first.mapError relabel = .ok result ↔ first = .ok result := by
  cases first <;> simp [Except.mapError]

@[simp] theorem map_eq_ok {first : Except Failure Value} {next : Value → Next} {result : Next} :
    (next <$> first) = .ok result ↔ ∃ value, first = .ok value ∧ next value = result := by
  cases first with
  | error failure => simp [Functor.map, Except.map]
  | ok value => simp [Functor.map, Except.map]

@[simp] theorem pure_eq_ok {value result : Value} :
    (pure value : Except Failure Value) = .ok result ↔ value = result := by
  simp [pure, Except.pure]

@[simp] theorem require_eq_ok {condition : Bool} {done : PUnit} :
    require condition failure = .ok done ↔ condition = true := by
  cases condition <;> simp [require]

@[simp] theorem okOr_eq_ok {value : Option Value} {result : Value} :
    okOr value failure = .ok result ↔ value = some result := by
  cases value <;> simp [okOr]

@[simp] theorem refuseFirst_eq_ok {Key : Type w} {keys : List Key} {bad : Key → Bool}
    {failure : Key → Failure} {done : PUnit} :
    refuseFirst keys bad failure = .ok done ↔ ∀ key ∈ keys, bad key = false := by
  unfold refuseFirst
  cases found : keys.find? bad with
  | some key =>
    have wrong := List.find?_some found
    have member := List.mem_of_find?_eq_some found
    simp only [reduceCtorEq, false_iff, not_forall]
    exact ⟨key, member, by simp [wrong]⟩
  | none => simpa using found

variable {Source : Type w} {Target : Type v} {sources : List Source} {targets : List Target}
  {relation : Source → Target → Prop}

/-- A checked traversal succeeds exactly when every element does, in order. -/
theorem mapM_eq_ok {check : Source → Except Failure Target} :
    sources.mapM check = .ok targets ↔
      List.Forall₂ (fun source target => check source = .ok target) sources targets := by
  induction sources generalizing targets with
  | nil => cases targets <;> simp [pure, Except.pure]
  | cons source rest ih =>
    rw [List.mapM_cons]
    simp only [bind_eq_ok, pure_eq_ok]
    constructor
    · rintro ⟨target, passed, others, passedRest, same⟩
      subst targets
      exact .cons passed (ih.mp passedRest)
    · rintro (_ | ⟨passed, passedRest⟩)
      exact ⟨_, passed, _, ih.mpr passedRest, rfl⟩

theorem mapM_error {check : Source → Except Failure Target}
    (failed : sources.mapM check = .error failure) :
    ∃ source ∈ sources, check source = .error failure := by
  induction sources with
  | nil => cases failed
  | cons source rest ih =>
    rw [List.mapM_cons] at failed
    rcases bind_eq_error.mp failed with stopped | ⟨target, _, failed⟩
    · exact ⟨source, List.mem_cons_self, stopped⟩
    · rcases bind_eq_error.mp failed with stopped | ⟨_, _, failed⟩
      · obtain ⟨other, member, stopped⟩ := ih stopped
        exact ⟨other, List.mem_cons_of_mem _ member, stopped⟩
      · cases failed

theorem mapM_attach_eq_ok {check : {source // source ∈ sources} → Except Failure Target}
    (same : ∀ source member target, check ⟨source, member⟩ = .ok target ↔ relation source target) :
    sources.attach.mapM check = .ok targets ↔ List.Forall₂ relation sources targets := by
  have pointwise : (fun source target => check source = .ok target) =
      fun (source : {source // source ∈ sources}) target => relation source.1 target :=
    funext fun source => funext fun target => propext (same source.1 source.2 target)
  rw [mapM_eq_ok, pointwise, ← List.forall₂_map_left_iff, List.attach_map_subtype_val]

theorem forM_eq_ok {check : Source → Except Failure PUnit} {done : PUnit} :
    forM sources check = .ok done ↔ ∀ source ∈ sources, check source = .ok done := by
  induction sources with
  | nil => simp [pure, Except.pure]
  | cons source rest ih =>
    rw [List.forM_cons]
    simp only [bind_eq_ok, ih, List.forall_mem_cons]
    constructor
    · rintro ⟨_, passed, others⟩
      exact ⟨passed, others⟩
    · rintro ⟨passed, others⟩
      exact ⟨_, passed, others⟩

/-- What every step of a checked fold keeps holds of its result. -/
theorem foldlM_invariant {step : Value → Source → Except Failure Value} {start final : Value}
    (holds : Value → Prop) (done : sources.foldlM step start = .ok final) (initial : holds start)
    (kept : ∀ source ∈ sources, ∀ {state next}, holds state → step state source = .ok next →
      holds next) : holds final := by
  induction sources generalizing start with
  | nil =>
    cases done
    exact initial
  | cons source rest ih =>
    rw [List.foldlM_cons, bind_eq_ok] at done
    obtain ⟨next, taken, done⟩ := done
    exact ih done (kept source List.mem_cons_self initial taken) fun other member =>
      kept other (List.mem_cons_of_mem _ member)

/-- A failure that no step of a checked fold reports is not reported by the fold. -/
theorem foldlM_ne_error {step : Value → Source → Except Failure Value} (start : Value)
    (each : ∀ source ∈ sources, ∀ state, step state source ≠ .error failure) :
    sources.foldlM step start ≠ .error failure := by
  induction sources generalizing start with
  | nil => simp [pure, Except.pure]
  | cons source rest ih =>
    rw [List.foldlM_cons, Ne, bind_eq_error]
    intro failed
    rcases failed with failed | ⟨next, -, failed⟩
    · exact each source List.mem_cons_self start failed
    · exact ih next (fun other member => each other (List.mem_cons_of_mem _ member)) failed

theorem mapError_ne_error {Other : Type u} {first : Except Failure Value}
    {relabel : Failure → Other} {failure : Other} (apart : ∀ cause, relabel cause ≠ failure) :
    first.mapError relabel ≠ .error failure := by
  cases first with
  | error cause => simpa [Except.mapError] using apart cause
  | ok => simp [Except.mapError]

/-! The same rules for checks that only pass or fail. -/

@[simp] theorem isOk_require (condition : Bool) (failure : Failure) :
    (require condition failure : Except Failure PUnit.{v + 1}).isOk = condition := by
  cases condition <;> rfl

theorem isOk_bind (first : Except Failure PUnit.{v + 1})
    (next : PUnit → Except Failure PUnit.{v + 1}) :
    (first >>= next).isOk = (first.isOk && (next ⟨⟩).isOk) := by
  cases first <;> rfl

theorem isOk_forM (sources : List Source) (check : Source → Except Failure PUnit.{v + 1}) :
    (forM sources check).isOk = sources.all fun source => (check source).isOk := by
  induction sources with
  | nil => rfl
  | cons source rest ih => rw [List.forM_cons, isOk_bind, ih, List.all_cons]

theorem isOk_iff {check : Except Failure PUnit.{v + 1}} :
    check.isOk = true ↔ check = .ok ⟨⟩ := by
  cases check <;> simp [Except.isOk, Except.toBool]

theorem toOption_any {check : Except Failure Value} {holds : Value → Bool}
    (passed : check.toOption.any holds = true) : ∃ value, check = .ok value ∧ holds value = true := by
  cases check with
  | error failure => cases passed
  | ok value => exact ⟨value, rfl, passed⟩

/-- The index carried along a traversal does not change its elements. -/
theorem forall₂_zipIdx {start : Nat} :
    List.Forall₂ (fun source target => relation source.1 target) (sources.zipIdx start) targets ↔
      List.Forall₂ relation sources targets := by
  induction sources generalizing targets start with
  | nil => cases targets <;> simp
  | cons source rest ih => cases targets <;> simp [List.zipIdx_cons, ih]

/-- A pointwise relation through a function of a middle element. -/
theorem forall₂_through {Middle : Type u} {relation : Source → Middle → Prop}
    {finish : Middle → Target} :
    List.Forall₂ (fun source target => ∃ middle, relation source middle ∧ finish middle = target)
        sources targets ↔
      ∃ middles, List.Forall₂ relation sources middles ∧ middles.map finish = targets := by
  induction sources generalizing targets with
  | nil =>
    constructor
    · intro related
      cases related
      exact ⟨[], .nil, rfl⟩
    · rintro ⟨middles, related, same⟩
      cases related
      subst same
      exact .nil
  | cons source rest ih =>
    constructor
    · rintro (_ | ⟨⟨middle, first, same⟩, others⟩)
      obtain ⟨middles, related, mapped⟩ := ih.mp others
      exact ⟨middle :: middles, .cons first related, by rw [List.map_cons, same, mapped]⟩
    · rintro ⟨middles, related, same⟩
      cases related with
      | cons first others =>
        subst same
        exact .cons ⟨_, first, rfl⟩ (ih.mpr ⟨_, others, rfl⟩)

/-! Traversals of a list with membership proofs, where the proof does not
matter to the outcome. -/

theorem all_attach {items : List Source} {holds : {item // item ∈ items} → Bool}
    {plain : Source → Bool} (same : ∀ item member, holds ⟨item, member⟩ = plain item) :
    items.attach.all holds = items.all plain := by
  have pointwise : holds = fun item => plain item.1 := funext fun item => same item.1 item.2
  rw [pointwise]
  simp

theorem any_attach {items : List Source} {holds : {item // item ∈ items} → Bool}
    {plain : Source → Bool} (same : ∀ item member, holds ⟨item, member⟩ = plain item) :
    items.attach.any holds = items.any plain := by
  have pointwise : holds = fun item => plain item.1 := funext fun item => same item.1 item.2
  rw [pointwise]
  simp

theorem countP_attach {items : List Source} {holds : {item // item ∈ items} → Bool}
    {plain : Source → Bool} (same : ∀ item member, holds ⟨item, member⟩ = plain item) :
    items.attach.countP holds = items.countP plain := by
  have pointwise : holds = fun item => plain item.1 := funext fun item => same item.1 item.2
  rw [pointwise, List.countP_attach]

theorem all_congr_of_mem {items : List Source} {first second : Source → Bool}
    (same : ∀ item ∈ items, first item = second item) : items.all first = items.all second := by
  induction items with
  | nil => rfl
  | cons item rest ih =>
    rw [List.all_cons, List.all_cons, same item List.mem_cons_self,
      ih fun item member => same item (List.mem_cons_of_mem _ member)]

/-- Where no two elements hold together, some element holds just when exactly
one does. -/
theorem countP_eq_one {items : List Source} {holds : Source → Bool}
    (disjoint : items.Pairwise fun first second => holds first = true → holds second = false) :
    (items.countP holds == 1) = items.any holds := by
  induction disjoint with
  | nil => rfl
  | cons apart _ ih =>
    rename_i item rest _
    rw [List.any_cons]
    cases here : holds item with
    | true =>
      have others : rest.countP holds = 0 :=
        List.countP_eq_zero.mpr fun other member => by simp [apart other member here]
      simp [here, others]
    | false => rw [List.countP_cons_of_neg (by simp [here]), ih, Bool.false_or]

theorem forall_left_of_forall₂ {holds : Source → Prop}
    (related : List.Forall₂ (fun source _ => holds source) sources targets) :
    ∀ source ∈ sources, holds source := by
  induction related with
  | nil => exact nofun
  | cons here _ ih => exact List.forall_mem_cons.mpr ⟨here, ih⟩

/-- A relation between lists holds of the elements it relates, with the
membership of each. -/
theorem forall₂_mem {wanted : Source → Target → Prop}
    (related : List.Forall₂ relation sources targets)
    (follows : ∀ source ∈ sources, ∀ target ∈ targets, relation source target → wanted source target) :
    List.Forall₂ wanted sources targets := by
  induction related with
  | nil => exact .nil
  | cons here _ ih =>
    refine .cons (follows _ List.mem_cons_self _ List.mem_cons_self here) (ih ?_)
    intro source member target targetMember
    exact follows source (List.mem_cons_of_mem _ member) target (List.mem_cons_of_mem _ targetMember)

theorem exists_left_of_forall₂ (related : List.Forall₂ relation sources targets) :
    ∀ target ∈ targets, ∃ source ∈ sources, relation source target := by
  refine forall_left_of_forall₂ (forall₂_mem related.flip ?_)
  intro target _ source member here
  exact ⟨source, member, here⟩

theorem exists_right_of_forall₂ (related : List.Forall₂ relation sources targets) :
    ∀ source ∈ sources, ∃ target ∈ targets, relation source target := by
  refine forall_left_of_forall₂ (forall₂_mem related ?_)
  intro source _ target member here
  exact ⟨target, member, here⟩

theorem getElem?_of_forall₂ (related : List.Forall₂ relation sources targets) {index : ℕ}
    {source : Source} {target : Target} (found : sources[index]? = some source)
    (reached : targets[index]? = some target) : relation source target := by
  induction related generalizing index with
  | nil => cases found
  | cons here _ ih =>
    cases index with
    | zero =>
      cases found
      cases reached
      exact here
    | succ index => exact ih (by simpa using found) (by simpa using reached)

/-- A relation that a second one undoes leads back to the same list. -/
theorem eq_of_forall₂ {results : List Source} {back : Target → Source → Prop}
    (related : List.Forall₂ relation sources targets) (returned : List.Forall₂ back targets results)
    (undoes : ∀ source target result, relation source target → back target result →
      result = source) : results = sources := by
  induction related generalizing results with
  | nil =>
    cases returned
    rfl
  | cons here _ ih =>
    cases returned with
    | cons back others => rw [undoes _ _ _ here back, ih others]

theorem any_of_forall₂ {first : Source → Bool} {second : Target → Bool}
    (related : List.Forall₂ (fun source target => second target = first source) sources targets) :
    targets.any second = sources.any first := by
  induction related with
  | nil => rfl
  | cons here _ ih => rw [List.any_cons, List.any_cons, here, ih]

theorem all_zipIdx {items : List Source} (plain : Source → Bool) (start : Nat) :
    ((items.zipIdx start).all fun item => plain item.1) = items.all plain := by
  induction items generalizing start with
  | nil => rfl
  | cons item rest ih => rw [List.zipIdx_cons, List.all_cons, List.all_cons, ih]

end Checked
