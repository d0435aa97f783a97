import Mathlib

/-! Climbing from a node along the parents that rows record. -/

namespace Ancestry

variable {Node : Type} {parent : Node → Option (Option Node)} {fuel : ℕ} {node start above : Node}

/-- The row of a node records the parent. -/
def Above (parent : Node → Option (Option Node)) (node above : Node) : Prop :=
  parent node = some (some above)

def Acyclic (parent : Node → Option (Option Node)) : Prop :=
  ∀ node, ¬Relation.TransGen (Above parent) node node

theorem acyclic_of_rank (rank : Node → ℕ)
    (falls : ∀ node above, Above parent node above → rank above < rank node) : Acyclic parent := by
  intro node cycle
  have lower : ∀ above, Relation.TransGen (Above parent) node above → rank above < rank node := by
    intro above climbed
    induction climbed with
    | single step => exact falls _ _ step
    | tail _ step ih => exact (falls _ _ step).trans ih
  exact (lower node cycle).ne rfl

/-- The nodes from one upwards, as far as their rows are found. -/
def climb (parent : Node → Option (Option Node)) : ℕ → Node → List Node
  | 0, _ => []
  | fuel + 1, node =>
    match parent node with
    | none => []
    | some above => node :: above.elim [] (climb parent fuel)

theorem climb_reached (member : node ∈ climb parent fuel start) :
    Relation.ReflTransGen (Above parent) start node ∧ (parent node).isSome := by
  induction fuel generalizing start with
  | zero => cases member
  | succ fuel ih =>
    rw [climb] at member
    split at member
    case h_1 => cases member
    case h_2 above found =>
      rcases List.mem_cons.mp member with same | member
      · subst same
        exact ⟨.refl, by rw [found]; rfl⟩
      · cases above with
        | none => cases member
        | some above =>
          obtain ⟨reached, present⟩ := ih member
          exact ⟨.head found reached, present⟩

/-- While a known node is still to be passed there is fuel left. -/
theorem fuel_pos {known passed : List Node} (acyclic : Acyclic parent)
    (knows : ∀ node, (parent node).isSome → node ∈ known) (present : (parent start).isSome)
    (enough : known.length ≤ fuel + passed.length) (distinct : passed.Nodup)
    (within : passed ⊆ known)
    (below : ∀ lower ∈ passed, Relation.TransGen (Above parent) lower start) :
    ∃ left, fuel = left + 1 := by
  have outside : start ∉ passed := fun inside => acyclic start (below start inside)
  have all : start :: passed ⊆ known := List.cons_subset.mpr ⟨knows start present, within⟩
  have few := ((List.nodup_cons.mpr ⟨outside, distinct⟩).subperm all).length_le
  rw [List.length_cons] at few
  exact ⟨fuel - 1, by omega⟩

/-- Whoever is reached is climbed to: the nodes passed on the way are distinct known ones. -/
theorem mem_climb_of_reached {known passed : List Node} (acyclic : Acyclic parent)
    (knows : ∀ node, (parent node).isSome → node ∈ known)
    (reached : Relation.ReflTransGen (Above parent) start node) (present : (parent node).isSome)
    (enough : known.length ≤ fuel + passed.length) (distinct : passed.Nodup)
    (within : passed ⊆ known)
    (below : ∀ lower ∈ passed, Relation.TransGen (Above parent) lower start) :
    node ∈ climb parent fuel start := by
  induction reached using Relation.ReflTransGen.head_induction_on generalizing fuel passed with
  | refl =>
    obtain ⟨fuel, rfl⟩ := fuel_pos acyclic knows present enough distinct within below
    obtain ⟨above, found⟩ := Option.isSome_iff_exists.mp present
    simp [climb, found]
  | @head start above step _ ih =>
    have known : (parent start).isSome := by
      rw [show parent start = some (some above) from step]
      rfl
    obtain ⟨fuel, rfl⟩ := fuel_pos acyclic knows known enough distinct within below
    have outside : start ∉ passed := fun inside => acyclic start (below start inside)
    rw [climb, show parent start = some (some above) from step]
    refine List.mem_cons_of_mem _ (@ih fuel (start :: passed) ?_ ?_ ?_ ?_)
    · rw [List.length_cons]
      omega
    · exact List.nodup_cons.mpr ⟨outside, distinct⟩
    · exact List.cons_subset.mpr ⟨knows start known, within⟩
    · intro lower member
      rcases List.mem_cons.mp member with same | member
      · exact same ▸ .single step
      · exact (below lower member).tail step

theorem mem_climb {known : List Node} (acyclic : Acyclic parent)
    (knows : ∀ node, (parent node).isSome → node ∈ known) :
    node ∈ climb parent known.length start ↔
      Relation.ReflTransGen (Above parent) start node ∧ (parent node).isSome := by
  constructor
  · exact climb_reached
  · intro reached
    exact mem_climb_of_reached acyclic knows reached.1 reached.2 le_rfl .nil (by simp) (by simp)

end Ancestry
