import Mathlib

/-! Nodes with at most one parent each: walking up from every node once finds every cycle. -/

namespace Lineage

open Relation

variable {Node : Type}

def Up (parent : Node → Option Node) (node above : Node) : Prop :=
  parent node = some above

abbrev Reaches (parent : Node → Option Node) : Node → Node → Prop :=
  ReflTransGen (Up parent)

def Cyclic (parent : Node → Option Node) (node : Node) : Prop :=
  TransGen (Up parent) node node

/-- The nodes of one cycle. -/
structure Loop (parent : Node → Option Node) (cycle : List Node) : Prop where
  nonempty : cycle ≠ []
  distinct : cycle.Nodup
  closed : ∀ node ∈ cycle, ∃ above ∈ cycle, Up parent node above
  connected : ∀ node ∈ cycle, ∀ other ∈ cycle, Reaches parent node other

variable {parent : Node → Option Node} {node above other : Node} {cycle : List Node}

/-- There is one way up. -/
theorem reaches_total (left : Reaches parent node above) (right : Reaches parent node other) :
    Reaches parent above other ∨ Reaches parent other above :=
  ReflTransGen.total_of_right_unique
    (fun _ _ _ first second => Option.some.inj (first.symm.trans second)) left right

/-- From a cycle every way up leads back. -/
theorem Cyclic.back (cyclic : Cyclic parent node) (reaches : Reaches parent node other) :
    Reaches parent other node := by
  induction reaches with
  | refl => exact .refl
  | @tail middle last _ up ih =>
    have first : ∃ next, Up parent middle next ∧ Reaches parent next node := by
      rcases ReflTransGen.cases_head ih with same | first
      · subst same
        exact TransGen.head'_iff.mp cyclic
      · exact first
    obtain ⟨next, step, rest⟩ := first
    obtain rfl : next = last := Option.some.inj (step.symm.trans up)
    exact rest

/-- A cycle from which a set that no way up leaves can be reached lies in it. -/
theorem Cyclic.mem_of_closed (cyclic : Cyclic parent node) {set : List Node}
    (closed : ∀ node ∈ set, ∀ above, Up parent node above → above ∈ set)
    (reaches : Reaches parent node other) (member : other ∈ set) : node ∈ set := by
  have back := cyclic.back reaches
  clear reaches cyclic
  induction back with
  | refl => exact member
  | tail _ up ih => exact closed _ ih _ up

theorem Cyclic.reached (cyclic : Cyclic parent node) (reaches : Reaches parent node other) :
    Cyclic parent other := by
  have back := cyclic.back reaches
  rcases ReflTransGen.cases_head reaches with same | ⟨next, up, rest⟩
  · exact same ▸ cyclic
  · exact TransGen.trans_right back (TransGen.head' up rest)

theorem chain_pairwise {path : List Node} (chain : path.IsChain (Up parent)) :
    path.Pairwise (Reaches parent) := by
  have reach : path.IsChain (Reaches parent) := chain.imp fun _ _ up => .single up
  exact reach.pairwise

theorem chain_reaches {path : List Node} (chain : path.IsChain (Up parent)) (nonempty : path ≠ [])
    (member : node ∈ path) : Reaches parent (path.head nonempty) node := by
  have ordered := chain_pairwise chain
  cases path with
  | nil => cases member
  | cons first rest =>
    rcases List.mem_cons.mp member with same | later
    · subst same
      exact .refl
    · exact (List.pairwise_cons.mp ordered).1 node later

theorem chain_reaches_last {path : List Node} (chain : path.IsChain (Up parent))
    (nonempty : path ≠ []) (member : node ∈ path) :
    Reaches parent node (path.getLast nonempty) := by
  have ordered := chain_pairwise chain
  rw [← List.dropLast_append_getLast nonempty] at member ordered
  rcases List.mem_append.mp member with before | last
  · exact (List.pairwise_append.mp ordered).2.2 node before _ (List.mem_singleton_self _)
  · rw [List.mem_singleton] at last
    exact last ▸ .refl

namespace Loop

theorem up_mem (loop : Loop parent cycle) (member : node ∈ cycle) (up : Up parent node above) :
    above ∈ cycle := by
  obtain ⟨next, inside, step⟩ := loop.closed node member
  obtain rfl : next = above := Option.some.inj (step.symm.trans up)
  exact inside

theorem cyclic (loop : Loop parent cycle) (member : node ∈ cycle) : Cyclic parent node := by
  obtain ⟨next, inside, step⟩ := loop.closed node member
  exact TransGen.head' step (loop.connected next inside node member)

theorem mem_of_reaches (loop : Loop parent cycle) (member : other ∈ cycle)
    (cyclic : Cyclic parent node) (reaches : Reaches parent node other) : node ∈ cycle :=
  cyclic.mem_of_closed (fun _ inside _ => loop.up_mem inside) reaches member

/-- A chain whose last node leads back to its first is a cycle. -/
theorem of_chain {path : List Node} (nonempty : path ≠ []) (chain : path.IsChain (Up parent))
    (distinct : path.Nodup) (closes : Up parent (path.getLast nonempty) (path.head nonempty)) :
    Loop parent path := by
  have around : ∀ node ∈ path, Reaches parent node (path.head nonempty) := fun node member =>
    (chain_reaches_last chain nonempty member).tail closes
  refine ⟨nonempty, distinct, ?_, fun node member other inside =>
    (around node member).trans (chain_reaches chain nonempty inside)⟩
  intro node member
  obtain ⟨before, after, parts⟩ := List.append_of_mem member
  cases after with
  | nil =>
    have last : path.getLast nonempty = node := by simp [parts]
    exact ⟨_, List.head_mem nonempty, last ▸ closes⟩
  | cons next after =>
    refine ⟨next, by simp [parts], ?_⟩
    rw [parts] at chain
    exact (List.isChain_cons_cons.mp (List.isChain_append.mp chain).2.1).1

end Loop

variable [DecidableEq Node]

/-- Walk up until a finished node; the path, and the cycle it has run into. -/
def walk (parent : Node → Option Node) (finished : List Node) :
    ℕ → List Node → Option Node → List Node × List Node
  | 0, path, _ => (path, [])
  | _ + 1, path, none => (path, [])
  | fuel + 1, path, some node =>
    if node ∈ finished then (path, [])
    else if node ∈ path then (path, path.drop (path.idxOf node))
    else walk parent finished fuel (path ++ [node]) (parent node)

/-- The finished nodes, and the cycles from where they were entered. -/
structure Survey (Node : Type) where
  finished : List Node := []
  cycles : List (List Node) := []

def Survey.explore (parent : Node → Option Node) (fuel : ℕ) (survey : Survey Node) (start : Node) :
    Survey Node :=
  let found := walk parent survey.finished fuel [] (some start)
  { finished := survey.finished ++ found.1
    cycles := if found.2 = [] then survey.cycles else survey.cycles ++ [found.2] }

/-- Walk up from every node. -/
def survey (parent : Node → Option Node) (nodes : List Node) : Survey Node :=
  nodes.foldl (Survey.explore parent (nodes.length + 1)) {}

/-- A walk from a node that is over. -/
structure Walked (parent : Node → Option Node) (finished path cycle : List Node) : Prop where
  chain : path.IsChain (Up parent)
  distinct : path.Nodup
  fresh : ∀ node ∈ path, node ∉ finished
  ended : (cycle = [] ∧ ∀ last ∈ path.getLast?, ∀ above, Up parent last above → above ∈ finished) ∨
    ∃ before, path = before ++ cycle ∧ Loop parent cycle

variable {finished path nodes : List Node} {next : Option Node} {fuel : ℕ}

theorem walk_path : path ⊆ (walk parent finished fuel path next).1 := by
  induction fuel generalizing path next with
  | zero => exact List.Subset.refl path
  | succ fuel ih =>
    cases next with
    | none => exact List.Subset.refl path
    | some node =>
      rw [walk]
      split
      · exact List.Subset.refl path
      · split
        · exact List.Subset.refl path
        · exact List.Subset.trans (List.subset_append_left path [node]) ih

/-- Within finitely many nodes a walk comes to its end. -/
theorem walk_spec (within : ∀ node above, Up parent node above → above ∈ nodes)
    (chain : path.IsChain (Up parent)) (distinct : path.Nodup)
    (fresh : ∀ node ∈ path, node ∉ finished) (joined : ∀ last ∈ path.getLast?, parent last = next)
    (inside : path ++ next.toList ⊆ nodes) (enough : nodes.length < fuel + path.length) :
    Walked parent finished (walk parent finished fuel path next).1
      (walk parent finished fuel path next).2 := by
  induction fuel generalizing path next with
  | zero =>
    have few := (distinct.subperm fun _ member => inside (List.mem_append_left _ member)).length_le
    omega
  | succ fuel ih =>
    cases next with
    | none =>
      refine ⟨chain, distinct, fresh, .inl ⟨rfl, fun last member above up => ?_⟩⟩
      exact nomatch (joined last member).symm.trans up
    | some node =>
      rw [walk]
      split
      case isTrue done =>
        refine ⟨chain, distinct, fresh, .inl ⟨rfl, fun last member above up => ?_⟩⟩
        obtain rfl : node = above := Option.some.inj ((joined last member).symm.trans up)
        exact done
      case isFalse fresher =>
        split
        case isTrue seen =>
          refine ⟨chain, distinct, fresh, .inr ⟨path.take (path.idxOf node),
            (List.take_append_drop ..).symm, ?_⟩⟩
          have index := List.idxOf_lt_length_iff.mpr seen
          have nonempty : path.drop (path.idxOf node) ≠ [] := by simpa using index
          refine .of_chain nonempty (chain.drop _) (distinct.sublist (List.drop_sublist ..)) ?_
          rw [List.getLast_drop, List.head_drop, List.getElem_idxOf index]
          exact joined _ (List.getLast?_eq_some_getLast _)
        case isFalse unseen =>
          apply ih
          · rw [List.isChain_append]
            refine ⟨chain, List.isChain_singleton _, fun last member first same => ?_⟩
            obtain rfl : node = first := Option.some.inj same
            exact joined last member
          · rw [← List.concat_eq_append]
            exact distinct.concat unseen
          · intro other member
            rcases List.mem_append.mp member with before | same
            · exact fresh other before
            · exact List.mem_singleton.mp same ▸ fresher
          · intro last member
            rw [List.getLast?_concat] at member
            rw [Option.some.inj member]
          · intro other member
            rcases List.mem_append.mp member with before | later
            · exact inside before
            · exact within node other (Option.mem_toList.mp later)
          · rw [List.length_append, List.length_singleton]
            omega

theorem mem_walk (fresh : node ∉ finished) :
    node ∈ (walk parent finished (fuel + 1) [] (some node)).1 := by
  rw [walk, if_neg fresh, if_neg List.not_mem_nil]
  exact walk_path (List.mem_singleton_self node)

/-- A walk that starts at a node. -/
theorem walk_from (within : ∀ node above, Up parent node above → above ∈ nodes)
    (member : node ∈ nodes) (finished : List Node) :
    Walked parent finished (walk parent finished (nodes.length + 1) [] (some node)).1
      (walk parent finished (nodes.length + 1) [] (some node)).2 := by
  apply walk_spec within .nil .nil
  · simp
  · simp
  · simpa using member
  · simp

/-- Every way up ends without a parent or in a cycle. -/
theorem exists_top (within : ∀ node above, Up parent node above → above ∈ nodes)
    (member : node ∈ nodes) :
    ∃ top, Reaches parent node top ∧ (parent top = none ∨ Cyclic parent top) := by
  have walked := walk_from within member []
  have listed : node ∈ (walk parent [] (nodes.length + 1) [] (some node)).1 :=
    mem_walk List.not_mem_nil
  generalize walk parent [] (nodes.length + 1) [] (some node) = found at *
  have nonempty : found.1 ≠ [] := List.ne_nil_of_mem listed
  refine ⟨found.1.getLast nonempty, chain_reaches_last walked.chain nonempty listed, ?_⟩
  rcases walked.ended with ⟨-, ended⟩ | ⟨before, parts, loop⟩
  · left
    cases top : parent (found.1.getLast nonempty) with
    | none => rfl
    | some above => cases ended _ (List.getLast?_eq_some_getLast nonempty) above top
  · right
    have last : found.1.getLast nonempty ∈ found.2 := by
      simp only [parts, List.getLast_append_of_ne_nil _ loop.nonempty]
      exact List.getLast_mem loop.nonempty
    exact loop.cyclic last

/-- What a survey knows of the nodes it has finished. -/
structure Surveyed (parent : Node → Option Node) (survey : Survey Node) : Prop where
  closed : ∀ node ∈ survey.finished, ∀ above, Up parent node above → above ∈ survey.finished
  loops : ∀ cycle ∈ survey.cycles, Loop parent cycle
  within : survey.cycles.flatten ⊆ survey.finished
  found : ∀ node ∈ survey.finished, Cyclic parent node → node ∈ survey.cycles.flatten
  distinct : survey.cycles.flatten.Nodup

variable {known : Survey Node}

omit [DecidableEq Node] in
theorem Walked.closed (walked : Walked parent known.finished path cycle)
    (surveyed : Surveyed parent known) :
    ∀ node ∈ known.finished ++ path, ∀ above, Up parent node above →
      above ∈ known.finished ++ path := by
  intro node member above up
  rcases List.mem_append.mp member with before | new
  · exact List.mem_append_left _ (surveyed.closed node before above up)
  · obtain ⟨early, late, parts⟩ := List.append_of_mem new
    cases late with
    | cons next late =>
      have chain := walked.chain
      rw [parts] at chain
      have step := (List.isChain_cons_cons.mp (List.isChain_append.mp chain).2.1).1
      obtain rfl : next = above := Option.some.inj (step.symm.trans up)
      simp [parts]
    | nil =>
      rcases walked.ended with ⟨-, ended⟩ | ⟨before, same, loop⟩
      · exact List.mem_append_left _ (ended node (by simp [parts]) above up)
      · have last : node ∈ cycle := by
          have tail := List.getLast?_append_of_ne_nil before loop.nonempty
          rw [← same, parts, List.getLast?_concat] at tail
          exact List.mem_of_getLast? tail.symm
        rw [same]
        simp [loop.up_mem last up]

omit [DecidableEq Node] in
/-- On a new path only the nodes of the cycle it ends in are cyclic. -/
theorem Walked.cyclic_mem (walked : Walked parent known.finished path cycle)
    (surveyed : Surveyed parent known) (member : node ∈ path) (cyclic : Cyclic parent node) :
    node ∈ cycle := by
  have nonempty : path ≠ [] := List.ne_nil_of_mem member
  have reaches := chain_reaches_last walked.chain nonempty member
  have last := List.getLast?_eq_some_getLast nonempty
  rcases walked.ended with ⟨-, ended⟩ | ⟨before, same, loop⟩
  · obtain ⟨above, up, -⟩ := TransGen.head'_iff.mp (cyclic.reached reaches)
    have old := cyclic.mem_of_closed surveyed.closed (reaches.tail up) (ended _ last above up)
    exact absurd old (walked.fresh node member)
  · refine loop.mem_of_reaches ?_ cyclic reaches
    simp only [same, List.getLast_append_of_ne_nil _ loop.nonempty]
    exact List.getLast_mem loop.nonempty

theorem Surveyed.explore (surveyed : Surveyed parent known)
    (within : ∀ node above, Up parent node above → above ∈ nodes) (member : node ∈ nodes) :
    Surveyed parent (known.explore parent (nodes.length + 1) node) ∧
      node ∈ (known.explore parent (nodes.length + 1) node).finished := by
  have walked := walk_from within member known.finished
  have listed : node ∉ known.finished →
      node ∈ (walk parent known.finished (nodes.length + 1) [] (some node)).1 := mem_walk
  unfold Survey.explore
  generalize walk parent known.finished (nodes.length + 1) [] (some node) = found at *
  dsimp only
  refine ⟨?_, ?_⟩
  · have flat : (if found.2 = [] then known.cycles else known.cycles ++ [found.2]).flatten =
        known.cycles.flatten ++ found.2 := by
      split <;> simp [*]
    have inside : found.2 ⊆ found.1 := by
      rcases walked.ended with ⟨empty, -⟩ | ⟨before, same, -⟩
      · simp [empty]
      · simp [same]
    refine ⟨walked.closed surveyed, ?_, ?_, ?_, ?_⟩
    · intro cycle listed
      dsimp only at listed
      split at listed
      case isTrue => exact surveyed.loops cycle listed
      case isFalse nonempty =>
        rcases List.mem_append.mp listed with old | new
        · exact surveyed.loops cycle old
        · obtain rfl := List.mem_singleton.mp new
          rcases walked.ended with ⟨empty, -⟩ | ⟨before, same, loop⟩
          · exact absurd empty nonempty
          · exact loop
    · dsimp only
      rw [flat]
      refine List.append_subset.mpr ⟨fun other old => ?_, fun other new => ?_⟩
      · exact List.mem_append_left _ (surveyed.within old)
      · exact List.mem_append_right _ (inside new)
    · dsimp only
      rw [flat]
      intro other given cyclic
      rcases List.mem_append.mp given with old | new
      · exact List.mem_append_left _ (surveyed.found other old cyclic)
      · exact List.mem_append_right _ (walked.cyclic_mem surveyed new cyclic)
    · dsimp only
      rw [flat]
      have fresh : found.2.Nodup := by
        rcases walked.ended with ⟨empty, -⟩ | ⟨before, same, loop⟩
        · simp [empty]
        · exact loop.distinct
      exact surveyed.distinct.append fresh fun other old new =>
        walked.fresh other (inside new) (surveyed.within old)
  · by_cases done : node ∈ known.finished
    · exact List.mem_append_left _ done
    · exact List.mem_append_right _ (listed done)

theorem Surveyed.foldl (surveyed : Surveyed parent known)
    (within : ∀ node above, Up parent node above → above ∈ nodes) {starts : List Node}
    (inside : starts ⊆ nodes) :
    Surveyed parent (starts.foldl (Survey.explore parent (nodes.length + 1)) known) ∧
      ∀ node, node ∈ known.finished ∨ node ∈ starts →
        node ∈ (starts.foldl (Survey.explore parent (nodes.length + 1)) known).finished := by
  induction starts generalizing known with
  | nil => exact ⟨surveyed, by simp⟩
  | cons start rest ih =>
    obtain ⟨member, others⟩ := List.cons_subset.mp inside
    obtain ⟨explored, listed⟩ := surveyed.explore within member
    obtain ⟨last, kept⟩ := ih explored others
    refine ⟨last, fun node given => kept node ?_⟩
    rcases given with before | same
    · exact .inl (List.mem_append_left _ before)
    · rcases List.mem_cons.mp same with same | later
      · exact .inl (same ▸ listed)
      · exact .inr later

/-- The cycles that a survey finds are the cycles. -/
theorem survey_spec (within : ∀ node above, Up parent node above → above ∈ nodes) :
    Surveyed parent (survey parent nodes) ∧ ∀ node ∈ nodes,
      (Cyclic parent node ↔ ∃ cycle ∈ (survey parent nodes).cycles, node ∈ cycle) := by
  have start : Surveyed parent ({} : Survey Node) := by
    refine ⟨?_, ?_, ?_, ?_, ?_⟩ <;> simp
  obtain ⟨surveyed, finished⟩ := start.foldl within (List.Subset.refl nodes)
  refine ⟨surveyed, fun node member => ⟨fun cyclic => ?_, fun listed => ?_⟩⟩
  · exact List.mem_flatten.mp (surveyed.found node (finished node (.inr member)) cyclic)
  · obtain ⟨cycle, inside, listed⟩ := listed
    exact (surveyed.loops cycle inside).cyclic listed

end Lineage
