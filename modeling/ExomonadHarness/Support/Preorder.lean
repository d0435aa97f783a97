import ExomonadHarness.Support.Lineage

/-! Depth-first traversal of nodes below a root with a stack and the rows made so far. The
root may lie on a cycle: it is not entered a second time. -/

namespace Preorder

open Relation Lineage

variable {Node Key : Type} {key : Node → Key}

/-- Pop, skip what has a row, and push the children one level below. -/
def descend [DecidableEq Key] (key : Node → Key) (children : Node → List Node) :
    ℕ → List (Node × ℕ) → List (Node × ℕ) → List (Node × ℕ)
  | 0, _, rows => rows
  | _ + 1, [], rows => rows
  | fuel + 1, (node, depth) :: stack, rows =>
    if key node ∈ rows.map (key ·.1) then descend key children fuel stack rows
    else descend key children fuel ((children node).map (·, depth + 1) ++ stack)
      (rows ++ [(node, depth)])

/-- The rows of siblings and of all that is below them, without the root. -/
inductive Laid (key : Node → Key) (children : Node → List Node) (root : Key) :
    ℕ → List Node → List (Node × ℕ) → Prop where
  | nil {depth : ℕ} : Laid key children root depth [] []
  | skip {depth : ℕ} {node : Node} {rest : List Node} {rows : List (Node × ℕ)}
      (again : key node = root) (others : Laid key children root depth rest rows) :
      Laid key children root depth (node :: rest) rows
  | node {depth : ℕ} {node : Node} {rest : List Node} {inner rows : List (Node × ℕ)}
      (new : key node ≠ root) (below : Laid key children root (depth + 1) (children node) inner)
      (others : Laid key children root depth rest rows) :
      Laid key children root depth (node :: rest) ((node, depth) :: (inner ++ rows))

variable {children : Node → List Node} {root : Key} {depth level fuel : ℕ} {node : Node}
  {siblings : List Node} {rows before stack : List (Node × ℕ)}

/-- How many entries the rows push. -/
def pushes (children : Node → List Node) (rows : List (Node × ℕ)) : ℕ :=
  (rows.map fun row => (children row.1).length).sum

theorem descend_nil [DecidableEq Key] : descend key children fuel [] rows = rows := by
  cases fuel <;> rfl

/-- Distinct rows push no more than all nodes. -/
theorem pushes_le {nodes : List Node} (distinct : (rows.map Prod.fst).Nodup)
    (within : ∀ row ∈ rows, row.1 ∈ nodes) :
    pushes children rows ≤ pushes children (nodes.map (·, 0)) := by
  have inside : rows.map Prod.fst ⊆ nodes := by
    intro node member
    obtain ⟨row, listed, rfl⟩ := List.mem_map.mp member
    exact within row listed
  obtain ⟨some, perm, fewer⟩ := distinct.subperm inside
  have sums := (fewer.map fun node => (children node).length).sum_le_sum fun _ _ => Nat.zero_le _
  rw [(perm.map _).sum_eq, List.map_map] at sums
  simpa [pushes, Function.comp_def] using sums

namespace Laid

theorem descend_eq [DecidableEq Key] (laid : Laid key children root depth siblings rows)
    (visited : root ∈ before.map (key ·.1)) (distinct : ((before ++ rows).map (key ·.1)).Nodup) :
    descend key children (fuel + siblings.length + pushes children rows)
        (siblings.map (·, depth) ++ stack) before =
      descend key children fuel stack (before ++ rows) := by
  induction laid generalizing before stack fuel with
  | nil => simp [pushes]
  | @skip depth node rest rows again others ih =>
    have same : fuel + (node :: rest).length + pushes children rows =
        (fuel + rest.length + pushes children rows) + 1 := by
      rw [List.length_cons]
      omega
    rw [same, List.map_cons, List.cons_append, descend, again, if_pos visited]
    exact ih visited distinct
  | @node depth node rest inner rows new below others inside ih =>
    have same : fuel + (node :: rest).length + pushes children ((node, depth) :: (inner ++ rows)) =
        (fuel + rest.length + pushes children rows + (children node).length +
          pushes children inner) + 1 := by
      simp only [pushes, List.length_cons, List.map_cons, List.sum_cons, List.map_append,
        List.sum_append]
      omega
    have unvisited : key node ∉ before.map (key ·.1) := by
      rw [List.map_append, List.map_cons, List.nodup_append] at distinct
      intro member
      exact distinct.2.2 _ member _ (List.mem_cons_self ..) rfl
    have whole : before ++ (node, depth) :: (inner ++ rows) =
        (before ++ [(node, depth)]) ++ inner ++ rows := by
      simp
    rw [whole] at distinct ⊢
    have later : root ∈ (before ++ [(node, depth)]).map (key ·.1) := by
      rw [List.map_append]
      exact List.mem_append_left _ visited
    rw [same, List.map_cons, List.cons_append, descend, if_neg unvisited, inside later, ih]
    · rw [List.map_append]
      exact List.mem_append_left _ later
    · exact distinct
    · rw [List.map_append] at distinct
      exact (List.nodup_append.mp distinct).1

theorem depth_le (laid : Laid key children root depth siblings rows) :
    ∀ row ∈ rows, depth ≤ row.2 := by
  induction laid with
  | nil => simp
  | skip _ _ ih => exact ih
  | node new below others inside ih =>
    intro row member
    rcases List.mem_cons.mp member with same | later
    · exact same ▸ le_rfl
    · rcases List.mem_append.mp later with inner | other
      · exact Nat.le_of_succ_le (inside row inner)
      · exact ih row other

/-- Siblings come in their order. -/
theorem sublist [DecidableEq Key] (laid : Laid key children root depth siblings rows) :
    ((siblings.filter (key · ≠ root)).map (·, depth)).Sublist rows := by
  induction laid with
  | nil => exact .slnil
  | skip again _ ih => simpa [again] using ih
  | @node depth node rest inner rows new below others inside ih =>
    rw [List.filter_cons_of_pos (by simpa using new)]
    exact (ih.trans (List.sublist_append_right inner rows)).cons_cons _

/-- The rows below a row follow it in one block. -/
theorem block (laid : Laid key children root depth siblings rows)
    (member : (node, level) ∈ rows) :
    ∃ early inner late, rows = early ++ (node, level) :: (inner ++ late) ∧
      Laid key children root (level + 1) (children node) inner := by
  induction laid with
  | nil => cases member
  | skip _ _ ih => exact ih member
  | @node depth other rest inner rows new below others inside ih =>
    rcases List.mem_cons.mp member with same | later
    · cases same
      exact ⟨[], inner, rows, rfl, below⟩
    · rcases List.mem_append.mp later with within | elsewhere
      · obtain ⟨early, block, late, parts, laid⟩ := inside within
        exact ⟨(other, depth) :: early, block, late ++ rows, by simp [parts], laid⟩
      · obtain ⟨early, block, late, parts, laid⟩ := ih elsewhere
        exact ⟨(other, depth) :: (inner ++ early), block, late, by simp [parts], laid⟩

end Laid

/-! The ways up to a root. -/

/-- The keys from one up to the root, where the way ends. -/
inductive Line (parent : Key → Option Key) (root : Key) : Key → List Key → Prop where
  | root : Line parent root root [root]
  | step {node above : Key} {line : List Key} (other : node ≠ root) (up : Up parent node above)
      (rest : Line parent root above line) : Line parent root node (node :: line)

variable {parent : Key → Option Key} {first above second : Key} {line path : List Key}

namespace Line

theorem of_reaches (reaches : Reaches parent first root) : ∃ line, Line parent root first line := by
  induction reaches using ReflTransGen.head_induction_on with
  | refl => exact ⟨[root], .root⟩
  | @head node above up _ ih =>
    obtain ⟨line, rest⟩ := ih
    by_cases same : node = root
    · exact ⟨[root], same ▸ .root⟩
    · exact ⟨node :: line, .step same up rest⟩

theorem reaches (whole : Line parent root first line) : Reaches parent first root := by
  induction whole with
  | root => exact .refl
  | step _ up _ ih => exact .head up ih

theorem mem (whole : Line parent root first line) : first ∈ line := by
  cases whole <;> exact List.mem_cons_self ..

theorem root_mem (whole : Line parent root first line) : root ∈ line := by
  induction whole with
  | root => exact List.mem_singleton_self _
  | step _ _ _ ih => exact List.mem_cons_of_mem _ ih

theorem unique (whole : Line parent root first line) (again : Line parent root first path) :
    line = path := by
  induction whole generalizing path with
  | root =>
    cases again with
    | root => rfl
    | step other => exact absurd rfl other
  | step other up _ ih =>
    cases again with
    | root => exact absurd rfl other
    | step _ again rest =>
      cases Option.some.inj (up.symm.trans again)
      rw [ih rest]

/-- From any key of a line the rest of it leads on. -/
theorem suffix (whole : Line parent root first line) (member : second ∈ line) :
    ∃ path, Line parent root second path ∧ path <:+ line := by
  induction whole with
  | root =>
    obtain rfl := List.mem_singleton.mp member
    exact ⟨_, .root, List.suffix_refl _⟩
  | @step node above line other up rest ih =>
    rcases List.mem_cons.mp member with same | later
    · subst same
      exact ⟨_, .step other up rest, List.suffix_refl _⟩
    · obtain ⟨path, tail, shorter⟩ := ih later
      exact ⟨path, tail, shorter.trans (List.suffix_cons ..)⟩

/-- A line that passes a key passes its parent. -/
theorem up_mem (whole : Line parent root first line) (member : second ∈ line)
    (other : second ≠ root) (up : Up parent second above) : above ∈ line := by
  obtain ⟨path, tail, shorter⟩ := whole.suffix member
  apply shorter.subset
  cases tail with
  | root => exact absurd rfl other
  | step _ again rest =>
    cases Option.some.inj (up.symm.trans again)
    exact List.mem_cons_of_mem _ rest.mem

theorem reaches_mem (whole : Line parent root first line) (member : second ∈ line) :
    Reaches parent first second := by
  induction whole with
  | root => exact List.mem_singleton.mp member ▸ .refl
  | step _ up _ ih =>
    rcases List.mem_cons.mp member with same | later
    · exact same ▸ .refl
    · exact .head up (ih later)

theorem distinct (whole : Line parent root first line) : line.Nodup := by
  induction whole with
  | root => exact List.nodup_singleton _
  | @step node above line other up rest ih =>
    refine List.nodup_cons.mpr ⟨fun member => ?_, ih⟩
    obtain ⟨path, tail, shorter⟩ := rest.suffix member
    have length := shorter.length_le
    rw [tail.unique (.step other up rest), List.length_cons] at length
    omega

/-- Below any other key of a line stands a child of it. -/
theorem child (whole : Line parent root first line) (member : second ∈ line)
    (other : second ≠ first) : ∃ below ∈ line, below ≠ root ∧ Up parent below second := by
  induction whole with
  | root => exact absurd (List.mem_singleton.mp member) other
  | @step node above line new up rest ih =>
    have later := (List.mem_cons.mp member).resolve_left other
    by_cases next : second = above
    · subst next
      exact ⟨node, List.mem_cons_self .., new, up⟩
    · obtain ⟨below, inside, fresh, up⟩ := ih later next
      exact ⟨below, List.mem_cons_of_mem _ inside, fresh, up⟩

theorem child_not_mem (whole : Line parent root above line) (other : first ≠ root)
    (up : Up parent first above) : first ∉ line := by
  have longer := (Line.step other up whole).distinct
  exact (List.nodup_cons.mp longer).1

/-- A line passes one child of a key. -/
theorem one_child (whole : Line parent root first line) {left right : Key} (member : left ∈ line)
    (inside : right ∈ line) (fresh : left ≠ root) (new : right ≠ root)
    (leftUp : Up parent left above) (rightUp : Up parent right above) : left = right := by
  induction whole with
  | root => exact absurd (List.mem_singleton.mp member) fresh
  | @step node next line other up rest ih =>
    rcases List.mem_cons.mp member with same | later <;>
    rcases List.mem_cons.mp inside with equal | after
    · rw [same, equal]
    · subst same
      cases Option.some.inj (up.symm.trans leftUp)
      exact absurd after (rest.child_not_mem new rightUp)
    · subst equal
      cases Option.some.inj (up.symm.trans rightUp)
      exact absurd later (rest.child_not_mem fresh leftUp)
    · exact ih later after

theorem keys {nodes : List Node}
    (within : ∀ first above, Up parent first above → above ∈ nodes.map key)
    (whole : Line parent root first line) (member : first ∈ nodes.map key) :
    line ⊆ nodes.map key := by
  induction whole with
  | root => simpa using member
  | step _ up _ ih => exact List.cons_subset.mpr ⟨member, ih (within _ _ up)⟩

end Line

/-! The children that the parents give. -/

variable [DecidableEq Key] {nodes : List Node}

def offspring (nodes : List Node) (key : Node → Key) (parent : Key → Option Key) (node : Node) :
    List Node :=
  nodes.filter fun child => parent (key child) = some (key node)

theorem mem_offspring {child : Node} : child ∈ offspring nodes key parent node ↔
    child ∈ nodes ∧ Up parent (key child) (key node) := by
  simp [offspring, Up]

/-- The rows of nodes that have one parent in common. -/
structure Brood (nodes : List Node) (key : Node → Key) (parent : Key → Option Key) (root : Key)
    (depth : ℕ) (siblings : List Node) (rows : List (Node × ℕ)) (above : Key) (line : List Key) :
    Prop where
  laid : Laid key (offspring nodes key parent) root depth siblings rows
  listed : siblings.Sublist nodes
  up : ∀ node ∈ siblings, Up parent (key node) above
  way : Line parent root above line
  deep : depth = line.length

namespace Brood

theorem below (brood : Brood nodes key parent root depth siblings rows above line)
    (member : node ∈ siblings) (new : key node ≠ root) {inner : List (Node × ℕ)}
    (laid : Laid key (offspring nodes key parent) root (depth + 1)
      (offspring nodes key parent node) inner) :
    Brood nodes key parent root (depth + 1) (offspring nodes key parent node) inner (key node)
      (key node :: line) where
  laid
  listed := List.filter_sublist
  up _ child := (mem_offspring.mp child).2
  way := .step new (brood.up node member) brood.way
  deep := by rw [brood.deep, List.length_cons]

theorem tail {rest : List Node} {others : List (Node × ℕ)}
    (brood : Brood nodes key parent root depth (node :: rest) rows above line)
    (laid : Laid key (offspring nodes key parent) root depth rest others) :
    Brood nodes key parent root depth rest others above line where
  laid
  listed := (List.sublist_cons_self node rest).trans brood.listed
  up _ member := brood.up _ (List.mem_cons_of_mem _ member)
  way := brood.way
  deep := brood.deep

/-- Every row is below one of the siblings, as deep as its way up is long. -/
theorem lines (brood : Brood nodes key parent root depth siblings rows above line) :
    ∀ row ∈ rows, row.1 ∈ nodes ∧ ∃ path, Line parent root (key row.1) path ∧
      path.length = row.2 + 1 ∧ ∃ sibling ∈ siblings, key sibling ≠ root ∧ key sibling ∈ path := by
  have laid := brood.laid
  induction laid generalizing above line with
  | nil => simp
  | skip again others ih =>
    intro row member
    obtain ⟨inside, path, whole, length, sibling, listed, passed⟩ := ih (brood.tail others) row member
    exact ⟨inside, path, whole, length, sibling, List.mem_cons_of_mem _ listed, passed⟩
  | @node depth node rest inner rows new below others inside ih =>
    intro row member
    have first : node ∈ node :: rest := List.mem_cons_self ..
    rcases List.mem_cons.mp member with same | later
    · subst same
      have whole : Line parent root (key node) (key node :: line) :=
        .step new (brood.up node first) brood.way
      exact ⟨brood.listed.subset first, _, whole, by rw [List.length_cons, brood.deep], node, first,
        new, whole.mem⟩
    · rcases List.mem_append.mp later with under | other
      · obtain ⟨known, path, whole, length, child, listed, fresh, passed⟩ :=
          inside (brood.below first new below) row under
        exact ⟨known, path, whole, length, node, first, new,
          whole.up_mem passed fresh (mem_offspring.mp listed).2⟩
      · obtain ⟨known, path, whole, length, sibling, listed, passed⟩ :=
          ih (brood.tail others) row other
        exact ⟨known, path, whole, length, sibling, List.mem_cons_of_mem _ listed, passed⟩

/-- Every node below a sibling has a row. -/
theorem complete (within : ∀ first above, Up parent first above → above ∈ nodes.map key)
    (injective : ∀ left ∈ nodes, ∀ right ∈ nodes, key left = key right → left = right)
    (brood : Brood nodes key parent root depth siblings rows above line) (member : node ∈ nodes)
    {path : List Key} (whole : Line parent root (key node) path) {sibling : Node}
    (listed : sibling ∈ siblings) (new : key sibling ≠ root) (passed : key sibling ∈ path) :
    ∃ level, (node, level) ∈ rows := by
  have laid := brood.laid
  induction laid generalizing above line sibling with
  | nil => cases listed
  | skip again others ih =>
    rcases List.mem_cons.mp listed with same | later
    · exact absurd (same ▸ again) new
    · exact ih (brood.tail others) later new passed
  | @node depth other rest inner rows fresh below others inside ih =>
    rcases List.mem_cons.mp listed with same | later
    · subst same
      by_cases self : key sibling = key node
      · have equal := injective _ (brood.listed.subset listed) _ member self
        exact ⟨depth, equal ▸ List.mem_cons_self ..⟩
      · obtain ⟨key', passes, rootless, up⟩ := whole.child passed self
        obtain ⟨child, known, rfl⟩ :=
          List.mem_map.mp (whole.keys within (List.mem_map_of_mem member) passes)
        obtain ⟨level, row⟩ := inside (brood.below listed new below)
          (mem_offspring.mpr ⟨known, up⟩) rootless passes
        exact ⟨level, List.mem_cons_of_mem _ (List.mem_append_left _ row)⟩
    · obtain ⟨level, row⟩ := ih (brood.tail others) later new passed
      exact ⟨level, List.mem_cons_of_mem _ (List.mem_append_right _ row)⟩

/-- Below every row there is a brood again. -/
theorem block (brood : Brood nodes key parent root depth siblings rows above line)
    (member : (node, level) ∈ rows) :
    ∃ early inner late path, rows = early ++ (node, level) :: (inner ++ late) ∧
      Brood nodes key parent root (level + 1) (offspring nodes key parent node) inner (key node)
        path := by
  obtain ⟨early, inner, late, parts, laid⟩ := brood.laid.block member
  obtain ⟨-, path, way, length, -⟩ := brood.lines _ member
  exact ⟨early, inner, late, path, parts, laid, List.filter_sublist,
    fun _ child => (mem_offspring.mp child).2, way, length.symm⟩

theorem distinct (keys : (nodes.map key).Nodup)
    (brood : Brood nodes key parent root depth siblings rows above line) :
    (rows.map (key ·.1)).Nodup := by
  have laid := brood.laid
  induction laid generalizing above line with
  | nil => exact List.nodup_nil
  | skip _ others ih => exact ih (brood.tail others)
  | @node depth node rest inner rows new below others inside ih =>
    have first : node ∈ node :: rest := List.mem_cons_self ..
    have lower := brood.below first new below
    have later := brood.tail others
    have fresh : key node ∉ rest.map key := by
      have known := keys.sublist (brood.listed.map key)
      exact (List.nodup_cons.mp known).1
    have whole : Line parent root (key node) (key node :: line) := lower.way
    -- A line through the node passes none of its siblings.
    have apart {other : Key} {path : List Key} (through : Line parent root other path)
        (passed : key node ∈ path) : ∀ sibling ∈ rest, key sibling ≠ root → key sibling ∉ path := by
      intro sibling member rootless passes
      have same := through.one_child passed passes new rootless (brood.up node first)
        (brood.up sibling (List.mem_cons_of_mem _ member))
      exact fresh (same ▸ List.mem_map_of_mem member)
    rw [List.map_cons, List.map_append, List.nodup_cons, List.nodup_append]
    refine ⟨?_, inside lower, ih later, ?_⟩
    · intro member
      rcases List.mem_append.mp member with under | other
      · obtain ⟨row, inner, same⟩ := List.mem_map.mp under
        obtain ⟨-, path, way, -, child, listed, rootless, passed⟩ := lower.lines row inner
        rw [same] at way
        rw [way.unique whole] at passed
        exact whole.child_not_mem rootless (lower.up child listed) passed
      · obtain ⟨row, elsewhere, same⟩ := List.mem_map.mp other
        obtain ⟨-, path, way, -, sibling, listed, rootless, passed⟩ := later.lines row elsewhere
        exact apart way (same ▸ way.mem) sibling listed rootless passed
    · intro left under right other same
      obtain ⟨row, inner, rfl⟩ := List.mem_map.mp under
      obtain ⟨second, elsewhere, rfl⟩ := List.mem_map.mp other
      obtain ⟨-, path, way, -, child, listed, rootless, passed⟩ := lower.lines row inner
      obtain ⟨-, again, line, -, sibling, member, fresher, passes⟩ := later.lines second elsewhere
      rw [← same] at line
      rw [← way.unique line] at passes
      exact apart way (way.up_mem passed rootless (lower.up child listed)) sibling member fresher passes

end Brood

/-- Below every node on a way to the root, rows can be laid. -/
theorem exists_laid (within : ∀ first above, Up parent first above → above ∈ nodes.map key)
    (member : node ∈ nodes) (whole : Line parent root (key node) line) :
    ∃ rows, Laid key (offspring nodes key parent) root line.length
      (offspring nodes key parent node) rows := by
  induction room : nodes.length - line.length using Nat.strong_induction_on
    generalizing node line with
  | _ room ih =>
    have each : ∀ siblings ⊆ offspring nodes key parent node,
        ∃ rows, Laid key (offspring nodes key parent) root line.length siblings rows := by
      intro siblings inside
      induction siblings with
      | nil => exact ⟨[], .nil⟩
      | cons child rest others =>
        obtain ⟨listed, inside⟩ := List.cons_subset.mp inside
        obtain ⟨known, up⟩ := mem_offspring.mp listed
        obtain ⟨rows, laid⟩ := others inside
        by_cases again : key child = root
        · exact ⟨rows, .skip again laid⟩
        · have longer : Line parent root (key child) (key child :: line) := .step again up whole
          have bound := (longer.distinct.subperm
            (longer.keys within (List.mem_map_of_mem known))).length_le
          rw [List.length_map, List.length_cons] at bound
          obtain ⟨inner, below⟩ := ih _ (by rw [List.length_cons]; omega) known longer rfl
          exact ⟨_, .node again below laid⟩
    exact each _ (List.Subset.refl _)

end Preorder
