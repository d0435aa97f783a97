import ExomonadHarness.Support.Preorder

/-! The order of the conversations in `selectors.ts`: parents by name or by path, and a
depth-first listing of a graph in which a conversation has at most one parent. -/

namespace ExomonadHarness.Browser

open Relation Lineage Preorder

/-- What the tree reads of a row. The parent is absent, null or named. -/
structure NodeRow where
  id : String
  name : String
  parentId : Option (Option String)
  deriving DecidableEq

/-- The `id` of a place is unset, null for more than one node, or the one node's. -/
inductive PathIndex where
  | node (id : Option (Option String)) (children : List (String × PathIndex))

namespace PathIndex

def id : PathIndex → Option (Option String)
  | node id _ => id

def children : PathIndex → List (String × PathIndex)
  | node _ children => children

def add (owner : String) : List String → PathIndex → PathIndex
  | [], index => node (some (if index.id.isNone then some owner else none)) index.children
  | part :: rest, index => node index.id <|
    match index.children.lookup part with
    | some child => index.children.map fun entry =>
        if entry.1 = part then (part, add owner rest child) else entry
    | none => index.children ++ [(part, add owner rest (node none []))]

/-- The deepest unambiguous place above the end of a path. -/
def nearest : List String → PathIndex → Option String → Option String
  | part :: next :: rest, index, parent =>
    match index.children.lookup part with
    | some child => nearest (next :: rest) child (child.id.join.or parent)
    | none => parent
  | _, _, parent => parent

end PathIndex

def pathParts (name : String) : List String :=
  (name.splitOn "/").filter (· ≠ "")

def indexPaths (nodes : List NodeRow) : PathIndex :=
  nodes.foldl (fun index node => index.add node.id (pathParts node.name)) (.node none [])

def inferredParent (index : PathIndex) (name : String) : Option String :=
  index.nearest (pathParts name)
    (if name ≠ "/" && "/".isPrefixOf name then index.id.join else none)

/-- A parent that is null or undefined is none. -/
def resolveParentIds (nodes : List NodeRow) : List (String × Option String) :=
  if nodes.all (·.parentId.isSome) then nodes.map fun node => (node.id, node.parentId.join)
  else
    let index := indexPaths nodes
    nodes.map fun node => (node.id, node.parentId.getD (inferredParent index node.name))

def parentOf (nodes : List NodeRow) (id : String) : Option String :=
  ((resolveParentIds nodes).lookup id).join

/-- The parent, where it is listed. -/
def listedParent (nodes : List NodeRow) (id : String) : Option String :=
  (parentOf nodes id).filter (· ∈ nodes.map NodeRow.id)

def childrenOf (nodes : List NodeRow) (node : NodeRow) : List NodeRow :=
  offspring nodes NodeRow.id (listedParent nodes) node

def rootsOf (nodes : List NodeRow) : List NodeRow :=
  nodes.filter fun node => listedParent nodes node.id = none

def cyclicIds (nodes : List NodeRow) : List String :=
  (survey (listedParent nodes) (nodes.map NodeRow.id)).cycles.flatten

/-- The rows have grown by what is below a node. -/
def appendBelow (nodes : List NodeRow) (rows : List (NodeRow × ℕ)) (root : NodeRow) :
    List (NodeRow × ℕ) :=
  descend NodeRow.id (childrenOf nodes) (pushes (childrenOf nodes) (nodes.map (·, 0)) + 1)
    [(root, 0)] rows

def visited (rows : List (NodeRow × ℕ)) (node : NodeRow) : Bool :=
  node.id ∈ rows.map (·.1.id)

inductive TreeLineage where
  | root | child | orphan | cycle
  deriving DecidableEq

structure TreeRow where
  node : NodeRow
  depth : ℕ
  lineage : TreeLineage
  deriving DecidableEq

def lineageOf (nodes : List NodeRow) (id : String) (depth : ℕ) : TreeLineage :=
  if id ∈ cyclicIds nodes then .cycle
  else if (parentOf nodes id).isSome && listedParent nodes id = none then .orphan
  else if depth = 0 then .root else .child

/-- The rows in order: below the roots, below a node of each cycle, and whatever is left. -/
def orderRows (nodes : List NodeRow) : List (NodeRow × ℕ) :=
  let rooted := (rootsOf nodes).foldl (appendBelow nodes) []
  let cyclic := nodes.foldl (fun rows node =>
    if node.id ∈ cyclicIds nodes && !visited rows node then appendBelow nodes rows node else rows)
    rooted
  nodes.foldl (fun rows node => if visited rows node then rows else appendBelow nodes rows node)
    cyclic

def orderConversationTree (nodes : List NodeRow) : List TreeRow :=
  (orderRows nodes).map fun row => ⟨row.1, row.2, lineageOf nodes row.1.id row.2⟩

/-! Growing the rows from tops. -/

variable {nodes starts : List NodeRow} {rows : List (NodeRow × ℕ)} {node root other : NodeRow}

/-- The way up from a top ends there or comes back. -/
def Top (nodes : List NodeRow) (root : NodeRow) : Prop :=
  root ∈ nodes ∧ (listedParent nodes root.id = none ∨ Cyclic (listedParent nodes) root.id)

theorem Top.back {id : String} (top : Top nodes root)
    (reaches : Reaches (listedParent nodes) root.id id) :
    Reaches (listedParent nodes) id root.id := by
  rcases top.2 with ended | cyclic
  · rcases ReflTransGen.cases_head reaches with same | ⟨next, up, -⟩
    · exact same ▸ .refl
    · exact nomatch ended.symm.trans up
  · exact cyclic.back reaches

theorem listedParent_within (nodes : List NodeRow) (id above : String)
    (up : Up (listedParent nodes) id above) : above ∈ nodes.map NodeRow.id := by
  simpa using (Option.filter_eq_some_iff.mp up).2

/-- A top with the rows below it. -/
def Block (nodes : List NodeRow) (root : NodeRow) (block : List (NodeRow × ℕ)) : Prop :=
  ∃ inner, block = (root, 0) :: inner ∧
    Brood nodes NodeRow.id (listedParent nodes) root.id 1 (childrenOf nodes root) inner root.id
      [root.id]

/-- The rows are the blocks of some tops. -/
structure Built (nodes starts : List NodeRow) (rows : List (NodeRow × ℕ)) : Prop where
  tops : ∀ root ∈ starts, Top nodes root
  blocks : ∀ root ∈ starts, ∃ early block late, rows = early ++ block ++ late ∧
    Block nodes root block
  order : (starts.map (·, 0)).Sublist rows
  within : ∀ row ∈ rows, row.1 ∈ nodes
  reached : ∀ node ∈ nodes, node.id ∈ rows.map (·.1.id) ↔
    ∃ root ∈ starts, Reaches (listedParent nodes) node.id root.id
  distinct : (rows.map (·.1.id)).Nodup

theorem Built.nil (nodes : List NodeRow) : Built nodes [] [] := by
  refine ⟨?_, ?_, ?_, ?_, ?_, ?_⟩ <;> simp

theorem exists_block (member : root ∈ nodes) : ∃ block, Block nodes root block := by
  have line : Line (listedParent nodes) root.id root.id [root.id] := .root
  obtain ⟨inner, laid⟩ := exists_laid (listedParent_within nodes) member line
  exact ⟨_, inner, rfl, laid, List.filter_sublist, fun _ child => (mem_offspring.mp child).2, .root,
    rfl⟩

theorem Block.within {block : List (NodeRow × ℕ)} (made : Block nodes root block)
    (top : root ∈ nodes) : ∀ row ∈ block, row.1 ∈ nodes := by
  obtain ⟨inner, rfl, brood⟩ := made
  intro row member
  rcases List.mem_cons.mp member with same | inside
  · exact same ▸ top
  · exact (brood.lines row inside).1

section Growth

variable (ids : (nodes.map NodeRow.id).Nodup)

include ids

theorem node_of_id (member : node ∈ nodes) (inside : other ∈ nodes) (same : node.id = other.id) :
    node = other :=
  List.inj_on_of_nodup_map ids member inside same

theorem Block.distinct {block : List (NodeRow × ℕ)} (made : Block nodes root block) :
    (block.map (·.1.id)).Nodup := by
  obtain ⟨inner, rfl, brood⟩ := made
  refine List.nodup_cons.mpr ⟨fun member => ?_, brood.distinct ids⟩
  obtain ⟨row, inside, same⟩ := List.mem_map.mp member
  obtain ⟨-, path, way, -, child, -, fresh, passed⟩ := brood.lines row inside
  rw [same] at way
  rw [way.unique .root] at passed
  exact fresh (List.mem_singleton.mp passed)

/-- A block holds all that reaches its top. -/
theorem Block.reached {block : List (NodeRow × ℕ)} (made : Block nodes root block)
    (member : node ∈ nodes) :
    node.id ∈ block.map (·.1.id) ↔ Reaches (listedParent nodes) node.id root.id := by
  obtain ⟨inner, rfl, brood⟩ := made
  rw [List.map_cons, List.mem_cons]
  constructor
  · intro listed
    rcases listed with same | inside
    · exact same ▸ .refl
    · obtain ⟨row, inside, same⟩ := List.mem_map.mp inside
      obtain ⟨-, path, way, -⟩ := brood.lines row inside
      exact same ▸ way.reaches
  · intro reaches
    by_cases same : root.id = node.id
    · exact .inl same.symm
    · right
      obtain ⟨path, way⟩ := Line.of_reaches reaches
      obtain ⟨id, passed, fresh, up⟩ := way.child way.root_mem same
      have known := way.keys (listedParent_within nodes) (List.mem_map_of_mem member) passed
      obtain ⟨child, listed, rfl⟩ := List.mem_map.mp known
      obtain ⟨level, row⟩ := brood.complete (listedParent_within nodes)
        (fun _ left _ right => node_of_id ids left right) member way
        (mem_offspring.mpr ⟨listed, up⟩) fresh passed
      exact List.mem_map_of_mem row

theorem appendBelow_block {block : List (NodeRow × ℕ)} (made : Block nodes root block)
    (top : root ∈ nodes) (distinct : ((rows ++ block).map (·.1.id)).Nodup) :
    appendBelow nodes rows root = rows ++ block := by
  have single := made.distinct ids
  have within := made.within top
  obtain ⟨inner, rfl, brood⟩ := made
  have fresh : root.id ∉ rows.map (·.1.id) := by
    rw [List.map_append, List.nodup_append] at distinct
    exact fun member => distinct.2.2 _ member _ (List.mem_cons_self ..) rfl
  have few : pushes (childrenOf nodes) ((root, 0) :: inner) ≤
      pushes (childrenOf nodes) (nodes.map (·, 0)) := by
    apply pushes_le _ within
    have nodup : ((((root, 0) :: inner).map Prod.fst).map NodeRow.id).Nodup := by
      simpa [List.map_map, Function.comp_def] using single
    exact List.Nodup.of_map _ nodup
  obtain ⟨spare, enough⟩ := Nat.exists_eq_add_of_le' few
  have fuel : pushes (childrenOf nodes) (nodes.map (·, 0)) =
      spare + (childrenOf nodes root).length + pushes (childrenOf nodes) inner := by
    rw [enough, pushes, List.map_cons, List.sum_cons, ← pushes, Nat.add_assoc]
  rw [appendBelow, descend, if_neg fresh, fuel]
  have whole : rows ++ (root, 0) :: inner = (rows ++ [(root, 0)]) ++ inner := by simp
  rw [whole] at distinct ⊢
  exact (brood.laid.descend_eq (by simp) distinct).trans descend_nil

/-- A top that has no row yet adds its block. -/
theorem Built.append (built : Built nodes starts rows) (top : Top nodes root)
    (fresh : root.id ∉ rows.map (·.1.id)) :
    Built nodes (starts ++ [root]) (appendBelow nodes rows root) := by
  obtain ⟨block, made⟩ := exists_block top.1
  have apart : ((rows ++ block).map (·.1.id)).Nodup := by
    rw [List.map_append]
    refine built.distinct.append (made.distinct ids) fun id old new => ?_
    obtain ⟨row, inside, rfl⟩ := List.mem_map.mp new
    have known := made.within top.1 row inside
    have reaches := (made.reached ids known).mp new
    obtain ⟨start, listed, way⟩ := (built.reached _ known).mp old
    have back : Reaches (listedParent nodes) root.id start.id := by
      rcases reaches_total reaches way with forth | back
      · exact forth
      · exact (built.tops start listed).back back
    exact fresh ((built.reached root top.1).mpr ⟨start, listed, back⟩)
  rw [appendBelow_block ids made top.1 apart]
  refine ⟨?_, ?_, ?_, ?_, ?_, apart⟩
  · intro start member
    rcases List.mem_append.mp member with old | new
    · exact built.tops start old
    · exact List.mem_singleton.mp new ▸ top
  · intro start member
    rcases List.mem_append.mp member with old | new
    · obtain ⟨early, own, late, same, known⟩ := built.blocks start old
      exact ⟨early, own, late ++ block, by simp [same], known⟩
    · exact ⟨rows, block, [], by simp, List.mem_singleton.mp new ▸ made⟩
  · rw [List.map_append]
    refine built.order.append ?_
    obtain ⟨inner, rfl, -⟩ := made
    exact (List.nil_sublist inner).cons_cons _
  · intro row member
    rcases List.mem_append.mp member with old | new
    · exact built.within row old
    · exact made.within top.1 row new
  · intro node member
    rw [List.map_append, List.mem_append, built.reached node member, made.reached ids member]
    simp [or_and_right, exists_or]

/-- Roots come first, in their order. -/
theorem Built.roots {done rest : List NodeRow} (built : Built nodes done rows)
    (all : done ++ rest = rootsOf nodes) :
    Built nodes (rootsOf nodes) (rest.foldl (appendBelow nodes) rows) := by
  induction rest generalizing done rows with
  | nil =>
    rw [List.append_nil] at all
    exact all ▸ built
  | cons root rest ih =>
    have member : root ∈ rootsOf nodes := all ▸ by simp
    obtain ⟨listed, ended⟩ := List.mem_filter.mp member
    rw [decide_eq_true_eq] at ended
    refine ih (built.append ids ⟨listed, .inl ended⟩ fun again => ?_) (by simpa using all)
    obtain ⟨start, old, reaches⟩ := (built.reached root listed).mp again
    rcases ReflTransGen.cases_head reaches with same | ⟨next, up, -⟩
    · have nodup : (rootsOf nodes).Nodup := (List.Nodup.of_map _ ids).filter _
      rw [← all, List.nodup_append] at nodup
      exact nodup.2.2 _ old _ (List.mem_cons_self ..)
        (node_of_id ids (built.tops start old).1 listed same.symm)
    · exact nomatch ended.symm.trans up

end Growth

theorem mem_cyclicIds (member : node ∈ nodes) :
    node.id ∈ cyclicIds nodes ↔ Cyclic (listedParent nodes) node.id := by
  rw [cyclicIds, List.mem_flatten]
  exact ((survey_spec (listedParent_within nodes)).2 _ (List.mem_map_of_mem member)).symm

/-- The first listed node of a cycle. -/
def FirstOnCycle (nodes : List NodeRow) (node : NodeRow) : Prop :=
  Cyclic (listedParent nodes) node.id ∧ ∃ before after, nodes = before ++ node :: after ∧
    ∀ other ∈ before, ¬Reaches (listedParent nodes) node.id other.id

theorem Built.visited_of_reaches (built : Built nodes starts rows) (member : node ∈ nodes)
    (inside : other ∈ nodes) (reaches : Reaches (listedParent nodes) node.id other.id)
    (seen : other.id ∈ rows.map (·.1.id)) : node.id ∈ rows.map (·.1.id) := by
  obtain ⟨start, listed, way⟩ := (built.reached other inside).mp seen
  exact (built.reached node member).mpr ⟨start, listed, reaches.trans way⟩

/-- One node of every cycle follows, the first that is listed. -/
theorem Built.cycles (ids : (nodes.map NodeRow.id).Nodup) {before rest : List NodeRow}
    (built : Built nodes starts rows) (all : before ++ rest = nodes)
    (seen : ∀ node ∈ before, Cyclic (listedParent nodes) node.id → node.id ∈ rows.map (·.1.id)) :
    ∃ more, Built nodes (starts ++ more) (rest.foldl (fun rows node =>
        if node.id ∈ cyclicIds nodes && !visited rows node then appendBelow nodes rows node
        else rows) rows) ∧
      (∀ node ∈ more, FirstOnCycle nodes node) ∧
      ∀ node ∈ nodes, Cyclic (listedParent nodes) node.id →
        ∃ start ∈ starts ++ more, Reaches (listedParent nodes) node.id start.id := by
  induction rest generalizing before starts rows with
  | nil =>
    rw [List.append_nil] at all
    subst all
    refine ⟨[], by simpa using built, by simp, fun node member cyclic => ?_⟩
    simpa using (built.reached node member).mp (seen node member cyclic)
  | cons node rest ih =>
    have member : node ∈ nodes := all ▸ by simp
    have rest' : (before ++ [node]) ++ rest = nodes := by simpa using all
    rw [List.foldl_cons]
    split
    case isTrue chosen =>
      simp only [visited, Bool.and_eq_true, decide_eq_true_eq, Bool.not_eq_true',
        decide_eq_false_iff_not, mem_cyclicIds member] at chosen
      obtain ⟨cyclic, fresh⟩ := chosen
      have grown := built.append ids ⟨member, .inr cyclic⟩ fresh
      have later : ∀ other ∈ before ++ [node], Cyclic (listedParent nodes) other.id →
          other.id ∈ (appendBelow nodes rows node).map (·.1.id) := by
        intro other listed around
        have known : other ∈ nodes := rest' ▸ List.mem_append_left _ listed
        refine (grown.reached other known).mpr ?_
        rcases List.mem_append.mp listed with old | same
        · obtain ⟨start, inside, reaches⟩ := (built.reached other known).mp (seen other old around)
          exact ⟨start, List.mem_append_left _ inside, reaches⟩
        · exact ⟨node, by simp, List.mem_singleton.mp same ▸ .refl⟩
      obtain ⟨more, whole, first, reached⟩ := ih grown rest' later
      refine ⟨node :: more, by simpa using whole, fun other listed => ?_, by simpa using reached⟩
      rcases List.mem_cons.mp listed with same | after
      · subst same
        refine ⟨cyclic, before, rest, all.symm, fun earlier old reaches => fresh ?_⟩
        have known : earlier ∈ nodes := all ▸ List.mem_append_left _ old
        exact built.visited_of_reaches member known reaches
          (seen earlier old (cyclic.reached reaches))
      · exact first other after
    case isFalse passed =>
      refine ih built rest' fun other listed around => ?_
      rcases List.mem_append.mp listed with old | same
      · exact seen other old around
      · obtain rfl := List.mem_singleton.mp same
        by_contra fresh
        exact passed (by simp [visited, fresh, (mem_cyclicIds member).mpr around])

/-- The rows are the blocks of the roots and of the first nodes of the cycles. -/
theorem orderRows_built (ids : (nodes.map NodeRow.id).Nodup) :
    ∃ more, Built nodes (rootsOf nodes ++ more) (orderRows nodes) ∧
      (∀ node ∈ more, FirstOnCycle nodes node) ∧
      ∀ node ∈ nodes, ∃ start ∈ rootsOf nodes ++ more,
        Reaches (listedParent nodes) node.id start.id := by
  have rooted := (Built.nil nodes).roots ids (List.nil_append (rootsOf nodes))
  obtain ⟨more, built, first, cycles⟩ := rooted.cycles ids (List.nil_append nodes) (by simp)
  have all : ∀ node ∈ nodes, ∃ start ∈ rootsOf nodes ++ more,
      Reaches (listedParent nodes) node.id start.id := by
    intro node member
    obtain ⟨id, reaches, top⟩ :=
      exists_top (listedParent_within nodes) (List.mem_map_of_mem member)
    have known : id ∈ nodes.map NodeRow.id := by
      rcases ReflTransGen.cases_tail reaches with same | ⟨last, -, up⟩
      · exact same ▸ List.mem_map_of_mem member
      · exact listedParent_within nodes last id up
    obtain ⟨last, listed, rfl⟩ := List.mem_map.mp known
    rcases top with ended | cyclic
    · exact ⟨last, List.mem_append_left _ (List.mem_filter.mpr ⟨listed, by simpa using ended⟩),
        reaches⟩
    · obtain ⟨start, inside, way⟩ := cycles last listed cyclic
      exact ⟨start, inside, reaches.trans way⟩
  refine ⟨more, ?_, first, all⟩
  rw [orderRows]
  generalize nodes.foldl _ ((rootsOf nodes).foldl (appendBelow nodes) []) = rows at built
  have idle : ∀ rest ⊆ nodes, rest.foldl (fun rows node =>
      if visited rows node then rows else appendBelow nodes rows node) rows = rows := by
    intro rest inside
    induction rest with
    | nil => rfl
    | cons node rest ih =>
      obtain ⟨member, others⟩ := List.cons_subset.mp inside
      have seen : visited rows node = true := by
        simpa [visited] using (built.reached node member).mpr (all node member)
      rw [List.foldl_cons, if_pos seen]
      exact ih others
  rw [idle nodes (List.Subset.refl nodes)]
  exact built

/-- Below the row of a parent stands a brood that leaves out one top. -/
theorem Built.block (ids : (nodes.map NodeRow.id).Nodup) (built : Built nodes starts rows)
    (listed : root ∈ starts) (member : node ∈ nodes)
    (reaches : Reaches (listedParent nodes) node.id root.id) :
    ∃ early level inner late path, rows = early ++ (node, level) :: (inner ++ late) ∧
      Brood nodes NodeRow.id (listedParent nodes) root.id (level + 1) (childrenOf nodes node) inner
        node.id path := by
  have top := (built.tops root listed).1
  obtain ⟨early, block, late, whole, made⟩ := built.blocks root listed
  obtain ⟨row, inside, same⟩ := List.mem_map.mp ((made.reached ids member).mpr reaches)
  obtain rfl := node_of_id ids (made.within top row inside) member same
  obtain ⟨inner, rfl, brood⟩ := made
  rcases List.mem_cons.mp inside with first | below
  · subst first
    exact ⟨early, 0, inner, late, _, by simpa using whole, brood⟩
  · obtain ⟨before, own, after, path, parts, lower⟩ := brood.block below
    exact ⟨early ++ (root, 0) :: before, row.2, own, after ++ late, path, by simp [whole, parts],
      lower⟩

/-- A node with a listed parent, other than the first of a cycle, is below a top that its
parent is below too. -/
theorem exists_top_above {more : List NodeRow} (first : ∀ node ∈ more, FirstOnCycle nodes node)
    (all : ∀ node ∈ nodes, ∃ start ∈ rootsOf nodes ++ more,
      Reaches (listedParent nodes) node.id start.id)
    (member : node ∈ nodes) (later : ¬FirstOnCycle nodes node)
    (ids : (nodes.map NodeRow.id).Nodup) (tops : ∀ root ∈ rootsOf nodes ++ more, Top nodes root)
    (up : Up (listedParent nodes) node.id other.id) :
    ∃ start ∈ rootsOf nodes ++ more, node.id ≠ start.id ∧
      Reaches (listedParent nodes) other.id start.id := by
  obtain ⟨start, listed, reaches⟩ := all node member
  have fresh : node.id ≠ start.id := by
    intro same
    obtain rfl := node_of_id ids member (tops start listed).1 same
    rcases List.mem_append.mp listed with root | cyclic
    · have ended := (List.mem_filter.mp root).2
      rw [decide_eq_true_eq] at ended
      exact nomatch ended.symm.trans up
    · exact later (first node cyclic)
  refine ⟨start, listed, fresh, ?_⟩
  rcases ReflTransGen.cases_head reaches with same | ⟨next, step, rest⟩
  · exact absurd same fresh
  · exact Option.some.inj (step.symm.trans up) ▸ rest

/-! Parents by path. -/

namespace PathIndex

variable {owner : String} {path parts : List String} {index : PathIndex}

@[simp] theorem id_node (id : Option (Option String)) (children : List (String × PathIndex)) :
    (PathIndex.node id children).id = id := rfl

@[simp] theorem children_node (id : Option (Option String))
    (children : List (String × PathIndex)) : (PathIndex.node id children).children = children := rfl

/-- The `id` at a path. -/
def at? : List String → PathIndex → Option (Option String)
  | [], index => index.id
  | part :: rest, index => (index.children.lookup part).bind (at? rest)

theorem lookup_replace {part key : String} {child : PathIndex} (entries : List (String × PathIndex)) :
    (entries.map fun entry => if entry.1 = part then (part, child) else entry).lookup key =
      if key = part then (entries.lookup key).map fun _ => child else entries.lookup key := by
  induction entries with
  | nil => simp
  | cons entry rest ih =>
    obtain ⟨name, value⟩ := entry
    rw [List.map_cons, List.lookup_cons]
    by_cases same : key = name
    · subst same
      by_cases own : key = part <;> simp [own]
    · have other : (key == name) = false := by simpa using same
      by_cases own : name = part
      · subst own
        simp [ih, other, List.lookup_cons]
      · simp [own, ih, other, List.lookup_cons]

theorem at?_empty (path : List String) : at? path (PathIndex.node none []) = none := by
  cases path <;> rfl

theorem at?_add : at? path (add owner parts index) =
    if path = parts then some (if (at? path index).isNone then some owner else none)
    else at? path index := by
  induction parts generalizing path index with
  | nil =>
    cases path with
    | nil =>
      rw [if_pos rfl]
      rfl
    | cons part rest => simp [add, at?]
  | cons part rest ih =>
    cases path with
    | nil => simp [add, at?]
    | cons first later =>
      rw [add]
      split
      case h_1 child found =>
        rw [at?, at?, children_node, lookup_replace]
        by_cases same : first = part
        · subst same
          simp [found, ih]
        · simp [same]
      case h_2 missing =>
        rw [at?, at?, children_node, List.lookup_append]
        by_cases same : first = part
        · subst same
          simp [missing, ih, at?_empty]
        · have other : (first == part) = false := by simpa using same
          simp [same, List.lookup_cons, other]

/-- What is found above the end of a path stands at some path. -/
theorem nearest_eq_some {parent : Option String} {found : String}
    (known : nearest parts index parent = some found) :
    parent = some found ∨ ∃ path, at? path index = some (some found) := by
  induction parts generalizing index parent with
  | nil => exact .inl known
  | cons part rest ih =>
    cases rest with
    | nil => exact .inl known
    | cons next rest =>
      rw [nearest] at known
      split at known
      case h_1 child inside =>
        rcases ih known with here | ⟨path, below⟩
        · rcases Option.or_eq_some_iff.mp here with own | ⟨-, before⟩
          · exact .inr ⟨[part], by simpa [at?, inside] using Option.join_eq_some_iff.mp own⟩
          · exact .inl before
        · exact .inr ⟨part :: path, by simp [at?, inside, below]⟩
      case h_2 => exact .inl known

end PathIndex

/-- What the index holds for the nodes of one path. -/
def owner : List NodeRow → Option (Option String)
  | [] => none
  | [node] => some (some node.id)
  | _ => some none

theorem at?_indexPaths (nodes : List NodeRow) (path : List String) :
    (indexPaths nodes).at? path = owner (nodes.filter (pathParts ·.name = path)) := by
  induction nodes using List.reverseRecOn with
  | nil => exact PathIndex.at?_empty path
  | append_singleton before last ih =>
    rw [indexPaths, List.foldl_concat, ← indexPaths, PathIndex.at?_add, ih, List.filter_append]
    by_cases same : path = pathParts last.name
    · have kept : [last].filter (pathParts ·.name = path) = [last] := by simp [same]
      rw [if_pos same, kept]
      cases before.filter (pathParts ·.name = path) with
      | nil => rfl
      | cons first rest => cases rest <;> rfl
    · simp [same, Ne.symm same]

theorem lookup_ids {Value : Type} (value : NodeRow → Value) (ids : (nodes.map NodeRow.id).Nodup)
    (member : node ∈ nodes) :
    (nodes.map fun node => (node.id, value node)).lookup node.id = some (value node) := by
  induction nodes with
  | nil => cases member
  | cons first rest ih =>
    rw [List.map_cons, List.nodup_cons] at ids
    rcases List.mem_cons.mp member with same | later
    · subst same
      simp
    · have other : (node.id == first.id) = false := by
        rw [beq_eq_false_iff_ne]
        intro same
        exact ids.1 (same ▸ List.mem_map_of_mem later)
      rw [List.map_cons, List.lookup_cons, other]
      exact ih ids.2 later

theorem inferred_unambiguous (ids : (nodes.map NodeRow.id).Nodup) {left right : NodeRow}
    (member : node ∈ nodes) (unnamed : node.parentId = none) (first : left ∈ nodes)
    (second : right ∈ nodes) (apart : left ≠ right)
    (path : pathParts left.name = pathParts right.name) : parentOf nodes node.id ≠ some left.id := by
  intro found
  have named : ¬nodes.all (·.parentId.isSome) = true := by
    intro all
    have own := List.all_eq_true.mp all node member
    rw [unnamed] at own
    cases own
  rw [parentOf, resolveParentIds, if_neg named] at found
  dsimp only at found
  rw [lookup_ids _ ids member, Option.join_some, unnamed, Option.getD_none, inferredParent] at found
  have stored : ∃ path, (indexPaths nodes).at? path = some (some left.id) := by
    rcases PathIndex.nearest_eq_some found with top | deeper
    · split at top
      · exact ⟨[], Option.join_eq_some_iff.mp top⟩
      · cases top
    · exact deeper
  obtain ⟨place, stored⟩ := stored
  rw [at?_indexPaths] at stored
  generalize owners : nodes.filter (pathParts ·.name = place) = found at stored
  match found, stored with
  | [only], stored =>
    have listed : only ∈ nodes.filter (pathParts ·.name = place) := owners ▸ List.mem_singleton_self _
    obtain ⟨inside, placed⟩ := List.mem_filter.mp listed
    obtain rfl := node_of_id ids inside first (Option.some.inj (Option.some.inj stored))
    have again : right ∈ nodes.filter (pathParts ·.name = place) :=
      List.mem_filter.mpr ⟨second, by simpa [← path] using placed⟩
    rw [owners, List.mem_singleton] at again
    exact apart again.symm

theorem order_nodes (nodes : List NodeRow) :
    (orderConversationTree nodes).map TreeRow.node = (orderRows nodes).map Prod.fst := by
  simp [orderConversationTree, Function.comp_def]

theorem order_perm (ids : (nodes.map NodeRow.id).Nodup) :
    ((orderConversationTree nodes).map TreeRow.node).Perm nodes := by
  obtain ⟨more, built, -, all⟩ := orderRows_built ids
  have once : ((orderRows nodes).map Prod.fst).Nodup := by
    have distinct := built.distinct
    rw [show (fun row : NodeRow × ℕ => row.1.id) = NodeRow.id ∘ Prod.fst from rfl,
      ← List.map_map] at distinct
    exact List.Nodup.of_map _ distinct
  rw [order_nodes, List.perm_ext_iff_of_nodup once (List.Nodup.of_map _ ids)]
  intro node
  constructor
  · intro member
    obtain ⟨row, inside, rfl⟩ := List.mem_map.mp member
    exact built.within row inside
  · intro member
    obtain ⟨row, inside, same⟩ := List.mem_map.mp ((built.reached node member).mpr (all node member))
    exact List.mem_map.mpr ⟨row, inside, node_of_id ids (built.within row inside) member same⟩

/-- The rows around a parent whose child is not the first of a cycle: the other children
follow in order, and nothing but what is below it stands between. -/
theorem order_block (ids : (nodes.map NodeRow.id).Nodup) (member : node ∈ nodes)
    (inside : other ∈ nodes) (up : Up (listedParent nodes) node.id other.id)
    (later : ¬FirstOnCycle nodes node) :
    ∃ early level inner late start path, orderRows nodes = early ++ (other, level) :: (inner ++ late) ∧
      Brood nodes NodeRow.id (listedParent nodes) start (level + 1) (childrenOf nodes other) inner
        other.id path ∧
      ∀ child ∈ nodes, Up (listedParent nodes) child.id other.id → ¬FirstOnCycle nodes child →
        child.id ≠ start := by
  obtain ⟨more, built, first, all⟩ := orderRows_built ids
  obtain ⟨start, listed, fresh, reaches⟩ :=
    exists_top_above first all member later ids built.tops up
  obtain ⟨early, level, inner, late, path, parts, brood⟩ := built.block ids listed inside reaches
  refine ⟨early, level, inner, late, start.id, path, parts, brood, fun child known above only same => ?_⟩
  obtain rfl := node_of_id ids known (built.tops start listed).1 same
  rcases List.mem_append.mp listed with root | cyclic
  · have ended := (List.mem_filter.mp root).2
    rw [decide_eq_true_eq] at ended
    exact nomatch ended.symm.trans above
  · exact only (first child cyclic)

theorem order_child (ids : (nodes.map NodeRow.id).Nodup) (member : node ∈ nodes)
    (inside : other ∈ nodes) (up : Up (listedParent nodes) node.id other.id)
    (later : ¬FirstOnCycle nodes node) :
    ∃ before row block after,
      orderConversationTree nodes = before ++ row :: (block ++ after) ∧ row.node = other ∧
      (∃ child ∈ block, child.node = node ∧ child.depth = row.depth + 1) ∧
      ∀ below ∈ block, row.depth < below.depth ∧
        TransGen (Up (listedParent nodes)) below.node.id other.id := by
  obtain ⟨early, level, inner, late, start, path, parts, brood, fresh⟩ :=
    order_block ids member inside up later
  rw [orderConversationTree, parts, List.map_append, List.map_cons, List.map_append]
  refine ⟨_, _, _, _, rfl, rfl, ?_, ?_⟩
  · have listed : node ∈ (childrenOf nodes other).filter (·.id ≠ start) :=
      List.mem_filter.mpr ⟨mem_offspring.mpr ⟨member, up⟩, by simpa using fresh node member up later⟩
    have row := brood.laid.sublist.subset (List.mem_map_of_mem listed)
    exact ⟨_, List.mem_map_of_mem row, rfl, rfl⟩
  · intro below listed
    obtain ⟨row, known, rfl⟩ := List.mem_map.mp listed
    obtain ⟨-, way, line, -, child, listed, -, passed⟩ := brood.lines row known
    exact ⟨brood.laid.depth_le row known, .tail' (line.reaches_mem passed) (brood.up child listed)⟩

theorem order_siblings (ids : (nodes.map NodeRow.id).Nodup) {left right : NodeRow} {parent : String}
    (order : [left, right].Sublist nodes) (leftUp : Up (listedParent nodes) left.id parent)
    (rightUp : Up (listedParent nodes) right.id parent) (leftLater : ¬FirstOnCycle nodes left)
    (rightLater : ¬FirstOnCycle nodes right) :
    [left, right].Sublist ((orderConversationTree nodes).map TreeRow.node) := by
  have member : left ∈ nodes := order.subset (by simp)
  have second : right ∈ nodes := order.subset (by simp)
  obtain ⟨other, inside, rfl⟩ := List.mem_map.mp (listedParent_within nodes _ _ leftUp)
  obtain ⟨early, level, inner, late, start, path, parts, brood, fresh⟩ :=
    order_block ids member inside leftUp leftLater
  have kept : [left, right].Sublist ((childrenOf nodes other).filter (·.id ≠ start)) := by
    have both := (order.filter fun child => listedParent nodes child.id = some other.id).filter
      (·.id ≠ start)
    have leftFresh := fresh left member leftUp leftLater
    have rightFresh := fresh right second rightUp rightLater
    simp only [Up] at leftUp rightUp
    simpa [childrenOf, offspring, leftUp, rightUp, leftFresh, rightFresh] using both
  have rows := (kept.map (·, level + 1)).trans brood.laid.sublist
  have nodes := (rows.trans (List.sublist_append_left inner late)).map Prod.fst
  rw [order_nodes, parts, List.map_append, List.map_cons]
  exact (nodes.trans (List.sublist_cons_self ..)).trans (List.sublist_append_right ..)

theorem order_roots (ids : (nodes.map NodeRow.id).Nodup) :
    (rootsOf nodes).Sublist ((orderConversationTree nodes).map TreeRow.node) := by
  obtain ⟨more, built, -, -⟩ := orderRows_built ids
  have starts := built.order.map Prod.fst
  rw [List.map_map] at starts
  rw [order_nodes]
  refine (List.sublist_append_left (rootsOf nodes) more).trans ?_
  simpa [Function.comp_def] using starts

theorem lineageOf_cycle {depth : ℕ} (member : node ∈ nodes) :
    lineageOf nodes node.id depth = .cycle ↔ Cyclic (listedParent nodes) node.id := by
  rw [← mem_cyclicIds member, lineageOf]
  by_cases cyclic : node.id ∈ cyclicIds nodes
  · simp [cyclic]
  · simp only [cyclic, if_false, iff_false]
    split
    · simp
    · split <;> simp

theorem lineageOf_orphan {depth : ℕ} (member : node ∈ nodes) :
    lineageOf nodes node.id depth = .orphan ↔
      ∃ parent, parentOf nodes node.id = some parent ∧ parent ∉ nodes.map NodeRow.id := by
  have unlisted : ((parentOf nodes node.id).isSome && listedParent nodes node.id = none) = true ↔
      ∃ parent, parentOf nodes node.id = some parent ∧ parent ∉ nodes.map NodeRow.id := by
    rw [listedParent]
    cases parentOf nodes node.id with
    | none => simp
    | some parent => simp [Option.filter_eq_none_iff]
  rw [← unlisted, lineageOf]
  by_cases cyclic : node.id ∈ cyclicIds nodes
  · obtain ⟨above, up, -⟩ := TransGen.head'_iff.mp ((mem_cyclicIds member).mp cyclic)
    simp only [Up] at up
    simp [cyclic, up]
  · rw [if_neg cyclic]
    split
    case isTrue orphan => simpa using orphan
    case isFalse kept =>
      refine iff_of_false ?_ kept
      split <;> simp

theorem conversation_tree (nodes : List NodeRow) (ids : (nodes.map NodeRow.id).Nodup) :
    ((orderConversationTree nodes).map TreeRow.node).Perm nodes ∧
    (∀ node ∈ nodes, ∀ parent ∈ nodes, listedParent nodes node.id = some parent.id →
      ¬FirstOnCycle nodes node → ∃ before row block after,
        orderConversationTree nodes = before ++ row :: (block ++ after) ∧ row.node = parent ∧
        (∃ child ∈ block, child.node = node ∧ child.depth = row.depth + 1) ∧
        ∀ other ∈ block, row.depth < other.depth ∧
          TransGen (Up (listedParent nodes)) other.node.id parent.id) ∧
    (∀ left right parent, [left, right].Sublist nodes →
      listedParent nodes left.id = some parent → listedParent nodes right.id = some parent →
      ¬FirstOnCycle nodes left → ¬FirstOnCycle nodes right →
      [left, right].Sublist ((orderConversationTree nodes).map TreeRow.node)) ∧
    (rootsOf nodes).Sublist ((orderConversationTree nodes).map TreeRow.node) ∧
    (∀ row ∈ orderConversationTree nodes,
      (row.lineage = .cycle ↔ Cyclic (listedParent nodes) row.node.id) ∧
      (row.lineage = .orphan ↔ ∃ parent, parentOf nodes row.node.id = some parent ∧
        parent ∉ nodes.map NodeRow.id)) ∧
    ∀ node ∈ nodes, node.parentId = none → ∀ left ∈ nodes, ∀ right ∈ nodes, left ≠ right →
      pathParts left.name = pathParts right.name → parentOf nodes node.id ≠ some left.id := by
  refine ⟨order_perm ids, ?_, ?_, order_roots ids, ?_, ?_⟩
  · intro node member parent inside up later
    exact order_child ids member inside up later
  · intro left right parent order leftUp rightUp leftLater rightLater
    exact order_siblings ids order leftUp rightUp leftLater rightLater
  · intro row listed
    have member : row.node ∈ nodes := (order_perm ids).subset (List.mem_map_of_mem listed)
    obtain ⟨entry, -, rfl⟩ := List.mem_map.mp listed
    exact ⟨lineageOf_cycle member, lineageOf_orphan member⟩
  · intro node member unnamed left first right second apart path
    exact inferred_unambiguous ids member unnamed first second apart path

def groveNode (id : String) (parent : Option String) : NodeRow :=
  ⟨id, "/", some parent⟩

/-- A cycle of `x` and `y`, a node with an unlisted parent, and a root with two children. -/
def grove : List NodeRow :=
  [groveNode "x" (some "y"), groveNode "y" (some "x"), groveNode "b" (some "r"),
    groveNode "o" (some "gone"), groveNode "a" (some "r"), groveNode "r" none]

/-- Two nodes of one path, and one below it. -/
def twins : List NodeRow :=
  [⟨"s", "/t", none⟩, ⟨"t", "/t", none⟩, ⟨"u", "/t/u", none⟩]

theorem conversation_tree_cycle :
    ((orderConversationTree grove).map TreeRow.node).Perm grove ∧
    (∃ before row block after, orderConversationTree grove = before ++ row :: (block ++ after) ∧
      row.node.id = "r" ∧ ∃ child ∈ block, child.node.id = "a" ∧ child.depth = row.depth + 1) ∧
    [groveNode "b" (some "r"), groveNode "a" (some "r")].Sublist
      ((orderConversationTree grove).map TreeRow.node) ∧
    [groveNode "o" (some "gone"), groveNode "r" none].Sublist
      ((orderConversationTree grove).map TreeRow.node) ∧
    (∀ row ∈ orderConversationTree grove, (row.node.id = "x" → row.lineage = .cycle) ∧
      (row.node.id = "o" → row.lineage = .orphan)) ∧
    parentOf twins "u" ≠ some "s" := by
  obtain ⟨listed, below, siblings, roots, lineage, -⟩ := conversation_tree grove (by decide)
  have straight (node : NodeRow) (member : node ∈ grove) (outside : node.id ∉ cyclicIds grove) :
      ¬FirstOnCycle grove node :=
    fun first => outside ((mem_cyclicIds member).mpr first.1)
  have second := straight (groveNode "a" (some "r")) (by decide) (by decide +kernel)
  have first := straight (groveNode "b" (some "r")) (by decide) (by decide +kernel)
  have tops : rootsOf grove = [groveNode "o" (some "gone"), groveNode "r" none] := by decide +kernel
  refine ⟨listed, ?_, ?_, tops ▸ roots, fun row inside => ⟨fun same => ?_, fun same => ?_⟩, ?_⟩
  · obtain ⟨before, row, block, after, parts, top, ⟨child, inside, own, depth⟩, -⟩ :=
      below _ (by decide) (groveNode "r" none) (by decide) (by decide +kernel) second
    exact ⟨before, row, block, after, parts, top ▸ rfl, child, inside, own ▸ rfl, depth⟩
  · exact siblings _ _ "r" (by decide) (by decide +kernel) (by decide +kernel) first second
  · have member : groveNode "x" (some "y") ∈ grove := by decide
    exact (lineage row inside).1.mpr (same ▸ (mem_cyclicIds member).mp (by decide +kernel))
  · exact (lineage row inside).2.mpr (same ▸ ⟨"gone", by decide +kernel, by decide⟩)
  · obtain ⟨-, -, -, -, -, ambiguous⟩ := conversation_tree twins (by decide)
    exact ambiguous ⟨"u", "/t/u", none⟩ (by decide) rfl ⟨"s", "/t", none⟩ (by decide)
      ⟨"t", "/t", none⟩ (by decide) (by decide) rfl

/-- Two children of `b`, the second of which is its parent as well. -/
def cycleNodes : List NodeRow :=
  [⟨"c", "/c", some (some "b")⟩, ⟨"a", "/a", some (some "b")⟩, ⟨"b", "/b", some (some "a")⟩]

/-- The siblings `c` and `a` are listed in this order, and `a` comes first. -/
theorem siblings_reordered :
    cycleNodes.map (listedParent cycleNodes ·.id) = [some "b", some "b", some "a"] ∧
      (orderConversationTree cycleNodes).map (·.node.id) = ["a", "b", "c"] :=
  ⟨by decide +kernel, by decide +kernel⟩

end ExomonadHarness.Browser
