import ExomonadHarness.Presentation.Form
import ExomonadHarness.Support.OrderedMap

/-! `activeDraft` of `form-model.ts`: the part of a draft that the selected branches show. -/

namespace ExomonadHarness.Presentation

open ExomonadHarness.Json Checked OrderedMap Relation

def FormAlternative.form : FormAlternative → FormNode
  | mk _ _ _ form => form

/-- The form of the first option with an id. -/
def branch (options : List FormAlternative) (chosen : String) : List FormNode :=
  ((options.find? (·.id = chosen)).map (·.form)).toList

theorem mem_branch {options : List FormAlternative} {chosen : String} {form : FormNode}
    (member : form ∈ branch options chosen) :
    ∃ option ∈ options, option.id = chosen ∧ option.form = form := by
  obtain ⟨option, found, same⟩ := Option.map_eq_some_iff.mp (Option.mem_toList.mp member)
  have named := List.find?_some found
  exact ⟨option, List.mem_of_find?_eq_some found, by simpa using named, same⟩

namespace FormNode

/-- All nodes right below a node. -/
def branches : FormNode → List FormNode
  | group children => children
  | titled _ child => [child]
  | alternativesMany _ _ options _ | alternatives _ _ options _ => options.map (·.form)
  | _ => []

/-- The nodes right below a node that a draft selects. -/
def selected (draft : FormDraft) : FormNode → List FormNode
  | group children => children
  | titled _ child => [child]
  | alternatives id _ options initial =>
    match (draft.lookup id).or (initial.map .text) with
    | some (.text chosen) => branch options chosen
    | _ => []
  | alternativesMany id _ options _ =>
    match draft.lookup id with
    | some (.many chosen) => (options.filter (·.id ∈ chosen)).map (·.form)
    | _ => []
  | _ => []

variable {node child : FormNode} {draft other into : FormDraft} {id : String}

theorem selected_sublist (draft : FormDraft) (node : FormNode) :
    (node.selected draft).Sublist node.branches := by
  cases node with
  | alternatives id label options initial =>
    rw [selected]
    split
    · rw [branches, branch]
      cases found : options.find? _ with
      | none => exact List.nil_sublist _
      | some option =>
        exact List.singleton_sublist.mpr (List.mem_map_of_mem (List.mem_of_find?_eq_some found))
    · exact List.nil_sublist _
  | alternativesMany id label options initial =>
    rw [selected]
    split
    · exact List.filter_sublist.map _
    · exact List.nil_sublist _
  | _ => exact List.Sublist.refl _

theorem sizeOf_form_lt {options : List FormAlternative} {option : FormAlternative}
    (member : option ∈ options) : sizeOf option.form < sizeOf options := by
  have size := List.sizeOf_lt_of_mem member
  cases option
  simp only [FormAlternative.form, FormAlternative.mk.sizeOf_spec] at size ⊢
  omega

theorem sizeOf_branch (member : child ∈ node.branches) : sizeOf child < sizeOf node := by
  cases node with
  | group children =>
    have size : sizeOf child < sizeOf children := List.sizeOf_lt_of_mem member
    simp only [group.sizeOf_spec]
    omega
  | titled title inner =>
    rw [List.mem_singleton.mp member]
    simp only [titled.sizeOf_spec]
    omega
  | alternatives id label options initial | alternativesMany id label options initial =>
    obtain ⟨option, inside, rfl⟩ := List.mem_map.mp member
    have size := sizeOf_form_lt inside
    simp only [alternatives.sizeOf_spec, alternativesMany.sizeOf_spec]
    omega
  | _ => cases member

theorem sizeOf_selected (member : child ∈ node.selected draft) : sizeOf child < sizeOf node :=
  sizeOf_branch ((selected_sublist draft node).subset member)

/-- Whatever holds of a node when it holds of all nodes below it. -/
theorem branch_induction {motive : FormNode → Prop}
    (step : ∀ node, (∀ child ∈ node.branches, motive child) → motive node) (node : FormNode) :
    motive node := by
  induction size : sizeOf node using Nat.strong_induction_on generalizing node with
  | _ size ih =>
    exact step node fun child member => ih _ (size ▸ sizeOf_branch member) child rfl

/-- What the draft holds for the node itself. -/
def keep (draft into : FormDraft) (node : FormNode) : FormDraft :=
  match node.controlId with
  | some id => insertSome id (draft.lookup id) into
  | none => into

def activeInto (draft into : FormDraft) (node : FormNode) : FormDraft :=
  (node.selected draft).attach.foldl (fun into child => activeInto draft into child.1)
    (keep draft into node)
termination_by sizeOf node
decreasing_by exact sizeOf_selected child.2

def activeDraft (root : FormNode) (draft : FormDraft) : FormDraft :=
  activeInto draft [] root

theorem activeInto_eq (draft into : FormDraft) (node : FormNode) :
    activeInto draft into node =
      (node.selected draft).foldl (activeInto draft) (keep draft into node) := by
  rw [activeInto]
  exact List.foldl_attach

/-- A control that the selected branches of a draft show. -/
def Shows (draft : FormDraft) (root : FormNode) (id : String) : Prop :=
  ∃ node, ReflTransGen (fun node child => child ∈ node.selected draft) root node ∧
    node.controlId = some id

theorem shows_iff : Shows draft node id ↔
    node.controlId = some id ∨ ∃ child ∈ node.selected draft, Shows draft child id := by
  constructor
  · intro shown
    obtain ⟨last, reaches, own⟩ := shown
    rcases ReflTransGen.cases_head reaches with same | ⟨child, member, rest⟩
    · exact .inl (same ▸ own)
    · exact .inr ⟨child, member, last, rest, own⟩
  · intro given
    rcases given with own | ⟨child, member, last, reaches, own⟩
    · exact ⟨node, .refl, own⟩
    · exact ⟨last, .head member reaches, own⟩

theorem selected_congr (same : ∀ id, node.controlId = some id → draft.lookup id = other.lookup id) :
    node.selected draft = node.selected other := by
  cases node with
  | alternatives id | alternativesMany id => rw [selected, selected, same id rfl]
  | _ => rfl

theorem keep_congr (same : ∀ id, node.controlId = some id → draft.lookup id = other.lookup id) :
    keep draft into node = keep other into node := by
  unfold keep
  cases named : node.controlId with
  | none => rfl
  | some id =>
    dsimp only
    rw [same id named]

/-- The active part depends on the shown controls only. -/
theorem activeInto_congr (same : ∀ id, Shows draft node id → draft.lookup id = other.lookup id) :
    activeInto draft into node = activeInto other into node := by
  induction node using branch_induction generalizing into with
  | step node ih =>
    have own : ∀ id, node.controlId = some id → draft.lookup id = other.lookup id :=
      fun id named => same id (shows_iff.mpr (.inl named))
    rw [activeInto_eq, activeInto_eq, keep_congr own, ← selected_congr own]
    apply List.foldl_ext
    intro into child member
    apply ih child ((selected_sublist draft node).subset member)
    exact fun id shown => same id (shows_iff.mpr (.inr ⟨child, member, shown⟩))

/-! The active part of a draft. -/

theorem ordered_insertSome {value : Option ControlValue} (ordered : Ordered into) :
    Ordered (insertSome id value into) := by
  cases value with
  | none => exact ordered
  | some value => exact ordered.insert id value

theorem ordered_keep (ordered : Ordered into) : Ordered (keep draft into node) := by
  unfold keep
  split
  · exact ordered_insertSome ordered
  · exact ordered

/-- Entries of the draft. -/
def Agrees (draft into : FormDraft) : Prop :=
  ∀ id value, into.lookup id = some value → draft.lookup id = some value

theorem Agrees.keep (agrees : Agrees draft into) :
    Agrees draft (keep draft into node) ∧ ∀ id,
      (node.controlId = some id → (FormNode.keep draft into node).lookup id = draft.lookup id) ∧
      (node.controlId ≠ some id → (FormNode.keep draft into node).lookup id = into.lookup id) := by
  unfold FormNode.keep
  cases node.controlId with
  | none => exact ⟨agrees, fun id => ⟨fun own => (nomatch own), fun _ => rfl⟩⟩
  | some own =>
    dsimp only
    have looked : ∀ id, (insertSome own (draft.lookup own) into).lookup id =
        if id = own then draft.lookup own else into.lookup id := by
      intro id
      rw [lookup_insertSome]
      by_cases same : id = own
      · subst same
        rw [if_pos rfl, if_pos rfl]
        cases missing : draft.lookup id with
        | some value => rfl
        | none =>
          cases held : into.lookup id with
          | none => rfl
          | some value => exact nomatch missing.symm.trans (agrees id value held)
      · rw [if_neg same, if_neg same]
    refine ⟨fun id value found => ?_, fun id => ⟨fun same => ?_, fun apart => ?_⟩⟩
    · rw [looked] at found
      split at found
      case isTrue same => exact same ▸ found
      case isFalse => exact agrees id value found
    · rw [looked, if_pos (Option.some.inj same).symm, Option.some.inj same]
    · have other : id ≠ own := fun same => apart (by rw [same])
      rw [looked, if_neg other]

/-- The active part is an ordered part of the draft, and holds what is shown. -/
theorem activeInto_spec (ordered : Ordered into) (agrees : Agrees draft into) :
    Ordered (activeInto draft into node) ∧ Agrees draft (activeInto draft into node) ∧ ∀ id,
      (Shows draft node id → (activeInto draft into node).lookup id = draft.lookup id) ∧
      (¬Shows draft node id → (activeInto draft into node).lookup id = into.lookup id) := by
  induction node using branch_induction generalizing into with
  | step node ih =>
    have all : ∀ nodes ⊆ node.selected draft, ∀ start, Ordered start → Agrees draft start →
        Ordered (nodes.foldl (activeInto draft) start) ∧
        Agrees draft (nodes.foldl (activeInto draft) start) ∧ ∀ id,
          ((∃ child ∈ nodes, Shows draft child id) →
            (nodes.foldl (activeInto draft) start).lookup id = draft.lookup id) ∧
          ((¬∃ child ∈ nodes, Shows draft child id) →
            (nodes.foldl (activeInto draft) start).lookup id = start.lookup id) := by
      intro nodes
      induction nodes with
      | nil =>
        intro _ start ordered agrees
        exact ⟨ordered, agrees, by simp⟩
      | cons first rest others =>
        intro inside start ordered agrees
        obtain ⟨member, later⟩ := List.cons_subset.mp inside
        obtain ⟨sorted, part, looked⟩ :=
          ih first ((selected_sublist draft node).subset member) ordered agrees
        obtain ⟨last, whole, found⟩ := others later _ sorted part
        refine ⟨last, whole, fun id => ⟨fun shown => ?_, fun hidden => ?_⟩⟩
        · by_cases below : ∃ child ∈ rest, Shows draft child id
          · exact (found id).1 below
          · obtain ⟨child, listed, shows⟩ := shown
            rcases List.mem_cons.mp listed with same | after
            · rw [List.foldl_cons, (found id).2 below, (looked id).1 (same ▸ shows)]
            · exact absurd ⟨child, after, shows⟩ below
        · have none : ¬Shows draft first id := fun shows => hidden ⟨first, by simp, shows⟩
          have rest' : ¬∃ child ∈ rest, Shows draft child id := by
            intro below
            obtain ⟨child, listed, shows⟩ := below
            exact hidden ⟨child, List.mem_cons_of_mem _ listed, shows⟩
          rw [List.foldl_cons, (found id).2 rest', (looked id).2 none]
    obtain ⟨kept, own⟩ : Agrees draft (keep draft into node) ∧ _ := agrees.keep
    obtain ⟨last, whole, found⟩ := all _ (List.Subset.refl _) _ (ordered_keep ordered) kept
    rw [activeInto_eq]
    refine ⟨last, whole, fun id => ⟨fun shown => ?_, fun hidden => ?_⟩⟩
    · by_cases below : ∃ child ∈ node.selected draft, Shows draft child id
      · exact (found id).1 below
      · rw [(found id).2 below]
        exact (own id).1 ((shows_iff.mp shown).resolve_right below)
    · rw [shows_iff, not_or] at hidden
      rw [(found id).2 hidden.2, (own id).2 hidden.1]

variable {root : FormNode}

theorem activeDraft_spec (root : FormNode) (draft : FormDraft) :
    Ordered (activeDraft root draft) ∧ Agrees draft (activeDraft root draft) ∧ ∀ id,
      (Shows draft root id → (activeDraft root draft).lookup id = draft.lookup id) ∧
      (¬Shows draft root id → (activeDraft root draft).lookup id = none) :=
  activeInto_spec .nil fun _ _ found => nomatch found

theorem activeDraft_idem (root : FormNode) (draft : FormDraft) :
    activeDraft root (activeDraft root draft) = activeDraft root draft := by
  refine (activeInto_congr fun id shown => ?_).symm
  exact (((activeDraft_spec root draft).2.2 id).1 shown).symm

/-! What the server makes of the active part. -/

variable {host : Host}

/-- An option that is selected is one of those offered. -/
def takesOne (value : Option ControlValue) (ids : List String) : Bool :=
  match value with
  | none => true
  | some (.text chosen) => chosen ∈ ids
  | some _ => false

def takesMany (value : Option ControlValue) (ids : List String) : Bool :=
  match value with
  | none => true
  | some (.many chosen) => chosen.Nodup && chosen.all (· ∈ ids)
  | some _ => false

/-- What the server asks of the control of a node. -/
def takes (host : Host) (draft : FormDraft) : FormNode → Bool
  | text id _ _ | int id _ _ => (control draft id).all ControlValue.isText
  | number id _ _ => (control draft id).all ControlValue.isNumber
  | bool id _ _ => (control draft id).all ControlValue.isBool
  | slider id _ minimum maximum _ => (control draft id).all (·.within host minimum maximum)
  | choice id _ options _ => takesOne (control draft id) (options.map (·.id))
  | alternatives id _ options _ => takesOne (control draft id) (options.map (·.id))
  | many id _ options _ => takesMany (control draft id) (options.map (·.id))
  | alternativesMany id _ options _ => takesMany (control draft id) (options.map (·.id))
  | pure | empty | group _ | titled _ _ | view _ => true

/-- The nodes right below a node that the server looks at. -/
def entered (draft : FormDraft) : FormNode → List FormNode
  | group children => children
  | titled _ child => [child]
  | alternatives id _ options _ =>
    match control draft id with
    | some (.text chosen) => branch options chosen
    | _ => []
  | alternativesMany id _ options _ =>
    match control draft id with
    | some (.many chosen) => chosen.flatMap (branch options)
    | _ => []
  | _ => []

theorem acceptsChosen_eq (draft : FormDraft) (options : List FormAlternative) (chosen : String) :
    acceptsChosen host draft options chosen = (decide (chosen ∈ options.map (·.id)) &&
      (branch options chosen).all (accepts host draft)) := by
  induction options with
  | nil => rfl
  | cons first rest ih =>
    obtain ⟨id, label, presentation, form⟩ := first
    rw [acceptsChosen, branch, List.find?_cons]
    by_cases same : id = chosen
    · simp [same, FormAlternative.id, FormAlternative.form]
    · rw [if_neg same, ih]
      simp [same, FormAlternative.id, Ne.symm same, branch]

theorem acceptsAll_eq (draft : FormDraft) (nodes : List FormNode) :
    acceptsAll host draft nodes = nodes.all (accepts host draft) := by
  induction nodes with
  | nil => rfl
  | cons first rest ih => rw [acceptsAll, ih, List.all_cons]

theorem any_id {α : Type} (options : List α) (id : α → String) (chosen : String) :
    (options.any fun option => id option = chosen) = decide (chosen ∈ options.map id) := by
  rw [Bool.eq_iff_iff]
  simp

/-- A draft is accepted where the control takes its value and all below accept it. -/
theorem accepts_eq (host : Host) (draft : FormDraft) (node : FormNode) :
    accepts host draft node =
      (takes host draft node && (node.entered draft).all (accepts host draft)) := by
  cases node with
  | group children => rw [accepts, acceptsAll_eq, takes, entered, Bool.true_and]
  | titled title child => simp [accepts, takes, entered]
  | choice id label options initial =>
    change _ = (takesOne _ _ && true)
    rw [accepts, Bool.and_true]
    rcases control draft id with _ | ⟨_ | _ | _ | chosen | _ | _⟩
    case some.text => exact any_id _ _ _
    all_goals rfl
  | many id label options initial =>
    change _ = (takesMany _ _ && true)
    rw [accepts, Bool.and_true]
    rcases control draft id with _ | ⟨_ | _ | _ | _ | chosen | _⟩
    case some.many => simp only [takesMany, any_id]
    all_goals rfl
  | alternatives id label options initial =>
    rw [accepts, takes, entered]
    rcases control draft id with _ | ⟨_ | _ | _ | chosen | _ | _⟩
    case some.text => exact acceptsChosen_eq _ _ _
    all_goals rfl
  | alternativesMany id label options initial =>
    rw [accepts, takes, entered]
    rcases control draft id with _ | ⟨_ | _ | _ | _ | chosen | _⟩
    case some.many =>
      rw [takesMany, List.all_flatMap, Bool.eq_iff_iff]
      simp only [Bool.and_eq_true, List.all_eq_true, acceptsChosen_eq, forall₂_and, and_assoc]
    all_goals rfl
  | _ => simp [accepts, takes, entered]

theorem entered_subset (draft : FormDraft) (node : FormNode) :
    node.entered draft ⊆ node.selected draft := by
  have looked {id : String} {value : ControlValue} (held : control draft id = some value) :
      draft.lookup id = some value := (Option.filter_eq_some_iff.mp held).1
  cases node with
  | alternatives id label options initial =>
    rw [entered]
    split
    case h_1 chosen held =>
      rw [selected, looked held]
      exact List.Subset.refl _
    case h_2 => exact List.nil_subset _
  | alternativesMany id label options initial =>
    rw [entered]
    split
    case h_1 chosen held =>
      rw [selected, looked held]
      intro child member
      obtain ⟨wanted, listed, inside⟩ := List.mem_flatMap.mp member
      obtain ⟨option, known, same, rfl⟩ := mem_branch inside
      exact List.mem_map_of_mem (List.mem_filter.mpr ⟨known, decide_eq_true (same ▸ listed)⟩)
    case h_2 => exact List.nil_subset _
  | _ => exact List.Subset.refl _

/-- The server looks at shown controls only. -/
theorem accepts_congr (same : ∀ id, Shows draft node id → draft.lookup id = other.lookup id) :
    accepts host draft node = accepts host other node := by
  induction node using branch_induction with
  | step node ih =>
    have own : ∀ id, node.controlId = some id → control draft id = control other id := by
      intro id named
      rw [control, control, same id (shows_iff.mpr (.inl named))]
    have below : ∀ child ∈ node.entered draft,
        accepts host draft child = accepts host other child := by
      intro child member
      have shown := entered_subset draft node member
      exact ih child ((selected_sublist draft node).subset shown)
        fun id shows => same id (shows_iff.mpr (.inr ⟨child, shown, shows⟩))
    have control : takes host draft node = takes host other node ∧
        node.entered draft = node.entered other := by
      cases node with
      | pure | empty | view | group | titled => exact ⟨rfl, rfl⟩
      | _ id => simp only [takes, entered, own id rfl, and_self]
    rw [accepts_eq, accepts_eq, control.1, ← control.2, all_congr_of_mem below]

theorem activeDraft_subperm (root : FormNode) (draft : FormDraft) :
    (activeDraft root draft).Subperm draft := by
  obtain ⟨ordered, agrees, -⟩ := activeDraft_spec root draft
  refine (List.Nodup.of_map _ ordered.nodup_keys).subperm fun entry member => ?_
  exact mem_of_lookup (agrees _ _ (ordered.lookup_of_mem member))

theorem draftLength_le {few : FormDraft} (sub : few.Subperm draft) :
    draftLength host few ≤ draftLength host draft := by
  obtain ⟨some, perm, fewer⟩ := sub
  have sums := (fewer.map fun entry : String × ControlValue =>
    Length.text entry.1 + 1 + entry.2.length host).sum_le_sum fun _ _ => Nat.zero_le _
  rw [(perm.map _).sum_eq] at sums
  have length := fewer.length_le
  rw [perm.length_eq] at length
  simp only [draftLength, Length.object, Length.separated, List.map_map, Function.comp_def,
    List.length_map]
  omega

end FormNode

theorem FormSpec.validateDraft_eq_ok {host : Host} {form : FormSpec} {draft : FormDraft} :
    form.validateDraft host draft = .ok () ↔ draft.length ≤ 1024 ∧
      draftLength host draft ≤ maxPresentationBytes ∧ form.root.accepts host draft = true := by
  simp [validateDraft, bind_eq_ok, require_eq_ok, and_assoc]

/-- The server checks the shown controls only, so it finds the same in the active part. -/
theorem FormSpec.accepts_active (host : Host) (form : FormSpec) (draft : FormDraft) :
    form.root.accepts host (form.root.activeDraft draft) = form.root.accepts host draft := by
  refine (FormNode.accepts_congr fun id shown => ?_).symm
  exact (((form.root.activeDraft_spec draft).2.2 id).1 shown).symm

/-- The active part of a draft holds what the draft holds for the shown controls and nothing
else. The server takes it when it fits and the draft conforms, so whenever it takes the draft. -/
theorem form_drafts (host : Host) (form : FormSpec) (draft : FormDraft) :
    let active := form.root.activeDraft draft
    (∀ id value, active.lookup id = some value ↔
      draft.lookup id = some value ∧ form.root.Shows draft id) ∧
    form.root.activeDraft active = active ∧
    (form.validateDraft host active = .ok () ↔
      active.length ≤ 1024 ∧ draftLength host active ≤ maxPresentationBytes ∧
      form.root.accepts host draft = true) ∧
    (form.validateDraft host draft = .ok () → form.validateDraft host active = .ok ()) := by
  refine ⟨fun id value => ?_, form.root.activeDraft_idem draft, ?_, fun accepted => ?_⟩
  · obtain ⟨-, agrees, looked⟩ := form.root.activeDraft_spec draft
    refine ⟨fun found => ⟨agrees id value found, ?_⟩, fun given => ?_⟩
    · by_contra hidden
      rw [(looked id).2 hidden] at found
      cases found
    · rw [(looked id).1 given.2, given.1]
  · rw [FormSpec.validateDraft_eq_ok, FormSpec.accepts_active]
  · rw [FormSpec.validateDraft_eq_ok] at accepted ⊢
    have sub := form.root.activeDraft_subperm draft
    refine ⟨sub.length_le.trans accepted.1, (FormNode.draftLength_le sub).trans accepted.2.1, ?_⟩
    rw [FormSpec.accepts_active]
    exact accepted.2.2

end ExomonadHarness.Presentation
