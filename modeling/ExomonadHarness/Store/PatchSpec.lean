import ExomonadHarness.Store.Patch

/-! A batch of edits is accepted exactly when its targets fit the document, and an accepted
batch changes all its targets at once. -/

namespace ExomonadHarness.Store

open Json Checked

variable {Reference : Type}

/-! Names in a document. -/

def ContextBlock.reference? : ContextBlock Reference → Option Reference
  | .text reference _ _ _ => reference
  | .native reference _ _ _ _ => some reference

def ContextBlock.fields : ContextBlock Reference → List (ContextVisibleText Reference)
  | .text _ _ _ _ => []
  | .native _ _ _ _ texts => texts

def ContextVisibleText.name (field : ContextVisibleText Reference) : Reference × ContextTextSelector :=
  (field.reference, field.selector)

/-- Blocks and fields have names of their own, and a field shares a block's name only with
the block it stands in. -/
structure WellNamed (document : ContextDocument Reference) : Prop where
  blocks : (document.blocks.filterMap ContextBlock.reference?).Nodup
  fields : ((document.blocks.flatMap ContextBlock.fields).map ContextVisibleText.name).Nodup
  own : ∀ block ∈ document.blocks, ∀ field ∈ block.fields, ∀ other ∈ document.blocks,
    other.reference? = some field.reference → other = block

/-- The editable text under a name. -/
def EditableText (document : ContextDocument Reference) (reference : Reference)
    (selector : ContextTextSelector) (body : String) : Prop :=
  (∃ role sources, .text (some reference) role body sources ∈ document.blocks ∧
    selector = .messageText 0) ∨
  ∃ block ∈ document.blocks, ∃ field ∈ block.fields, field.editable = true ∧
    field.name = (reference, selector) ∧ field.text = body

/-- A unit that may be removed under a name, with its version: a block as a whole, or the
visible text of a selector. -/
inductive RemovableUnit (digests : Digests Reference) (document : ContextDocument Reference)
    (reference : Reference) : Option ContextTextSelector → String → Prop where
  | text {role : ContextRole} {body : String} {sources : List Reference} :
    .text (some reference) role body sources ∈ document.blocks →
      RemovableUnit digests document reference none (digests.text body)
  | exchange {preview : String} {texts : List (ContextVisibleText Reference)} :
    .native reference .completedExchange preview false texts ∈ document.blocks →
      RemovableUnit digests document reference none (digests.unit reference
        (texts.map fun field => (field.reference, field.selector, field.text)))
  | field {block : ContextBlock Reference} {field : ContextVisibleText Reference} :
    block ∈ document.blocks → field ∈ block.fields → field.removable = true →
      field.reference = reference →
      RemovableUnit digests document reference (some field.selector) (digests.text field.text)

/-- The one unit that may be removed under a name has the version. -/
def OneUnit (digests : Digests Reference) (document : ContextDocument Reference)
    (reference : Reference) (version : String) : Prop :=
  ∃ place, RemovableUnit digests document reference place version ∧
    ∀ other digest, RemovableUnit digests document reference other digest → other = place

/-! What a batch asks for. -/

def textTarget : ContextChange Reference → Option (Reference × ContextTextSelector)
  | .replaceContextText reference selector _ _ => some (reference, selector)
  | _ => none

def unitTarget : ContextChange Reference → Option Reference
  | .removeContextUnit reference _ => some reference
  | _ => none

def noteOf : ContextChange Reference → Option (ContextBlock Reference)
  | .appendContextNote text sources => some (noteBlock text sources)
  | _ => none

def textTargets (changes : List (ContextChange Reference)) : List (Reference × ContextTextSelector) :=
  changes.filterMap textTarget

def unitTargets (changes : List (ContextChange Reference)) : List Reference :=
  changes.filterMap unitTarget

def notes (changes : List (ContextChange Reference)) : List (ContextBlock Reference) :=
  changes.filterMap noteOf

theorem mem_textTargets {changes : List (ContextChange Reference)} {reference : Reference}
    {selector : ContextTextSelector} : (reference, selector) ∈ textTargets changes ↔
      ∃ expected text, .replaceContextText reference selector expected text ∈ changes := by
  rw [textTargets, List.mem_filterMap]
  constructor
  · intro ⟨change, member, target⟩
    cases change <;> simp [textTarget] at target
    obtain ⟨same, equal⟩ := target
    subst same equal
    exact ⟨_, _, member⟩
  · intro ⟨expected, text, member⟩
    exact ⟨_, member, rfl⟩

variable [DecidableEq Reference]

/-- The batch fits the document: every text edited is editable and every unit removed is the
one removable unit of its name, each at its expected version. -/
structure PatchFits (digests : Digests Reference) (document : ContextDocument Reference)
    (changes : List (ContextChange Reference)) : Prop where
  texts : ∀ reference selector expected text,
    .replaceContextText reference selector expected text ∈ changes →
      ∃ body, EditableText document reference selector body ∧ digests.text body = expected
  units : ∀ reference expected, .removeContextUnit reference expected ∈ changes →
    OneUnit digests document reference expected
  distinctTexts : (textTargets changes).Nodup
  distinctUnits : (unitTargets changes).Nodup
  outside : ∀ target ∈ textTargets changes, target.1 ∉ unitTargets changes ∧
    ∀ block ∈ document.blocks, ∀ field ∈ block.fields, field.reference = target.1 →
      ∀ reference ∈ unitTargets changes, block.reference? ≠ some reference
  members : ∀ block ∈ document.blocks, ∀ reference ∈ unitTargets changes,
    block.reference? = some reference → ∀ field ∈ block.fields, field.reference ≠ reference →
      field.reference ∉ unitTargets changes
  sources : ∀ text sources, .appendContextNote text sources ∈ changes →
    ∀ source ∈ sources, contextHasReference document source = true

/-! The changes at once. -/

/-- The text a batch gives to a name. -/
def editedText (changes : List (ContextChange Reference)) (name : Reference × ContextTextSelector) :
    Option String :=
  changes.findSome? fun change =>
    match change with
    | .replaceContextText reference selector _ text =>
      if (reference, selector) = name then some text else none
    | _ => none

def editedField (changes : List (ContextChange Reference)) (field : ContextVisibleText Reference) :
    ContextVisibleText Reference :=
  { field with text := (editedText changes field.name).getD field.text }

/-- What a batch leaves of a block. -/
def patchedBlock (changes : List (ContextChange Reference)) :
    ContextBlock Reference → Option (ContextBlock Reference)
  | .text none role body sources => some (.text none role body sources)
  | .text (some own) role body sources =>
    if own ∈ unitTargets changes then none
    else some (.text (some own) role
      ((editedText changes (own, .messageText 0)).getD body) sources)
  | .native own kind preview isProtected texts =>
    if own ∈ unitTargets changes then none
    else some (.native own kind preview isProtected
      ((texts.filter (·.reference ∉ unitTargets changes)).map (editedField changes)))

/-- The blocks that stay, each with its own edits, and the notes after them. -/
def patchedDocument (document : ContextDocument Reference)
    (changes : List (ContextChange Reference)) : ContextDocument Reference where
  blocks := document.blocks.filterMap (patchedBlock changes) ++ notes changes

/-! Versions under well-formed names. -/

section

variable {digests : Digests Reference} {document : ContextDocument Reference}

def ContextTextVersion.name (version : ContextTextVersion Reference) :
    Reference × ContextTextSelector :=
  (version.reference, version.selector)

omit [DecidableEq Reference] in
theorem mem_textVersions {version : ContextTextVersion Reference} :
    version ∈ (inspectContext digests document).textVersions ↔
      ∃ body, EditableText document version.reference version.selector body ∧
        version.digest = digests.text body := by
  simp only [inspectContext, List.mem_flatMap]
  constructor
  · intro ⟨block, member, here⟩
    cases block with
    | text reference role body sources =>
      cases reference with
      | none => cases here
      | some reference =>
        rw [textVersionsOf, List.mem_singleton] at here
        subst here
        exact ⟨body, .inl ⟨role, sources, member, rfl⟩, rfl⟩
    | native own kind preview isProtected texts =>
      obtain ⟨field, kept, same⟩ := List.mem_map.mp here
      obtain ⟨inside, editable⟩ := List.mem_filter.mp kept
      subst same
      exact ⟨field.text, .inr ⟨_, member, field, inside, editable, rfl, rfl⟩, rfl⟩
  · intro ⟨body, editable, digest⟩
    obtain ⟨reference, selector, shown⟩ := version
    rcases editable with ⟨role, sources, member, first⟩ | ⟨block, member, field, inside, may, name, text⟩
    · simp only at first digest
      exact ⟨_, member, by simp [textVersionsOf, first, digest]⟩
    · cases block with
      | text reference role body sources => cases inside
      | native own kind preview isProtected texts =>
        refine ⟨_, member, List.mem_map.mpr ⟨field, List.mem_filter.mpr ⟨inside, may⟩, ?_⟩⟩
        simp only [ContextVisibleText.name, Prod.mk.injEq] at name
        simpa [name, text] using digest.symm

omit [DecidableEq Reference] in
theorem textVersionsOf_names (block : ContextBlock Reference) :
    ∀ version ∈ textVersionsOf digests block,
      (block.fields = [] ∧ block.reference? = some version.reference) ∨
        ∃ field ∈ block.fields, field.name = version.name := by
  intro version member
  cases block with
  | text reference role body sources =>
    cases reference with
    | none => cases member
    | some reference =>
      rw [textVersionsOf, List.mem_singleton] at member
      exact .inl ⟨rfl, by rw [member]; rfl⟩
  | native own kind preview isProtected texts =>
    obtain ⟨field, kept, same⟩ := List.mem_map.mp member
    exact .inr ⟨field, List.mem_of_mem_filter kept, by rw [← same]; rfl⟩

omit [DecidableEq Reference] in
theorem textVersionsOf_nodup {block : ContextBlock Reference}
    (distinct : (block.fields.map ContextVisibleText.name).Nodup) :
    ((textVersionsOf digests block).map ContextTextVersion.name).Nodup := by
  cases block with
  | text reference role body sources => cases reference <;> simp [textVersionsOf]
  | native own kind preview isProtected texts =>
    rw [textVersionsOf, List.map_map]
    exact (List.filter_sublist.map ContextVisibleText.name).nodup distinct

omit [DecidableEq Reference] in
/-- Under well-formed names no two editable texts share a name. -/
theorem WellNamed.textVersions (named : WellNamed document) :
    ((inspectContext digests document).textVersions.map ContextTextVersion.name).Nodup := by
  have fields := named.fields
  rw [List.map_flatMap, List.nodup_flatMap] at fields
  obtain ⟨inside, apart⟩ := fields
  have blocks := List.pairwise_filterMap.mp named.blocks
  rw [inspectContext, List.map_flatMap, List.nodup_flatMap]
  refine ⟨fun block member => textVersionsOf_nodup (inside block member), ?_⟩
  refine ((apart.and blocks).imp_of_mem ?_)
  intro left right first second both name inLeft inRight
  obtain ⟨one, here, sameOne⟩ := List.mem_map.mp inLeft
  obtain ⟨two, there, sameTwo⟩ := List.mem_map.mp inRight
  have equal : one.name = two.name := sameOne.trans sameTwo.symm
  have shared : one.reference = two.reference := congrArg Prod.fst equal
  rcases textVersionsOf_names left one here with ⟨plain, named₁⟩ | ⟨field, member, named₁⟩
  · rcases textVersionsOf_names right two there with ⟨_, named₂⟩ | ⟨other, member, named₂⟩
    · exact both.2 _ named₁ _ named₂ shared
    · have own : left.reference? = some other.reference := by
        rw [named₁, shared]
        exact congrArg some (congrArg Prod.fst named₂).symm
      have same := named.own right second other member left first own
      rw [← same, plain] at member
      cases member
  · rcases textVersionsOf_names right two there with ⟨plain, named₂⟩ | ⟨other, among, named₂⟩
    · have own : right.reference? = some field.reference := by
        rw [named₂, ← shared]
        exact congrArg some (congrArg Prod.fst named₁).symm
      have same := named.own left first field member right second own
      rw [← same, plain] at member
      cases member
    · exact both.1 (List.mem_map_of_mem member)
        (List.mem_map.mpr ⟨other, among, named₂.trans (equal.symm.trans named₁.symm)⟩)

/-- Of a list with distinct names at most one element has a given name. -/
theorem filter_name_eq {Element Name : Type} [DecidableEq Name] {name : Element → Name}
    {elements : List Element} (distinct : (elements.map name).Nodup) {wanted : Name}
    {element : Element} :
    elements.filter (name · = wanted) = [element] ↔ element ∈ elements ∧ name element = wanted := by
  constructor
  · intro found
    have member : element ∈ elements.filter (name · = wanted) := by simp [found]
    simpa using member
  · intro ⟨member, same⟩
    induction elements with
    | nil => cases member
    | cons first rest ih =>
      obtain ⟨fresh, tail⟩ := List.nodup_cons.mp distinct
      rcases List.mem_cons.mp member with here | member
      · subst here
        rw [List.filter_cons_of_pos (by simpa using same), List.filter_eq_nil_iff.mpr]
        intro other inside
        simp only [decide_eq_true_eq]
        intro equal
        exact fresh (same ▸ equal ▸ List.mem_map_of_mem inside)
      · have different : name first ≠ wanted := by
          intro equal
          exact fresh (equal ▸ same ▸ List.mem_map_of_mem member)
        rw [List.filter_cons_of_neg (by simpa using different)]
        exact ih tail member

variable {reference : Reference} {expected : String}

theorem textMatches_eq (named : WellNamed document) {selector : ContextTextSelector} :
    textMatches digests document reference selector = [expected] ↔
      ∃ body, EditableText document reference selector body ∧ digests.text body = expected := by
  have names : textMatches digests document reference selector =
      ((inspectContext digests document).textVersions.filter
        (ContextTextVersion.name · = (reference, selector))).map (·.digest) := by
    simp [textMatches, ContextTextVersion.name, Bool.decide_and]
  rw [names, List.map_eq_singleton_iff]
  constructor
  · intro ⟨version, found, same⟩
    obtain ⟨member, name⟩ := (filter_name_eq named.textVersions).mp found
    obtain ⟨body, editable, digest⟩ := mem_textVersions.mp member
    obtain ⟨first, second⟩ := Prod.mk.inj name
    subst first second
    exact ⟨body, editable, digest.symm.trans same⟩
  · intro ⟨body, editable, digest⟩
    refine ⟨⟨reference, selector, expected⟩, ?_, rfl⟩
    exact (filter_name_eq named.textVersions).mpr
      ⟨mem_textVersions.mpr ⟨body, editable, digest.symm⟩, rfl⟩

/-! Units that may be removed, each at its place. -/

def placedUnits (digests : Digests Reference) :
    ContextBlock Reference → List (Option ContextTextSelector × ContextUnitVersion Reference)
  | .text (some reference) _ text _ => [(none, ⟨reference, digests.text text⟩)]
  | .text none _ _ _ => []
  | .native reference kind _ isProtected texts =>
    (if !isProtected && decide (kind = .completedExchange) then
      [(none, ⟨reference, digests.unit reference
        (texts.map fun field => (field.reference, field.selector, field.text))⟩)]
    else []) ++
    (texts.filter (·.removable)).map fun field =>
      (some field.selector, ⟨field.reference, digests.text field.text⟩)

def placeOf (unit : Option ContextTextSelector × ContextUnitVersion Reference) :
    Reference × Option ContextTextSelector :=
  (unit.2.reference, unit.1)

omit [DecidableEq Reference] in
theorem unitVersionsOf_eq :
    unitVersionsOf digests = fun block => (placedUnits digests block).map Prod.snd := by
  funext block
  cases block with
  | text own role body sources => cases own <;> rfl
  | native own kind preview isProtected texts =>
    rw [unitVersionsOf, placedUnits, List.map_append, List.map_map]
    congr 1
    split <;> rfl

omit [DecidableEq Reference] in
theorem mem_placedUnits {place : Option ContextTextSelector} {digest : String} :
    (place, ⟨reference, digest⟩) ∈ document.blocks.flatMap (placedUnits digests) ↔
      RemovableUnit digests document reference place digest := by
  rw [List.mem_flatMap]
  constructor
  · intro ⟨block, member, here⟩
    cases block with
    | text own role body sources =>
      cases own with
      | none => cases here
      | some own =>
        cases List.mem_singleton.mp here
        exact .text member
    | native own kind preview isProtected texts =>
      rcases List.mem_append.mp here with whole | part
      · split at whole
        case isTrue may =>
          cases List.mem_singleton.mp whole
          simp only [Bool.and_eq_true, Bool.not_eq_true', decide_eq_true_eq] at may
          exact .exchange (may.1 ▸ may.2 ▸ member)
        case isFalse => cases whole
      · obtain ⟨field, kept, same⟩ := List.mem_map.mp part
        cases same
        exact .field member (List.mem_of_mem_filter kept) (List.mem_filter.mp kept).2 rfl
  · intro unit
    cases unit with
    | text member => exact ⟨_, member, List.mem_singleton_self _⟩
    | exchange member => exact ⟨_, member, List.mem_append_left _ (List.mem_singleton_self _)⟩
    | @field block field member inside may name =>
      cases block with
      | text own role body sources => cases inside
      | native own kind preview isProtected texts =>
        refine ⟨_, member, List.mem_append_right _ (List.mem_map.mpr ⟨field, ?_, ?_⟩)⟩
        · exact List.mem_filter.mpr ⟨inside, may⟩
        · rw [← name]

omit [DecidableEq Reference] in
theorem placedUnits_places (block : ContextBlock Reference) :
    ((placedUnits digests block).map placeOf).Sublist (block.reference?.toList.map (·, none) ++
      block.fields.map fun field => (field.reference, some field.selector)) := by
  cases block with
  | text own role body sources => cases own <;> simp [placedUnits, placeOf, ContextBlock.reference?]
  | native own kind preview isProtected texts =>
    rw [placedUnits, List.map_append, List.map_map]
    refine List.Sublist.append ?_ (List.filter_sublist.map _)
    split
    · exact List.Sublist.refl _
    · exact List.nil_sublist _

omit [DecidableEq Reference] in
/-- Under well-formed names no two units share a place. -/
theorem WellNamed.placedUnits (named : WellNamed document) :
    ((document.blocks.flatMap (placedUnits digests)).map placeOf).Nodup := by
  have blocks := List.pairwise_filterMap.mp named.blocks
  have fields := named.fields
  rw [List.map_flatMap, List.nodup_flatMap] at fields ⊢
  have named₂ {name : Reference × Option ContextTextSelector} {block : ContextBlock Reference}
      (place : name ∈ (Store.placedUnits digests block).map placeOf) :
      (block.reference? = some name.1 ∧ name.2 = none) ∨
        ∃ field ∈ block.fields, (field.reference, some field.selector) = name := by
    simpa [eq_comm, Prod.ext_iff] using (placedUnits_places block).subset place
  refine ⟨fun block member => (placedUnits_places block).nodup (.append ?_ ?_ ?_), ?_⟩
  · cases block.reference? <;> simp
  · have apart : Function.Injective (Prod.map id some : Reference × ContextTextSelector → _) :=
      Function.injective_id.prodMap (Option.some_injective _)
    have moved := (fields.1 block member).map apart
    rwa [List.map_map] at moved
  · intro name whole part
    obtain ⟨own, -, rfl⟩ := List.mem_map.mp whole
    simp at part
  · refine (fields.2.and blocks).imp fun {left right} both name first second => ?_
    rcases named₂ first with ⟨own, whole⟩ | ⟨field, inside, rfl⟩
    · rcases named₂ second with ⟨other, -⟩ | ⟨field, -, rfl⟩
      · exact both.2 _ own _ other rfl
      · cases whole
    · rcases named₂ second with ⟨-, whole⟩ | ⟨other, among, same⟩
      · cases whole
      · refine both.1 (List.mem_map_of_mem inside) (List.mem_map.mpr ⟨other, among, ?_⟩)
        simpa [ContextVisibleText.name] using same

theorem unitMatches_eq (named : WellNamed document) :
    unitMatches digests document reference = [expected] ↔
      OneUnit digests document reference expected := by
  have placed : unitMatches digests document reference =
      ((document.blocks.flatMap (placedUnits digests)).filter (·.2.reference = reference)).map
        (·.2.digest) := by
    rw [unitMatches, inspectContext, unitVersionsOf_eq, ← List.map_flatMap, List.filter_map,
      List.map_map]
    rfl
  rw [placed, List.map_eq_singleton_iff]
  constructor
  · rintro ⟨⟨place, own, digest⟩, found, rfl⟩
    have only (unit : Option ContextTextSelector × ContextUnitVersion Reference) :
        unit ∈ document.blocks.flatMap (placedUnits digests) ∧ unit.2.reference = reference ↔
          unit = (place, ⟨own, digest⟩) := by
      rw [← @List.mem_singleton _ unit, ← found, List.mem_filter, decide_eq_true_eq]
    obtain ⟨member, rfl⟩ := (only _).mpr rfl
    refine ⟨place, mem_placedUnits.mp member, fun other version unit => ?_⟩
    exact congrArg Prod.fst ((only (other, ⟨_, version⟩)).mp ⟨mem_placedUnits.mpr unit, rfl⟩)
  · intro ⟨place, unit, only⟩
    refine ⟨(place, ⟨reference, expected⟩), ?_, rfl⟩
    rw [← (filter_name_eq named.placedUnits).mpr ⟨mem_placedUnits.mpr unit, rfl⟩]
    apply List.filter_congr
    intro ⟨other, own, version⟩ member
    simp only [placeOf, Prod.mk.injEq, decide_eq_decide, iff_self_and]
    rintro rfl
    exact only other version (mem_placedUnits.mp member)

/-! A plan without problems. -/

omit [DecidableEq Reference] in
/-- Every issued digest has the form of one. -/
structure Digests.Issued (digests : Digests Reference) : Prop where
  text : ∀ body, isDigest (digests.text body) = true
  unit : ∀ reference fields, isDigest (digests.unit reference fields) = true

theorem targetProblems_eq_nil {matching : List String} :
    targetProblems document reference matching expected = [] ↔
      isDigest expected = true ∧ matching = [expected] := by
  cases form : isDigest expected with
  | false => simp [targetProblems, form]
  | true =>
    rcases matching with _ | ⟨actual, _ | ⟨next, rest⟩⟩
    · by_cases known : contextHasReference document reference = true <;>
        simp [targetProblems, form, known]
    · by_cases same : actual = expected <;> simp [targetProblems, form, same]
    · simp [targetProblems, form]

/-- What the plan asks of one change. -/
def ChangeFits (digests : Digests Reference) (document : ContextDocument Reference) :
    ContextChange Reference → Prop
  | .replaceContextText reference selector expected _ =>
    isDigest expected = true ∧ textMatches digests document reference selector = [expected]
  | .removeContextUnit reference expected =>
    isDigest expected = true ∧ unitMatches digests document reference = [expected]
  | .appendRetainedExchange _ => True
  | .appendContextNote _ sources => ∀ source ∈ sources, contextHasReference document source = true

theorem planChange_texts (plan : PatchPlan Reference) (change : ContextChange Reference)
    (target : Reference × ContextTextSelector) :
    target ∈ (planChange digests document plan change).texts ↔
      target ∈ plan.texts ∨ textTarget change = some target := by
  cases change <;> simp [planChange, textTarget, List.mem_insert_iff, or_comm, eq_comm]

theorem planChange_removals (plan : PatchPlan Reference) (change : ContextChange Reference)
    (reference : Reference) :
    reference ∈ (planChange digests document plan change).removals ↔
      reference ∈ plan.removals ∨ unitTarget change = some reference := by
  cases change <;> simp [planChange, unitTarget, List.mem_insert_iff, or_comm, eq_comm]

theorem planChange_problems (plan : PatchPlan Reference) (change : ContextChange Reference) :
    (planChange digests document plan change).problems = [] ↔
      plan.problems = [] ∧ ChangeFits digests document change ∧
        (∀ target, textTarget change = some target → target ∉ plan.texts) ∧
        ∀ reference, unitTarget change = some reference → reference ∉ plan.removals := by
  cases change with
  | replaceContextText reference selector expected text =>
    by_cases repeated : (reference, selector) ∈ plan.texts <;>
      simp [planChange, textTarget, unitTarget, ChangeFits, targetProblems_eq_nil, repeated]
  | removeContextUnit reference expected =>
    by_cases repeated : reference ∈ plan.removals <;>
      simp [planChange, textTarget, unitTarget, ChangeFits, targetProblems_eq_nil, repeated]
  | appendContextNote text sources =>
    simp [planChange, textTarget, unitTarget, ChangeFits, List.filter_eq_nil_iff]
  | appendRetainedExchange source => simp [planChange, textTarget, unitTarget, ChangeFits]

theorem plan_texts (plan : PatchPlan Reference) (changes : List (ContextChange Reference))
    (target : Reference × ContextTextSelector) :
    target ∈ (changes.foldl (planChange digests document) plan).texts ↔
      target ∈ plan.texts ∨ target ∈ textTargets changes := by
  induction changes generalizing plan with
  | nil => simp [textTargets]
  | cons change rest ih =>
    rw [List.foldl_cons, ih, planChange_texts, textTargets, textTargets, List.filterMap_cons]
    cases here : textTarget change <;> simp [eq_comm, or_assoc]

theorem plan_removals (plan : PatchPlan Reference) (changes : List (ContextChange Reference))
    (reference : Reference) :
    reference ∈ (changes.foldl (planChange digests document) plan).removals ↔
      reference ∈ plan.removals ∨ reference ∈ unitTargets changes := by
  induction changes generalizing plan with
  | nil => simp [unitTargets]
  | cons change rest ih =>
    rw [List.foldl_cons, ih, planChange_removals, unitTargets, unitTargets, List.filterMap_cons]
    cases here : unitTarget change <;> simp [eq_comm, or_assoc]

omit [DecidableEq Reference] in
/-- Distinct targets of a batch, none of which was met before. -/
theorem nodup_filterMap_cons {Element Target : Type} (target : Element → Option Target)
    (first : Element) (rest : List Element) :
    ((first :: rest).filterMap target).Nodup ↔
      (∀ found, target first = some found → found ∉ rest.filterMap target) ∧
        (rest.filterMap target).Nodup := by
  rw [List.filterMap_cons]
  cases target first <;> simp

theorem plan_problems (plan : PatchPlan Reference) (changes : List (ContextChange Reference)) :
    (changes.foldl (planChange digests document) plan).problems = [] ↔
      plan.problems = [] ∧ (∀ change ∈ changes, ChangeFits digests document change) ∧
        ((textTargets changes).Nodup ∧ ∀ target ∈ textTargets changes, target ∉ plan.texts) ∧
        (unitTargets changes).Nodup ∧
          ∀ reference ∈ unitTargets changes, reference ∉ plan.removals := by
  induction changes generalizing plan with
  | nil => simp [textTargets, unitTargets]
  | cons change rest ih =>
    rw [List.foldl_cons, ih, planChange_problems]
    simp only [planChange_texts, planChange_removals, textTargets, unitTargets,
      nodup_filterMap_cons, List.forall_mem_cons, not_or]
    have texts : (∀ target ∈ (change :: rest).filterMap textTarget, target ∉ plan.texts) ↔
        (∀ target, textTarget change = some target → target ∉ plan.texts) ∧
          ∀ target ∈ rest.filterMap textTarget, target ∉ plan.texts := by
      rw [List.filterMap_cons]
      cases textTarget change <;> simp
    have units : (∀ reference ∈ (change :: rest).filterMap unitTarget, reference ∉ plan.removals) ↔
        (∀ reference, unitTarget change = some reference → reference ∉ plan.removals) ∧
          ∀ reference ∈ rest.filterMap unitTarget, reference ∉ plan.removals := by
      rw [List.filterMap_cons]
      cases unitTarget change <;> simp
    have fresh {Target : Type} (found : Option Target) (others : List Target) (met : Target → Prop) :
        (∀ target ∈ others, ¬ met target ∧ ¬ found = some target) ↔
          (∀ target ∈ others, ¬ met target) ∧ ∀ target, found = some target → target ∉ others := by
      constructor
      · intro apart
        exact ⟨fun target member => (apart target member).1,
          fun target same member => (apart target member).2 same⟩
      · intro ⟨unmet, absent⟩ target member
        exact ⟨unmet target member, fun same => absent target same member⟩
    rw [texts, units, fresh (textTarget change), fresh (unitTarget change)]
    tauto

theorem removesMember_eq_false {removals : List Reference} {block : ContextBlock Reference} :
    removesMember removals reference block = false ↔
      ∀ field ∈ block.fields, field.reference = reference →
        ∀ removed ∈ removals, block.reference? ≠ some removed := by
  cases block with
  | text own role body sources => simp [removesMember, ContextBlock.fields]
  | native own kind preview isProtected texts =>
    simp only [removesMember, ContextBlock.fields, ContextBlock.reference?, Bool.and_eq_false_iff,
      decide_eq_false_iff_not, List.any_eq_false, decide_eq_true_eq, ne_eq, Option.some.injEq]
    constructor
    · intro apart field member same removed among equal
      rcases apart with absent | none
      · exact absent (equal ▸ among)
      · exact none field member same
    · intro apart
      by_cases among : own ∈ removals
      · exact .inr fun field member same => apart field member same own among rfl
      · exact .inl among

theorem unitProblem_eq_none {removals : List Reference} {block : ContextBlock Reference} :
    unitProblem removals block = none ↔
      ∀ reference ∈ removals, block.reference? = some reference →
        ∀ field ∈ block.fields, field.reference ≠ reference → field.reference ∉ removals := by
  cases block with
  | text own role body sources => simp [unitProblem, ContextBlock.fields]
  | native own kind preview isProtected texts =>
    simp only [unitProblem, ContextBlock.fields, ContextBlock.reference?, Option.some.injEq]
    constructor
    · intro none reference among same field member different removed
      subst same
      rw [if_pos] at none
      · cases none
      · simp only [among, decide_true, Bool.true_and, List.any_eq_true, Bool.and_eq_true,
          decide_eq_true_eq]
        exact ⟨field, member, different, removed⟩
    · intro apart
      rw [if_neg]
      simp only [Bool.and_eq_true, decide_eq_true_eq, List.any_eq_true, not_and, not_exists]
      intro among field member different
      exact apart own among rfl field member different

omit [DecidableEq Reference] in
theorem Digests.Issued.oneUnit (issued : digests.Issued)
    (found : OneUnit digests document reference expected) :
    isDigest expected = true := by
  obtain ⟨place, unit, -⟩ := found
  cases unit with
  | text => exact issued.text _
  | exchange => exact issued.unit _ _
  | field => exact issued.text _

theorem changesFit_iff (named : WellNamed document) (issued : digests.Issued)
    {changes : List (ContextChange Reference)} :
    (∀ change ∈ changes, ChangeFits digests document change) ↔
      (∀ reference selector expected text,
        .replaceContextText reference selector expected text ∈ changes →
          ∃ body, EditableText document reference selector body ∧ digests.text body = expected) ∧
      (∀ reference expected, .removeContextUnit reference expected ∈ changes →
        OneUnit digests document reference expected) ∧
      ∀ text sources, .appendContextNote text sources ∈ changes →
        ∀ source ∈ sources, contextHasReference document source = true := by
  constructor
  · intro fits
    refine ⟨?_, ?_, ?_⟩
    · intro reference selector expected text member
      exact (textMatches_eq named).mp (fits _ member).2
    · intro reference expected member
      exact (unitMatches_eq named).mp (fits _ member).2
    · intro text sources member
      exact fits _ member
  · intro ⟨texts, units, sources⟩ change member
    cases change with
    | replaceContextText reference selector expected text =>
      obtain ⟨body, editable, digest⟩ := texts _ _ _ _ member
      exact ⟨digest ▸ issued.text body, (textMatches_eq named).mpr ⟨body, editable, digest⟩⟩
    | removeContextUnit reference expected =>
      have found := units _ _ member
      exact ⟨issued.oneUnit found, (unitMatches_eq named).mpr found⟩
    | appendContextNote text shown => exact sources _ _ member
    | appendRetainedExchange source => trivial

/-- The problems of a batch are none exactly when the batch fits. -/
theorem patchProblems_eq_nil (named : WellNamed document) (issued : digests.Issued)
    (patch : ContextPatch Reference) :
    patchProblems digests document patch = [] ↔ PatchFits digests document patch.changes := by
  have texts (target : Reference × ContextTextSelector) :
      target ∈ (patch.changes.foldl (planChange digests document) ⟨[], [], []⟩).texts ↔
        target ∈ textTargets patch.changes := by
    rw [plan_texts, or_iff_right List.not_mem_nil]
  have removals (reference : Reference) :
      reference ∈ (patch.changes.foldl (planChange digests document) ⟨[], [], []⟩).removals ↔
        reference ∈ unitTargets patch.changes := by
    rw [plan_removals, or_iff_right List.not_mem_nil]
  simp only [patchProblems, List.append_eq_nil_iff, plan_problems, changesFit_iff named issued,
    editProblems, List.map_eq_nil_iff, List.filter_eq_nil_iff, List.filterMap_eq_nil_iff,
    unitProblem_eq_none, Bool.or_eq_true, decide_eq_true_eq, not_or, List.any_eq_true, not_exists,
    not_and, Bool.not_eq_true, removesMember_eq_false, texts, removals, List.not_mem_nil,
    not_false_eq_true, implies_true, and_true, true_and]
  constructor
  · intro ⟨⟨⟨⟨edits, units, sources⟩, distinct, alone⟩, outside⟩, members⟩
    exact ⟨edits, units, distinct, alone, outside, members, sources⟩
  · intro fits
    exact ⟨⟨⟨⟨fits.texts, fits.units, fits.sources⟩, fits.distinctTexts, fits.distinctUnits⟩,
      fits.outside⟩, fits.members⟩

end

end ExomonadHarness.Store
