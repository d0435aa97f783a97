import ExomonadHarness.Store.PatchSpec

/-! The effect of an accepted batch: the changes made one after another are the changes made
at once, so their order does not matter. -/

namespace ExomonadHarness.Store

open Json Checked

variable {Reference : Type} [DecidableEq Reference]

/-! One change, block by block. -/

/-- What one change leaves of a block. -/
def changedBlock (change : ContextChange Reference) (block : ContextBlock Reference) :
    Option (ContextBlock Reference) :=
  match change with
  | .replaceContextText reference selector _ text => some (replaceText reference selector text block)
  | .removeContextUnit reference _ =>
    if isUnit reference block then none else some (removeField reference block)
  | .appendRetainedExchange _ | .appendContextNote _ _ => some block

theorem applyChange_eq (blocks : List (ContextBlock Reference)) (change : ContextChange Reference) :
    applyChange blocks change =
      blocks.filterMap (changedBlock change) ++ (noteOf change).toList := by
  cases change with
  | replaceContextText reference selector expected text =>
    have each : changedBlock (.replaceContextText reference selector expected text) =
        some ∘ replaceText reference selector text := rfl
    simp [applyChange, each, noteOf]
  | removeContextUnit reference expected =>
    simp only [applyChange, noteOf, Option.toList_none, List.append_nil]
    induction blocks with
    | nil => rfl
    | cons block rest ih =>
      cases unit : isUnit reference block <;> simp [changedBlock, unit, ih]
  | appendContextNote text sources =>
    have each : changedBlock (.appendContextNote text sources) = some := rfl
    simp [applyChange, each, noteOf]
  | appendRetainedExchange source =>
    have each : changedBlock (.appendRetainedExchange source : ContextChange Reference) = some := rfl
    simp [applyChange, each, noteOf]

/-- A note has no name, so no change reaches it. -/
theorem changedBlock_note (change : ContextChange Reference) (text : String)
    (sources : List Reference) :
    changedBlock change (noteBlock text sources) = some (noteBlock text sources) := by
  cases change <;> simp [changedBlock, noteBlock, replaceText, isUnit, removeField]

/-- The changes one after another on one block. -/
def changedBlocks : List (ContextChange Reference) → ContextBlock Reference →
    Option (ContextBlock Reference)
  | [], block => some block
  | change :: rest, block => (changedBlock change block).bind (changedBlocks rest)

theorem changedBlocks_note (changes : List (ContextChange Reference)) (text : String)
    (sources : List Reference) :
    changedBlocks changes (noteBlock text sources) = some (noteBlock text sources) := by
  induction changes with
  | nil => rfl
  | cons change rest ih => rw [changedBlocks, changedBlock_note, Option.bind_some, ih]

theorem foldl_applyChange (changes : List (ContextChange Reference))
    (blocks : List (ContextBlock Reference)) :
    changes.foldl applyChange blocks =
      blocks.filterMap (changedBlocks changes) ++ notes changes := by
  induction changes generalizing blocks with
  | nil => simp [changedBlocks, notes]
  | cons change rest ih =>
    have note : (noteOf change).toList.filterMap (changedBlocks rest) = (noteOf change).toList := by
      cases change <;> simp [noteOf, changedBlocks_note]
    rw [List.foldl_cons, ih, applyChange_eq, List.filterMap_append, note, List.filterMap_filterMap,
      List.append_assoc]
    congr 1
    cases here : noteOf change <;> simp [notes, here]

/-! The changes at once. -/

theorem editedText_replace (reference : Reference) (selector : ContextTextSelector)
    (expected text : String) (rest : List (ContextChange Reference))
    (name : Reference × ContextTextSelector) :
    editedText (.replaceContextText reference selector expected text :: rest) name =
      if (reference, selector) = name then some text else editedText rest name := by
  by_cases same : (reference, selector) = name <;> simp [editedText, same]

omit [DecidableEq Reference] in
@[simp] theorem unitTargets_remove (reference : Reference) (expected : String)
    (rest : List (ContextChange Reference)) :
    unitTargets (.removeContextUnit reference expected :: rest) = reference :: unitTargets rest := rfl

omit [DecidableEq Reference] in
@[simp] theorem unitTargets_replace (reference : Reference) (selector : ContextTextSelector)
    (expected text : String) (rest : List (ContextChange Reference)) :
    unitTargets (.replaceContextText reference selector expected text :: rest) = unitTargets rest := rfl

omit [DecidableEq Reference] in
@[simp] theorem unitTargets_note (text : String) (sources : List Reference)
    (rest : List (ContextChange Reference)) :
    unitTargets (.appendContextNote text sources :: rest) = unitTargets rest := rfl

omit [DecidableEq Reference] in
@[simp] theorem unitTargets_retained (source : String) (rest : List (ContextChange Reference)) :
    unitTargets (.appendRetainedExchange source :: rest) = unitTargets rest := rfl

@[simp] theorem editedText_remove (reference : Reference) (expected : String)
    (rest : List (ContextChange Reference)) (name : Reference × ContextTextSelector) :
    editedText (.removeContextUnit reference expected :: rest) name = editedText rest name := rfl

@[simp] theorem editedText_note (text : String) (sources : List Reference)
    (rest : List (ContextChange Reference)) (name : Reference × ContextTextSelector) :
    editedText (.appendContextNote text sources :: rest) name = editedText rest name := rfl

@[simp] theorem editedText_retained (source : String) (rest : List (ContextChange Reference))
    (name : Reference × ContextTextSelector) :
    editedText (.appendRetainedExchange source :: rest) name = editedText rest name := rfl

theorem editedText_eq_none {changes : List (ContextChange Reference)}
    {name : Reference × ContextTextSelector} (absent : name ∉ textTargets changes) :
    editedText changes name = none := by
  induction changes with
  | nil => rfl
  | cons change rest ih =>
    cases change with
    | replaceContextText reference selector expected text =>
      obtain ⟨here, later⟩ := not_or.mp (mt List.mem_cons.mpr absent)
      rw [editedText_replace, if_neg (Ne.symm here)]
      exact ih later
    | removeContextUnit reference expected => exact ih absent
    | appendContextNote text sources => exact ih absent
    | appendRetainedExchange source => exact ih absent

/-- With distinct targets the text of a name is the one its change gives it. -/
theorem editedText_eq_some {changes : List (ContextChange Reference)}
    (distinct : (textTargets changes).Nodup) {reference : Reference}
    {selector : ContextTextSelector} {text : String} :
    editedText changes (reference, selector) = some text ↔
      ∃ expected, .replaceContextText reference selector expected text ∈ changes := by
  induction changes with
  | nil => simp [editedText]
  | cons change rest ih =>
    obtain ⟨fresh, tail⟩ := (nodup_filterMap_cons textTarget change rest).mp distinct
    cases change with
    | replaceContextText other field expected body =>
      rw [editedText_replace]
      by_cases same : (other, field) = (reference, selector)
      · obtain ⟨first, second⟩ := Prod.mk.inj same
        subst first second
        simp only [if_true, Option.some.injEq, List.mem_cons,
          ContextChange.replaceContextText.injEq, true_and]
        constructor
        · intro equal
          exact ⟨expected, .inl ⟨rfl, equal.symm⟩⟩
        · intro ⟨found, here⟩
          rcases here with ⟨_, equal⟩ | later
          · exact equal.symm
          · exact absurd (mem_textTargets.mpr ⟨found, text, later⟩) (fresh _ rfl)
      · rw [if_neg same, ih tail]
        simp only [Prod.mk.injEq] at same
        simp only [List.mem_cons, ContextChange.replaceContextText.injEq]
        refine exists_congr fun found => ⟨.inr, fun here => here.resolve_left ?_⟩
        intro ⟨first, second, _⟩
        exact same ⟨first.symm, second.symm⟩
    | removeContextUnit other expected => simp [ih tail]
    | appendContextNote note sources => simp [ih tail]
    | appendRetainedExchange source => simp [ih tail]

/-- An edit of a text block names its one body. -/
def PlainEdits (own : Reference) (changes : List (ContextChange Reference)) : Prop :=
  ∀ selector, (own, selector) ∈ textTargets changes → selector = .messageText 0

theorem changedBlocks_text {own : Reference} {role : ContextRole} {sources : List Reference}
    {changes : List (ContextChange Reference)} (distinct : (textTargets changes).Nodup)
    (plain : PlainEdits own changes) (body : String) :
    changedBlocks changes (.text (some own) role body sources) =
      patchedBlock changes (.text (some own) role body sources) := by
  induction changes generalizing body with
  | nil => simp [changedBlocks, patchedBlock, unitTargets, editedText]
  | cons change rest ih =>
    obtain ⟨fresh, tail⟩ := (nodup_filterMap_cons textTarget change rest).mp distinct
    have later : PlainEdits own rest := by
      intro selector member
      obtain ⟨expected, text, inside⟩ := mem_textTargets.mp member
      exact plain selector (mem_textTargets.mpr ⟨expected, text, List.mem_cons_of_mem _ inside⟩)
    cases change with
    | replaceContextText reference selector expected text =>
      rw [changedBlocks, changedBlock, Option.bind_some, replaceText, ih tail later]
      by_cases same : own = reference
      · subst same
        have first : selector = .messageText 0 :=
          plain selector (mem_textTargets.mpr ⟨expected, text, List.mem_cons_self⟩)
        subst first
        have unset := editedText_eq_none (fresh _ rfl)
        simp [patchedBlock, editedText_replace, unset]
      · simp [patchedBlock, editedText_replace, same, Ne.symm same]
    | removeContextUnit reference expected =>
      by_cases same : own = reference
      · simp [changedBlocks, changedBlock, isUnit, same, patchedBlock]
      · simp [changedBlocks, changedBlock, isUnit, removeField, same, ih tail later, patchedBlock]
    | appendContextNote note shown => exact ih tail later body
    | appendRetainedExchange source => exact ih tail later body

theorem changedBlocks_native {own : Reference} {kind : ContextNativeKind} {preview : String}
    {isProtected : Bool} {changes : List (ContextChange Reference)}
    (distinct : (textTargets changes).Nodup) (texts : List (ContextVisibleText Reference)) :
    changedBlocks changes (.native own kind preview isProtected texts) =
      patchedBlock changes (.native own kind preview isProtected texts) := by
  induction changes generalizing texts with
  | nil =>
    have same : editedField ([] : List (ContextChange Reference)) = id := rfl
    simp [changedBlocks, patchedBlock, unitTargets, same]
  | cons change rest ih =>
    obtain ⟨fresh, tail⟩ := (nodup_filterMap_cons textTarget change rest).mp distinct
    cases change with
    | replaceContextText reference selector expected text =>
      rw [changedBlocks, changedBlock, Option.bind_some, replaceText, ih tail]
      have kept : (texts.map fun field =>
            if field.reference = reference ∧ field.selector = selector then { field with text }
            else field).filter (·.reference ∉ unitTargets rest) =
          (texts.filter (·.reference ∉ unitTargets rest)).map fun field =>
            if field.reference = reference ∧ field.selector = selector then { field with text }
            else field := by
        rw [List.filter_map]
        congr 1
        apply List.filter_congr
        intro field _
        by_cases same : field.reference = reference ∧ field.selector = selector <;> simp [same]
      have unset := editedText_eq_none (fresh _ rfl)
      have whole : patchedBlock (.replaceContextText reference selector expected text :: rest)
            (.native own kind preview isProtected texts) =
          if own ∈ unitTargets rest then none
          else some (.native own kind preview isProtected
            ((texts.filter (·.reference ∉ unitTargets rest)).map
              (editedField (.replaceContextText reference selector expected text :: rest)))) := rfl
      rw [whole, patchedBlock, kept, List.map_map]
      by_cases removed : own ∈ unitTargets rest
      · rw [if_pos removed, if_pos removed]
      · rw [if_neg removed, if_neg removed]
        congr 2
        apply List.map_congr_left
        intro field _
        by_cases same : field.reference = reference ∧ field.selector = selector
        · obtain ⟨first, second⟩ := same
          subst first second
          simp [editedField, ContextVisibleText.name, editedText_replace, unset]
        · have different : (reference, selector) ≠ (field.reference, field.selector) := by
            intro equal
            exact same ⟨(Prod.mk.inj equal).1.symm, (Prod.mk.inj equal).2.symm⟩
          simp [editedField, ContextVisibleText.name, editedText_replace, same, different]
    | removeContextUnit reference expected =>
      have edits : editedField (.removeContextUnit reference expected :: rest) = editedField rest := rfl
      by_cases same : own = reference
      · simp [changedBlocks, changedBlock, isUnit, same, patchedBlock]
      · simp [changedBlocks, changedBlock, isUnit, removeField, same, ih tail, patchedBlock,
          List.filter_filter, edits, Bool.and_comm]
    | appendContextNote note shown => exact ih tail texts
    | appendRetainedExchange source => exact ih tail texts

theorem changedBlocks_unnamed (changes : List (ContextChange Reference)) (role : ContextRole)
    (body : String) (sources : List Reference) :
    changedBlocks changes (.text none role body sources) = some (.text none role body sources) := by
  induction changes with
  | nil => rfl
  | cons change rest ih =>
    cases change <;> simp [changedBlocks, changedBlock, replaceText, isUnit, removeField, ih]

section

variable {digests : Digests Reference} {document : ContextDocument Reference}
  {changes : List (ContextChange Reference)}

/-- A text block's name belongs to no field, so an accepted edit of it names its body. -/
theorem PatchFits.plain (named : WellNamed document) (fits : PatchFits digests document changes)
    {own : Reference} {role : ContextRole} {body : String} {sources : List Reference}
    (member : .text (some own) role body sources ∈ document.blocks) : PlainEdits own changes := by
  intro selector target
  obtain ⟨expected, text, change⟩ := mem_textTargets.mp target
  obtain ⟨shown, editable, _⟩ := fits.texts _ _ _ _ change
  rcases editable with ⟨_, _, _, first⟩ | ⟨block, inside, field, among, _, name, _⟩
  · exact first
  · have reference : field.reference = own := (Prod.mk.inj name).1
    have same := named.own block inside field among _ member (by rw [reference]; rfl)
    rw [← same] at among
    cases among

theorem PatchFits.effect (named : WellNamed document) (fits : PatchFits digests document changes) :
    changes.foldl applyChange document.blocks = (patchedDocument document changes).blocks := by
  rw [foldl_applyChange, patchedDocument]
  congr 1
  apply List.filterMap_congr
  intro block member
  cases block with
  | text own role body sources =>
    cases own with
    | none => exact changedBlocks_unnamed changes role body sources
    | some own => exact changedBlocks_text fits.distinctTexts (fits.plain named member) body
  | native own kind preview isProtected texts => exact changedBlocks_native fits.distinctTexts texts

theorem PatchFits.perm {others : List (ContextChange Reference)}
    (fits : PatchFits digests document changes) (shuffled : others.Perm changes) :
    PatchFits digests document others := by
  have units (reference : Reference) :
      reference ∈ unitTargets others ↔ reference ∈ unitTargets changes :=
    (shuffled.filterMap unitTarget).mem_iff
  have texts (target : Reference × ContextTextSelector) :
      target ∈ textTargets others ↔ target ∈ textTargets changes :=
    (shuffled.filterMap textTarget).mem_iff
  refine ⟨?_, ?_, ?_, ?_, ?_, ?_, ?_⟩
  · intro reference selector expected text member
    exact fits.texts _ _ _ _ (shuffled.mem_iff.mp member)
  · intro reference expected member
    exact fits.units _ _ (shuffled.mem_iff.mp member)
  · exact (shuffled.filterMap textTarget).nodup_iff.mpr fits.distinctTexts
  · exact (shuffled.filterMap unitTarget).nodup_iff.mpr fits.distinctUnits
  · intro target member
    simp only [units]
    exact fits.outside target ((texts target).mp member)
  · intro block member reference removed own field inside different
    rw [units] at removed ⊢
    exact fits.members block member reference removed own field inside different
  · intro text sources member
    exact fits.sources _ _ (shuffled.mem_iff.mp member)

/-- What a batch leaves depends on its targets and its notes only. -/
theorem patchedDocument_perm {others : List (ContextChange Reference)}
    (distinct : (textTargets changes).Nodup) (shuffled : others.Perm changes)
    (sameNotes : notes others = notes changes) :
    patchedDocument document others = patchedDocument document changes := by
  have units (reference : Reference) :
      reference ∈ unitTargets others ↔ reference ∈ unitTargets changes :=
    (shuffled.filterMap unitTarget).mem_iff
  have again : (textTargets others).Nodup := (shuffled.filterMap textTarget).nodup_iff.mpr distinct
  have edits : editedText others = editedText changes := by
    funext ⟨reference, selector⟩
    apply Option.ext
    intro text
    rw [editedText_eq_some again, editedText_eq_some distinct]
    exact exists_congr fun expected => shuffled.mem_iff
  have fields : editedField others = editedField changes := by
    funext field
    rw [editedField, editedField, edits]
  rw [patchedDocument, patchedDocument, sameNotes]
  have blocks : patchedBlock others = patchedBlock changes := by
    funext block
    cases block with
    | text own role body sources => cases own <;> simp only [patchedBlock, units, edits]
    | native own kind preview isProtected texts => simp only [patchedBlock, units, fields]
  rw [blocks]

end

/-- A batch is accepted exactly when it fits the document. An accepted batch makes its changes
at once, and its changes other than the notes may stand in any order. -/
theorem context_patch (digests : Digests Reference) (issued : digests.Issued)
    (document : ContextDocument Reference) (named : WellNamed document)
    (patch : ContextPatch Reference) :
    ((∃ result, checkContextPatch digests document patch = .ok result) ↔
      PatchFits digests document patch.changes) ∧
    ∀ result, checkContextPatch digests document patch = .ok result →
      result = patchedDocument document patch.changes ∧
      ∀ other : ContextPatch Reference, other.changes.Perm patch.changes →
        notes other.changes = notes patch.changes →
          checkContextPatch digests document other = .ok result := by
  have accepted (patch : ContextPatch Reference) (result : ContextDocument Reference) :
      checkContextPatch digests document patch = .ok result ↔
        PatchFits digests document patch.changes ∧
          patchedDocument document patch.changes = result := by
    rw [← patchProblems_eq_nil named issued, checkContextPatch]
    by_cases clean : patchProblems digests document patch = []
    · have effect := ((patchProblems_eq_nil named issued patch).mp clean).effect named
      simp [clean, effect]
    · simp [clean]
  refine ⟨?_, ?_⟩
  · simp [accepted]
  · intro result ran
    obtain ⟨fits, same⟩ := (accepted patch result).mp ran
    refine ⟨same.symm, ?_⟩
    intro other shuffled sameNotes
    rw [accepted, patchedDocument_perm fits.distinctTexts shuffled sameNotes]
    exact ⟨fits.perm shuffled, same⟩

/-! A retained message with two parts, both of which may be removed as one note, and two
messages of the same text. -/

def sameDigest : String :=
  "0967115f2813a3541eaef77de9d9d5773f1c0c04314b0bbfe4ff3b3b1c55b5d5"

def emptyDigest : String :=
  "e3b0c44298fc1c149afbf4c8996fb92427ae41e4649b934ca495991b7852b855"

/-- The digest of the one text below; the others are not asked for. -/
def sampleDigests : Digests ℕ where
  text body := if body = "same" then sameDigest else emptyDigest
  unit _ _ := emptyDigest

theorem sampleDigests_issued : sampleDigests.Issued := by
  have same : isDigest sameDigest = true := by decide +kernel
  have other : isDigest emptyDigest = true := by decide +kernel
  refine ⟨fun body => ?_, fun _ _ => other⟩
  change isDigest (if body = "same" then sameDigest else emptyDigest) = true
  split
  · exact same
  · exact other

def twoPartNote : ContextBlock ℕ :=
  .native 0 .pending "same\nsame" true
    [⟨1, .messageText 0, "same", true, true⟩, ⟨1, .messageText 1, "same", true, true⟩]

def sampleContext : ContextDocument ℕ where
  blocks := [twoPartNote, .text (some 2) .user "same" [], .text (some 3) .assistant "same" []]

theorem sampleContext_named : WellNamed sampleContext where
  blocks := by decide
  fields := by decide
  own := by decide

/-- The note exists, may be removed and has the expected version in both its parts, and its
removal is still refused. -/
theorem two_parts_ambiguous :
    WellNamed sampleContext ∧
      (∃ version ∈ (inspectContext sampleDigests sampleContext).unitVersions,
        version.reference = 1) ∧
      (∀ version ∈ (inspectContext sampleDigests sampleContext).unitVersions,
        version.reference = 1 → version.digest = sameDigest) ∧
      checkContextPatch sampleDigests sampleContext ⟨[.removeContextUnit 1 sameDigest]⟩ =
        .error [⟨.ambiguous, some 1, "target version or editable authority does not match"⟩] := by
  refine ⟨sampleContext_named, by decide, by decide, by decide +kernel⟩

/-- One message is edited, the other removed, and a note is added. -/
def sampleChanges : List (ContextChange ℕ) :=
  [.replaceContextText 2 (.messageText 0) sameDigest "new", .removeContextUnit 3 sameDigest,
    .appendContextNote "seen" [1]]

theorem context_patch_note :
    checkContextPatch sampleDigests sampleContext ⟨sampleChanges⟩ =
        .ok ⟨[twoPartNote, .text (some 2) .user "new" [], noteBlock "seen" [1]]⟩ ∧
      checkContextPatch sampleDigests sampleContext ⟨sampleChanges.rotate 1⟩ =
        .ok ⟨[twoPartNote, .text (some 2) .user "new" [], noteBlock "seen" [1]]⟩ := by
  obtain ⟨accepted, effect⟩ := context_patch sampleDigests sampleDigests_issued sampleContext
    sampleContext_named ⟨sampleChanges⟩
  have fits : PatchFits sampleDigests sampleContext sampleChanges := by
    refine ⟨?_, ?_, by decide, by decide, by decide, by decide, ?_⟩
    · simp only [sampleChanges, List.mem_cons, List.not_mem_nil, reduceCtorEq, or_false,
        ContextChange.replaceContextText.injEq]
      rintro _ _ _ _ ⟨rfl, rfl, rfl, rfl⟩
      exact ⟨"same", .inl ⟨.user, [], by decide, rfl⟩, rfl⟩
    · simp only [sampleChanges, List.mem_cons, List.not_mem_nil, reduceCtorEq, or_false, false_or,
        ContextChange.removeContextUnit.injEq]
      rintro _ _ ⟨rfl, rfl⟩
      have member : ContextBlock.text (some 3) .assistant "same" [] ∈ sampleContext.blocks := by
        decide
      have fields : ∀ block ∈ sampleContext.blocks, ∀ field ∈ block.fields,
          field.reference ≠ 3 := by decide
      refine ⟨none, .text member, fun place digest unit => ?_⟩
      cases unit with
      | text => rfl
      | exchange => rfl
      | field member inside may name => exact absurd name (fields _ member _ inside)
    · simp only [sampleChanges, List.mem_cons, List.not_mem_nil, reduceCtorEq, or_false, false_or,
        ContextChange.appendContextNote.injEq]
      rintro _ _ ⟨rfl, rfl⟩
      decide
  obtain ⟨result, ran⟩ := accepted.mpr fits
  obtain ⟨rfl, shuffled⟩ := effect result ran
  exact ⟨ran, shuffled ⟨sampleChanges.rotate 1⟩ (List.rotate_perm sampleChanges 1) (by decide)⟩

end ExomonadHarness.Store
