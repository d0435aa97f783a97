import ExomonadHarness.Schema.Projection

/-! What an admitted schema looks like and what it is normalized to. Every later
argument about normalization reads it through `Shape`. -/

namespace ExomonadHarness.Schema

open Json Checked OrderedMap

/-! Paths only label failures. -/

variable {types variants : List Value} {normalized : Map}

theorem typeUnionKinds_path {kinds : List Kind} {path : String} (other : String)
    (passed : typeUnionKinds types path = .ok kinds) :
    typeUnionKinds types other = .ok kinds := by
  simp only [typeUnionKinds, mapM_eq_ok, bind_eq_ok, okOr_eq_ok] at passed ⊢
  exact passed

theorem typeUnionVariants_path {object : Map} {path : String} (other : String)
    (passed : typeUnionVariants object types path = .ok variants) :
    typeUnionVariants object types other = .ok variants := by
  simp only [typeUnionVariants, bind_eq_ok, require_eq_ok, refuseFirst_eq_ok, pure_eq_ok]
    at passed ⊢
  obtain ⟨_, nonempty, kinds, named, rest⟩ := passed
  exact ⟨⟨⟩, nonempty, kinds, typeUnionKinds_path other named, rest⟩

theorem checkWireMetadata_path {object : Map} {mode : SchemaMode} {path : String}
    (other : String) (passed : checkWireMetadata object path mode = .ok ()) :
    checkWireMetadata object other mode = .ok () := by
  cases mode with
  | hostProjection => rfl
  | strictWire =>
    simp only [checkWireMetadata, bind_eq_ok, require_eq_ok, refuseFirst_eq_ok] at passed ⊢
    exact passed

theorem checkTag_path {index : ℕ} {variant : Value} {path : String} (other : String)
    (passed : checkTag variants index variant path = .ok ()) :
    checkTag variants index variant other = .ok () := by
  simp only [checkTag, bind_eq_ok, require_eq_ok, okOr_eq_ok] at passed ⊢
  exact passed

theorem applyFormat_path {kind : Kind} {object bounded : Map} {path : String} (other : String)
    (passed : applyFormat kind object normalized path = .ok bounded) :
    applyFormat kind object normalized other = .ok bounded := by
  unfold applyFormat at passed ⊢
  cases format : object.lookup "format" with
  | none => simpa [format] using passed
  | some value => simpa [format] using passed

theorem constrainNumber_path {kind : Kind} {object : Map} {output : Value} {path : String}
    (other : String) (passed : constrainNumber kind object normalized path = .ok output) :
    constrainNumber kind object normalized other = .ok output := by
  simp only [constrainNumber, bind_eq_ok, refuseFirst_eq_ok, pure_eq_ok] at passed ⊢
  obtain ⟨_, explicit, bounded, formatted, rest⟩ := passed
  exact ⟨⟨⟩, explicit, bounded, applyFormat_path other formatted, rest⟩

theorem pruneVariant_path (normalized : Value) (path other : String) :
    pruneVariant normalized path = pruneVariant normalized other := by
  unfold pruneVariant
  simp only [validateValue_isOk]

theorem carryOmission_path (object : Map) (name : String) (normalized : Value)
    (path other : String) :
    carryOmission object name normalized path = carryOmission object name normalized other := by
  unfold carryOmission
  simp only [validateValue_isOk]

/-- A schema with a single type: its keywords are metadata or of its kind. -/
structure KindSchema (object : Map) (kind : Kind) : Prop where
  typed : object.lookup "type" = some (.string kind.name)
  known : ∀ key ∈ keys object, key ∈ schemaMetadata ∨ key ∈ kind.keywords
  lengths : ∀ key ∈ ["minLength", "maxLength", "minItems", "maxItems"],
    ∀ value, object.lookup key = some value → ∃ length, value.asU64 = some length
  choices : enumNonempty object = true

theorem schemaKind_iff {object : Map} {kind : Kind} {path : String} :
    schemaKind object path = .ok kind ↔ KindSchema object kind := by
  simp only [schemaKind, bind_eq_ok, require_eq_ok, refuseFirst_eq_ok, okOr_eq_ok, pure_eq_ok]
  constructor
  · rintro ⟨name, typed, found, named, _, known, _, lengths, _, choices, same⟩
    subst found
    have name_eq := Kind.ofName?_eq_some.mp named
    subst name_eq
    obtain ⟨value, present, text⟩ := Option.bind_eq_some_iff.mp typed
    refine ⟨by rw [present, Value.asStr_eq_some.mp text], ?_, ?_, choices⟩
    · intro key member
      have passed := known key member
      simp only [Bool.and_eq_false_iff, Bool.not_eq_false', List.contains_iff_mem] at passed
      exact passed
    · intro key member value present
      have passed := lengths key member
      rw [present] at passed
      exact Option.isSome_iff_exists.mp (by simpa using passed)
  · intro kinded
    refine ⟨kind.name, by simp [kinded.typed, Value.asStr], kind, Kind.ofName?_name kind,
      ⟨⟩, ?_, ⟨⟩, ?_, ⟨⟩, kinded.choices, rfl⟩
    · intro key member
      simp only [Bool.and_eq_false_iff, Bool.not_eq_false', List.contains_iff_mem]
      exact kinded.known key member
    · intro key member
      cases present : object.lookup key with
      | none => rfl
      | some value =>
        obtain ⟨length, whole⟩ := kinded.lengths key member value present
        simp [whole]

theorem lookup_eq_none_of_keys {object : Map} {allowed : String → Prop}
    (known : ∀ key ∈ keys object, allowed key) {key : String} (foreign : ¬allowed key) :
    object.lookup key = none := by
  by_contra present
  obtain ⟨value, found⟩ := Option.ne_none_iff_exists'.mp present
  exact foreign (known key (mem_keys_iff.mpr ⟨value, found⟩))

theorem KindSchema.unknown {object : Map} {kind : Kind} (kinded : KindSchema object kind)
    (key : String) (foreign : ¬(key ∈ schemaMetadata ∨ key ∈ kind.keywords)) :
    object.lookup key = none :=
  lookup_eq_none_of_keys kinded.known foreign

theorem checkUnion_iff {keyword : String} {object : Map} {variants : Value} {path : String} :
    checkUnion keyword object variants path = .ok () ↔
      (∀ key ∈ keys object, key ∈ [keyword, "title", "description", "$schema", "$defs"]) ∧
        ∃ items, variants = .array items ∧ items ≠ [] := by
  simp only [checkUnion, bind_eq_ok, require_eq_ok, List.all_eq_true, List.contains_iff_mem,
    Option.any_eq_true, Value.asArray_eq_some]
  simp

/-- What admission requires of an object schema. -/
structure ObjectSchema (object properties : Map) (mode : SchemaMode) : Prop where
  declared : object.lookup "properties" = some (.object properties)
  closed : ∀ value, object.lookup "additionalProperties" = some value → value = .bool false
  named : ∀ value, object.lookup "required" = some value → namesDeclared properties value = true
  strict : mode = .strictWire → object.lookup "additionalProperties" = some (.bool false) ∧
    ∃ required, object.lookup "required" = some (.array required) ∧
      required.length = properties.length

theorem ObjectSchema.declares {object properties : Map} {mode : SchemaMode} {name : String}
    (closed : ObjectSchema object properties mode) (required : isRequired object name = true) :
    (properties.lookup name).isSome := by
  simp only [isRequired, Option.any_eq_true, Option.bind_eq_some_iff, Value.asArray_eq_some,
    List.any_eq_true, beq_iff_eq] at required
  obtain ⟨fields, ⟨value, present, isArray⟩, field, member, text⟩ := required
  subst isArray
  have named := closed.named _ present
  simp only [namesDeclared, Value.asArray, Option.any_some, Bool.and_eq_true,
    List.all_eq_true] at named
  have declared := named.1 field member
  rwa [text, Option.any_some] at declared

theorem checkObject_iff {object : Map} {mode : SchemaMode} {path : String} :
    checkObject object path mode = .ok () ↔ ∃ properties, ObjectSchema object properties mode := by
  simp only [checkObject, bind_eq_ok, require_eq_ok, okOr_eq_ok]
  constructor
  · rintro ⟨properties, declared, _, closed, _, named, _, strictClosed, strictRequired⟩
    refine ⟨properties, ?_, ?_, ?_, ?_⟩
    · obtain ⟨value, present, isObject⟩ := Option.bind_eq_some_iff.mp declared
      rw [present, Value.asObject_eq_some.mp isObject]
    · intro value present
      simpa [present] using closed
    · intro value present
      simpa [present] using named
    · intro strict
      subst strict
      refine ⟨by simpa using strictClosed, ?_⟩
      simpa [Option.bind_eq_some_iff, Option.any_eq_true] using strictRequired
  · rintro ⟨properties, declared, closed, named, strict⟩
    refine ⟨properties, by simp [declared, Value.asObject], ⟨⟩, ?_, ⟨⟩, ?_, ⟨⟩, ?_, ?_⟩
    · cases present : object.lookup "additionalProperties" with
      | none => rfl
      | some value => simp [closed value present]
    · cases present : object.lookup "required" with
      | none => rfl
      | some value => simp [named value present]
    · cases mode with
      | hostProjection => rfl
      | strictWire => simp [(strict rfl).1]
    · cases mode with
      | hostProjection => rfl
      | strictWire =>
        obtain ⟨required, present, complete⟩ := (strict rfl).2
        simp [present, Value.asArray, complete]

theorem lookup_copyConstraints (source target : Map) (names : List String) (wanted : String) :
    (copyConstraints source target names).lookup wanted =
      if wanted ∈ names then (source.lookup wanted).or (target.lookup wanted)
      else target.lookup wanted := by
  unfold copyConstraints
  induction names generalizing target with
  | nil => simp
  | cons name rest ih =>
    rw [List.foldl_cons, ih]
    cases found : source.lookup name with
    | none =>
      by_cases same : wanted = name
      · subst wanted
        simp [found]
      · simp [same]
    | some value =>
      by_cases same : wanted = name
      · subst wanted
        simp [found]
      · simp [same]

theorem Ordered.copyConstraints {target : Map} (ordered : Ordered target) (source : Map)
    (names : List String) : Ordered (copyConstraints source target names) := by
  unfold Schema.copyConstraints
  induction names generalizing target with
  | nil => exact ordered
  | cons name rest ih =>
    rw [List.foldl_cons]
    apply ih
    cases source.lookup name with
    | none => exact ordered
    | some value => exact ordered.insert name value

theorem constrainNumber_plain {kind : Kind} {object : Map} (path : String)
    (noFormat : object.lookup "format" = none)
    (unbounded : ∀ bound ∈ bounds, normalized.lookup bound.key = none) :
    constrainNumber kind object normalized path = .ok (.object normalized) := by
  have formatted : applyFormat kind object normalized path = .ok normalized := by
    simp [applyFormat, noFormat]
  simp only [constrainNumber, bind_eq_ok, refuseFirst_eq_ok, pure_eq_ok]
  exact ⟨⟨⟩, fun bound member => by simp [unbounded bound member], normalized, formatted, ⟨⟩,
    fun bound member => by simp [unbounded bound member], rfl⟩

theorem lookup_typed (kind : Kind) (key : String) :
    (typed kind).lookup key = if key = "type" then some (.string kind.name) else none := by
  split
  · rename_i same
    subst same
    rfl
  · rename_i different
    exact lookup_cons_of_ne different _ _

theorem lookup_closedObject (properties : Map) (key : String) :
    (closedObject properties).lookup key =
      if key = "additionalProperties" then some (.bool false)
      else if key = "properties" then some (.object properties)
      else if key = "required" then some (.array ((keys properties).map .string))
      else if key = "type" then some (.string "object") else none := by
  simp only [closedObject, lookup_insert, lookup_typed]
  rfl

theorem lookup_arrayMap (object : Map) (items : Value) (key : String) :
    (copyConstraints object (insert "items" items (typed .array)) Kind.array.constraints).lookup key =
      if key = "minItems" ∨ key = "maxItems" then object.lookup key
      else if key = "items" then some items
      else if key = "type" then some (.string "array") else none := by
  simp only [lookup_copyConstraints, lookup_insert, lookup_typed, Kind.constraints, List.mem_cons,
    List.not_mem_nil, or_false]
  split
  · rename_i limit
    rcases limit with same | same <;> simp [same]
  · rfl

theorem closedObject_unbounded (properties : Map) :
    ∀ bound ∈ bounds, (closedObject properties).lookup bound.key = none := by
  simp [bounds, lookup_closedObject]

theorem arrayMap_unbounded (object : Map) (items : Value) :
    ∀ bound ∈ bounds, (copyConstraints object (insert "items" items (typed .array))
      Kind.array.constraints).lookup bound.key = none := by
  simp [bounds, lookup_arrayMap]

/-- What admission requires of a type array with the given kinds. -/
structure TypeUnionSchema (object : Map) (types : List Value) (kinds : List Kind) : Prop where
  named : types = kinds.map fun kind => .string kind.name
  known : ∀ key ∈ keys object, key ∈ schemaMetadata ∨ ∃ kind ∈ kinds, key ∈ kind.keywords
  choices : enumNonempty object = true

theorem typeUnionKinds_named {kinds : List Kind} {path : String}
    (passed : typeUnionKinds types path = .ok kinds) :
    types = kinds.map fun kind => .string kind.name := by
  simp only [typeUnionKinds, mapM_eq_ok, bind_eq_ok, okOr_eq_ok] at passed
  have named : List.Forall₂ (fun type kind => type = Value.string (Kind.name kind)) types kinds := by
    refine forall₂_zipIdx.mp (passed.imp ?_)
    rintro ⟨type, index⟩ kind ⟨name, text, found⟩
    have isText := Value.asStr_eq_some.mp (Option.filter_eq_some_iff.mp text).1
    rw [isText, Kind.ofName?_eq_some.mp found]
  rw [← List.forall₂_eq_eq_eq, List.forall₂_map_right_iff]
  exact named

theorem typeUnionVariants_schema {object : Map} {path : String}
    (passed : typeUnionVariants object types path = .ok variants) :
    ∃ kinds, TypeUnionSchema object types kinds ∧
      variants = kinds.filterMap (unionVariant object) := by
  simp only [typeUnionVariants, bind_eq_ok, require_eq_ok, refuseFirst_eq_ok, pure_eq_ok] at passed
  obtain ⟨_, _, kinds, named, _, known, _, choices, _, _, same⟩ := passed
  refine ⟨kinds, ⟨typeUnionKinds_named named, ?_, choices⟩, same.symm⟩
  intro key member
  have passed := known key member
  simpa only [Bool.and_eq_false_iff, Bool.not_eq_false', List.contains_iff_mem,
    List.any_eq_true] using passed

theorem TypeUnionSchema.unknown {object : Map} {kinds : List Kind}
    (union : TypeUnionSchema object types kinds) {key : String}
    (foreign : ∀ kind : Kind, ¬(key ∈ schemaMetadata ∨ key ∈ kind.keywords)) :
    object.lookup key = none := by
  apply lookup_eq_none_of_keys union.known
  rintro (metadata | ⟨kind, _, keyword⟩)
  · exact foreign .null (.inl metadata)
  · exact foreign kind (.inr keyword)

theorem unionKeyword_foreign {key : String} (union : key = "oneOf" ∨ key = "anyOf") (kind : Kind) :
    ¬(key ∈ schemaMetadata ∨ key ∈ kind.keywords) := by
  rcases union with same | same <;> subst key <;> cases kind <;> decide

theorem KindSchema.single {object : Map} {kind : Kind} (kinded : KindSchema object kind) :
    object.lookup "oneOf" = none ∧ object.lookup "anyOf" = none ∧
      ∀ types, object.lookup "type" ≠ some (.array types) := by
  refine ⟨kinded.unknown _ (unionKeyword_foreign (.inl rfl) kind),
    kinded.unknown _ (unionKeyword_foreign (.inr rfl) kind), ?_⟩
  simp [kinded.typed]

theorem KindSchema.kind_eq {object : Map} {kind : Kind} (other : Kind)
    (kinded : KindSchema object kind) (typed : object.lookup "type" = some (.string other.name)) :
    other = kind := by
  have same : other.name = kind.name := by simpa using typed.symm.trans kinded.typed
  have found := Kind.ofName?_name other
  rw [same, Kind.ofName?_name] at found
  exact (Option.some.inj found).symm

/-- A property and its strict form, where an omissible property carries null. -/
def PropertyNormal (normal : Value → Value → Prop) (object : Map)
    (entry output : String × Value) : Prop :=
  ∃ normalized, normal entry.2 normalized ∧
    (entry.1, carryOmission object entry.1 normalized "$") = output

/-- The successful outcomes of normalizing a schema, given those of its parts. -/
inductive Shape (mode : SchemaMode) (normal : Value → Value → Prop) : Value → Value → Prop where
  | oneOf {object : Map} {variants outputs : List Value}
      (metadata : checkWireMetadata object "$" mode = .ok ())
      (found : object.lookup "oneOf" = some (.array variants))
      (host : mode = .hostProjection)
      (alone : ∀ key ∈ keys object, key ∈ ["oneOf", "title", "description", "$schema", "$defs"])
      (nonempty : variants ≠ [])
      (children : List.Forall₂ (fun entry output =>
        checkTag variants entry.2 entry.1 "$" = .ok () ∧ normal entry.1 output)
        variants.zipIdx outputs) :
      Shape mode normal (.object object) (Schema.anyOf outputs)
  | anyOf {object : Map} {variants outputs : List Value}
      (metadata : checkWireMetadata object "$" mode = .ok ())
      (found : object.lookup "anyOf" = some (.array variants))
      (alone : ∀ key ∈ keys object, key ∈ ["anyOf", "title", "description", "$schema", "$defs"])
      (nonempty : variants ≠ [])
      (children : List.Forall₂ normal variants outputs) :
      Shape mode normal (.object object) (Schema.anyOf outputs)
  | typeUnion {object : Map} {types variants outputs : List Value}
      (metadata : checkWireMetadata object "$" mode = .ok ())
      (found : object.lookup "type" = some (.array types))
      (split : typeUnionVariants object types "$" = .ok variants)
      (children : List.Forall₂ normal variants outputs)
      (satisfiable : outputs.filterMap (pruneVariant · "$") ≠ []) :
      Shape mode normal (.object object) (Schema.anyOf (outputs.filterMap (pruneVariant · "$")))
  | object {object properties outputs : Map}
      (metadata : checkWireMetadata object "$" mode = .ok ())
      (kinded : KindSchema object .object) (closed : ObjectSchema object properties mode)
      (children : List.Forall₂ (PropertyNormal normal object) properties outputs) :
      Shape mode normal (.object object) (.object (closedObject outputs))
  | array {object : Map} {items normalized : Value}
      (metadata : checkWireMetadata object "$" mode = .ok ())
      (kinded : KindSchema object .array) (found : object.lookup "items" = some items)
      (child : normal items normalized) :
      Shape mode normal (.object object) (.object
        (copyConstraints object (insert "items" normalized (typed .array)) Kind.array.constraints))
  | scalar {object : Map} {kind : Kind} {output : Value}
      (metadata : checkWireMetadata object "$" mode = .ok ())
      (kinded : KindSchema object kind) (partless : kind ≠ .object ∧ kind ≠ .array)
      (constrained : constrainNumber kind object
        (copyConstraints object (typed kind) kind.constraints) "$" = .ok output) :
      Shape mode normal (.object object) output

section

variable {object : Map} {mode : SchemaMode} {path : String} {output : Value}

private abbrev Normal (mode : SchemaMode) (child normalized : Value) : Prop :=
  normalizeSchemaMode child "$" mode = .ok normalized

variable (recur : ∀ {child : Value}, child.size < (Value.object object).size → ∀ path normalized,
  normalizeSchemaMode child path mode = .ok normalized ↔ Normal mode child normalized)

include recur in
private theorem oneOf_children {variants outputs : List Value}
    (found : object.lookup "oneOf" = some (.array variants)) :
    (variants.zipIdx.attach.mapM fun ⟨(variant, index), _⟩ => do
        checkTag variants index variant path
        normalizeSchemaMode variant s!"{path}.oneOf[{index}]" mode) = .ok outputs ↔
      List.Forall₂ (fun entry output =>
        checkTag variants entry.2 entry.1 "$" = .ok () ∧ Normal mode entry.1 output)
        variants.zipIdx outputs := by
  apply mapM_attach_eq_ok
  rintro ⟨variant, index⟩ member output
  have smaller : variant.size < (Value.object object).size :=
    (Value.size_lt_array (List.fst_mem_of_mem_zipIdx member)).trans (Value.size_lt_object found)
  simp only [bind_eq_ok, recur smaller]
  constructor
  · rintro ⟨_, tagged, normalized⟩
    exact ⟨checkTag_path "$" tagged, normalized⟩
  · rintro ⟨tagged, normalized⟩
    exact ⟨⟨⟩, checkTag_path path tagged, normalized⟩

include recur in
private theorem anyOf_children {variants outputs : List Value}
    (found : object.lookup "anyOf" = some (.array variants)) :
    (variants.zipIdx.attach.mapM fun ⟨(variant, index), _⟩ =>
        normalizeSchemaMode variant s!"{path}.anyOf[{index}]" mode) = .ok outputs ↔
      List.Forall₂ (Normal mode) variants outputs := by
  rw [← forall₂_zipIdx]
  apply mapM_attach_eq_ok
  rintro ⟨variant, index⟩ member output
  have smaller : variant.size < (Value.object object).size :=
    (Value.size_lt_array (List.fst_mem_of_mem_zipIdx member)).trans (Value.size_lt_object found)
  exact recur smaller _ _

include recur in
private theorem typeUnion_children {types variants : List Value} {branches : List (Option Value)}
    (found : object.lookup "type" = some (.array types))
    (split : typeUnionVariants object types path = .ok variants) :
    (variants.attach.mapM fun ⟨child, _⟩ => do
        let normalized ← normalizeSchemaMode child path mode
        return pruneVariant normalized path) = .ok branches ↔
      ∃ outputs, List.Forall₂ (Normal mode) variants outputs ∧
        outputs.map (pruneVariant · "$") = branches := by
  rw [← forall₂_through]
  apply mapM_attach_eq_ok
  intro child member branch
  have smaller := typeUnionVariants_size found split member
  simp only [bind_eq_ok, recur smaller, pure_eq_ok, pruneVariant_path _ path "$"]

include recur in
private theorem object_children {entries properties outputs : Map} (listed : entries = properties)
    (found : object.lookup "properties" = some (.object properties)) :
    (entries.attach.mapM fun ⟨(name, property), _⟩ => do
        let normalized ← normalizeSchemaMode property s!"{path}.properties.{name}" mode
        return (name, carryOmission object name normalized s!"{path}.properties.{name}")) =
          .ok outputs ↔
      List.Forall₂ (PropertyNormal (Normal mode) object) properties outputs := by
  subst listed
  apply mapM_attach_eq_ok
  rintro ⟨name, property⟩ member output
  have inner : property.size < (Value.object entries).size :=
    Value.size_lt_of_mem_entries (show (name, property) ∈ (Value.object entries).entries from member)
  have smaller := inner.trans (Value.size_lt_object found)
  simp only [PropertyNormal, bind_eq_ok, recur smaller, pure_eq_ok, carryOmission_path _ _ _ _ "$"]

private theorem pruned_reduce (outputs : List Value) :
    (outputs.map (pruneVariant · "$")).reduceOption = outputs.filterMap (pruneVariant · "$") := by
  simp [List.reduceOption, List.filterMap_map]

include recur in
private theorem shape_of_ok
    (passed : normalizeSchemaMode (.object object) path mode = .ok output) :
    Shape mode (Normal mode) (.object object) output := by
  rw [normalizeSchemaMode.eq_def] at passed
  simp only [bind_eq_ok] at passed
  obtain ⟨_, metadata, passed⟩ := passed
  have metadata := checkWireMetadata_path "$" metadata
  split at passed
  · rename_i variants found
    simp only [bind_eq_ok, require_eq_ok, pure_eq_ok] at passed
    obtain ⟨_, host, _, union, outputs, children, same⟩ := passed
    obtain ⟨alone, items, isArray, nonempty⟩ := checkUnion_iff.mp union
    subst same isArray
    have host : mode = .hostProjection := by cases mode <;> simp_all
    exact .oneOf metadata found host alone nonempty ((oneOf_children recur found).mp children)
  rename_i noOneOf
  split at passed
  · rename_i variants found
    simp only [bind_eq_ok, pure_eq_ok] at passed
    obtain ⟨_, union, outputs, children, same⟩ := passed
    obtain ⟨alone, items, isArray, nonempty⟩ := checkUnion_iff.mp union
    subst same isArray
    exact .anyOf metadata found alone nonempty ((anyOf_children recur found).mp children)
  rename_i noAnyOf
  split at passed
  · rename_i types found
    split at passed
    · cases passed
    · rename_i variants split
      simp only [bind_eq_ok, require_eq_ok, pure_eq_ok] at passed
      obtain ⟨branches, children, _, satisfiable, same⟩ := passed
      obtain ⟨outputs, normals, pruned⟩ := (typeUnion_children recur found split).mp children
      subst branches output
      rw [pruned_reduce] at satisfiable ⊢
      exact .typeUnion metadata found (typeUnionVariants_path "$" split) normals
        (by simpa using satisfiable)
  simp only [bind_eq_ok] at passed
  obtain ⟨kind, kinded, passed⟩ := passed
  have kinded := schemaKind_iff.mp kinded
  cases kind with
  | object =>
    simp only [bind_eq_ok] at passed
    obtain ⟨_, closed, outputs, children, constrained⟩ := passed
    obtain ⟨properties, closed⟩ := checkObject_iff.mp closed
    have formatless := kinded.unknown "format" (by decide)
    rw [constrainNumber_plain path formatless (closedObject_unbounded outputs)] at constrained
    cases constrained
    have listed : Value.entries ((object.lookup "properties").getD .null) = properties := by
      rw [closed.declared]
      rfl
    exact .object metadata kinded closed ((object_children recur listed closed.declared).mp children)
  | array =>
    simp only at passed
    split at passed
    · cases passed
    · rename_i items found
      simp only [bind_eq_ok] at passed
      obtain ⟨normalized, child, constrained⟩ := passed
      have formatless := kinded.unknown "format" (by decide)
      rw [constrainNumber_plain path formatless (arrayMap_unbounded object normalized)] at constrained
      cases constrained
      exact .array metadata kinded found ((recur (Value.size_lt_object found) _ _).mp child)
  | string => exact .scalar metadata kinded (by decide) (constrainNumber_path "$" passed)
  | boolean => exact .scalar metadata kinded (by decide) (constrainNumber_path "$" passed)
  | null => exact .scalar metadata kinded (by decide) (constrainNumber_path "$" passed)
  | integer => exact .scalar metadata kinded (by decide) (constrainNumber_path "$" passed)
  | number => exact .scalar metadata kinded (by decide) (constrainNumber_path "$" passed)

include recur in
private theorem ok_of_shape (shape : Shape mode (Normal mode) (.object object) output) :
    normalizeSchemaMode (.object object) path mode = .ok output := by
  rw [normalizeSchemaMode.eq_def]
  simp only [bind_eq_ok]
  cases shape with
  | oneOf metadata found host alone nonempty children =>
    refine ⟨⟨⟩, checkWireMetadata_path path metadata, ?_⟩
    split
    · rename_i present
      cases found.symm.trans present
      simp only [bind_eq_ok, require_eq_ok, pure_eq_ok]
      exact ⟨⟨⟩, by simp [host], ⟨⟩, checkUnion_iff.mpr ⟨alone, _, rfl, nonempty⟩, _,
        (oneOf_children recur found).mpr children, rfl⟩
    · simp_all
  | anyOf metadata found alone nonempty children =>
    refine ⟨⟨⟩, checkWireMetadata_path path metadata, ?_⟩
    have noOneOf : object.lookup "oneOf" = none := lookup_eq_none_of_keys alone (by decide)
    split
    · simp_all
    split
    · rename_i present
      cases found.symm.trans present
      simp only [bind_eq_ok, pure_eq_ok]
      exact ⟨⟨⟩, checkUnion_iff.mpr ⟨alone, _, rfl, nonempty⟩, _,
        (anyOf_children recur found).mpr children, rfl⟩
    · simp_all
  | typeUnion metadata found divided children satisfiable =>
    rename_i types variants outputs
    refine ⟨⟨⟩, checkWireMetadata_path path metadata, ?_⟩
    obtain ⟨kinds, union, _⟩ := typeUnionVariants_schema divided
    have noOneOf := union.unknown (unionKeyword_foreign (.inl rfl))
    have noAnyOf := union.unknown (unionKeyword_foreign (.inr rfl))
    have divided := typeUnionVariants_path path divided
    split
    · simp_all
    split
    · simp_all
    split
    · rename_i present
      cases found.symm.trans present
      split
      · simp_all
      · rename_i split
        cases divided.symm.trans split
        simp only [bind_eq_ok, require_eq_ok, pure_eq_ok]
        exact ⟨_, (typeUnion_children recur found split).mpr ⟨outputs, children, rfl⟩, ⟨⟩,
          by simpa [pruned_reduce] using satisfiable, by rw [pruned_reduce]⟩
    · simp_all
  | object metadata kinded closed children =>
    refine ⟨⟨⟩, checkWireMetadata_path path metadata, ?_⟩
    obtain ⟨noOneOf, noAnyOf, single⟩ := kinded.single
    have formatless := kinded.unknown "format" (by decide)
    split <;> [simp_all; skip]
    split <;> [simp_all; skip]
    split <;> [simp_all; skip]
    simp only [bind_eq_ok]
    refine ⟨.object, schemaKind_iff.mpr kinded, ?_⟩
    simp only [bind_eq_ok]
    refine ⟨⟨⟩, checkObject_iff.mpr ⟨_, closed⟩, _, (object_children recur ?_ closed.declared).mpr
      children, constrainNumber_plain path formatless (closedObject_unbounded _)⟩
    rw [closed.declared]
    rfl
  | array metadata kinded found child =>
    refine ⟨⟨⟩, checkWireMetadata_path path metadata, ?_⟩
    obtain ⟨noOneOf, noAnyOf, single⟩ := kinded.single
    have formatless := kinded.unknown "format" (by decide)
    split <;> [simp_all; skip]
    split <;> [simp_all; skip]
    split <;> [simp_all; skip]
    simp only [bind_eq_ok]
    refine ⟨.array, schemaKind_iff.mpr kinded, ?_⟩
    simp only
    split
    · simp_all
    · rename_i present
      cases found.symm.trans present
      simp only [bind_eq_ok]
      exact ⟨_, (recur (Value.size_lt_object found) _ _).mpr child,
        constrainNumber_plain path formatless (arrayMap_unbounded _ _)⟩
  | scalar metadata kinded partless constrained =>
    rename_i kind
    refine ⟨⟨⟩, checkWireMetadata_path path metadata, ?_⟩
    obtain ⟨noOneOf, noAnyOf, single⟩ := kinded.single
    split <;> [simp_all; skip]
    split <;> [simp_all; skip]
    split <;> [simp_all; skip]
    simp only [bind_eq_ok]
    refine ⟨kind, schemaKind_iff.mpr kinded, ?_⟩
    have constrained := constrainNumber_path path constrained
    cases kind with
    | object => exact absurd rfl partless.1
    | array => exact absurd rfl partless.2
    | string => exact constrained
    | boolean => exact constrained
    | null => exact constrained
    | integer => exact constrained
    | number => exact constrained

end

theorem normalizeSchemaMode_iff {schema output : Value} {path : String} {mode : SchemaMode} :
    normalizeSchemaMode schema path mode = .ok output ↔
      Shape mode (fun child normalized => normalizeSchemaMode child "$" mode = .ok normalized)
        schema output := by
  induction size : schema.size using Nat.strong_induction_on generalizing schema output path with
  | _ bound ih =>
    subst size
    cases schema with
    | object object =>
      have recur : ∀ {child : Value}, child.size < (Value.object object).size →
          ∀ path normalized, normalizeSchemaMode child path mode = .ok normalized ↔
            Normal mode child normalized := by
        intro child smaller path normalized
        rw [ih child.size smaller rfl, Normal, ih child.size smaller rfl]
      exact ⟨shape_of_ok recur, ok_of_shape recur⟩
    | _ =>
      rw [normalizeSchemaMode.eq_def]
      constructor <;> (intro impossible; cases impossible)

end ExomonadHarness.Schema
