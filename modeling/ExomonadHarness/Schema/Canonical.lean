import ExomonadHarness.Schema.Preservation

/-! The normalized schemas form a canonical subset: normalization lands in it,
and either traversal leaves its members unchanged. -/

namespace ExomonadHarness.Schema

open Json Checked OrderedMap

/-- The bounds of a kind are numbers, and integers for an integer. -/
def BoundsFor (kind : Kind) (entries : Map) : Prop :=
  ∀ bound ∈ bounds, ∀ limit, entries.lookup bound.key = some limit → limit.asNumber.isSome ∧
    (kind = .integer → limit.asI64.isSome ∨ limit.asU64.isSome)

/-- The keywords that a canonical schema of the kind may have, with values of
the required form. -/
structure CanonicalKind (kind : Kind) (entries : Map) : Prop where
  ordered : Ordered entries
  typed : entries.lookup "type" = some (.string kind.name)
  known : ∀ key ∈ keys entries, key = "type" ∨ key ∈ kind.constraints
  lengths : ∀ key ∈ ["minLength", "maxLength", "minItems", "maxItems"],
    ∀ value, entries.lookup key = some value → ∃ length, value.asU64 = some length
  choices : enumNonempty entries = true
  bounds : BoundsFor kind entries

/-- A schema in the form that normalization produces. -/
inductive Canonical : Value → Prop where
  | anyOf {variants : List Value} (nonempty : variants ≠ [])
      (each : ∀ variant ∈ variants, Canonical variant) : Canonical (Schema.anyOf variants)
  | object {properties : Map} (ordered : Ordered properties)
      (each : ∀ name property, (name, property) ∈ properties → Canonical property) :
      Canonical (.object (closedObject properties))
  | array {source : Map} {items : Value}
      (lengths : ∀ key ∈ ["minItems", "maxItems"],
        ∀ value, source.lookup key = some value → ∃ length, value.asU64 = some length)
      (child : Canonical items) :
      Canonical (.object (copyConstraints source (insert "items" items (typed .array))
        Kind.array.constraints))
  | scalar {kind : Kind} {entries : Map} (partless : kind ≠ .object ∧ kind ≠ .array)
      (kinded : CanonicalKind kind entries) : Canonical (.object entries)

theorem typed_ordered (kind : Kind) : Ordered (typed kind) := List.pairwise_singleton _ _

theorem canonical_null : Canonical (.object (typed .null)) := by
  refine .scalar (by decide) ⟨typed_ordered .null, rfl, ?_, ?_, rfl, ?_⟩
  · simp [keys, typed]
  · simp [lookup_typed]
  · simp [BoundsFor, Schema.bounds, lookup_typed]

theorem canonical_carryOmission {object : Map} {name : String} {normalized : Value}
    (canonical : Canonical normalized) (path : String) :
    Canonical (carryOmission object name normalized path) := by
  unfold carryOmission
  split
  · refine .anyOf (by simp) ?_
    intro variant member
    simp only [List.mem_cons, List.not_mem_nil, or_false] at member
    rcases member with same | same <;> subst same
    · exact canonical
    · exact canonical_null
  · exact canonical

section

variable {mode : SchemaMode}

/-- A schema without metadata and without a format passes the strict check. -/
theorem checkWireMetadata_bare {entries : Map} (path : String)
    (bare : ∀ key ∈ ["$defs", "definitions", "title", "description", "$schema", "deprecated",
      "readOnly", "writeOnly", "examples", "format"], entries.lookup key = none) :
    checkWireMetadata entries path mode = .ok () := by
  cases mode with
  | hostProjection => rfl
  | strictWire =>
    simp only [List.forall_mem_cons] at bare
    simp only [checkWireMetadata, bind_eq_ok, require_eq_ok, refuseFirst_eq_ok, bare,
      List.forall_mem_cons, Option.isSome_none, Option.any_none, Option.all_none, Bool.false_and]
    simp

variable {properties : Map}

theorem closedObject_keys {key : String} (member : key ∈ keys (closedObject properties)) :
    key ∈ Kind.object.keywords := by
  obtain ⟨item, found⟩ := mem_keys_iff.mp member
  rw [lookup_closedObject] at found
  by_contra foreign
  simp only [Kind.keywords, List.mem_cons, List.not_mem_nil, or_false, not_or] at foreign
  obtain ⟨notType, notProperties, notRequired, notAdditional⟩ := foreign
  simp [notType, notProperties, notRequired, notAdditional] at found

theorem namesDeclared_keys (ordered : Ordered properties) :
    namesDeclared properties (.array ((keys properties).map .string)) = true := by
  simp only [namesDeclared, Value.asArray, Option.any_some, Bool.and_eq_true, List.all_eq_true,
    decide_eq_true_eq]
  refine ⟨?_, ordered.nodup_keys.map fun _ _ same => by simpa using same⟩
  intro field member
  obtain ⟨name, listed, same⟩ := List.mem_map.mp member
  subst same
  obtain ⟨property, found⟩ := mem_keys_iff.mp listed
  simp [Value.asStr, found]

theorem stable_object (mode : SchemaMode) (ordered : Ordered properties) :
    KindSchema (closedObject properties) .object ∧
      ObjectSchema (closedObject properties) properties mode := by
  have required : (closedObject properties).lookup "required" =
      some (.array ((keys properties).map .string)) := by
    simp [lookup_closedObject]
  refine ⟨⟨by simp [lookup_closedObject, Kind.name], ?_, ?_, ?_⟩,
    ⟨by simp [lookup_closedObject], ?_, ?_, ?_⟩⟩
  · exact fun key member => .inr (closedObject_keys member)
  · simp [lookup_closedObject]
  · simp [enumNonempty, lookup_closedObject]
  · simp [lookup_closedObject]
  · intro value found
    cases required.symm.trans found
    exact namesDeclared_keys ordered
  · intro _
    exact ⟨by simp [lookup_closedObject], _, required, by simp [keys]⟩

theorem isRequired_closedObject {name : String} {property : Value}
    (member : (name, property) ∈ properties) : isRequired (closedObject properties) name = true := by
  simp only [isRequired, lookup_closedObject]
  simp only [String.reduceEq, if_false, if_true, Option.bind_some, Value.asArray, Option.any_some,
    List.any_map, List.any_eq_true, keys]
  exact ⟨_, member, by simp [Value.asStr]⟩

theorem stable_array {source : Map} (items : Value)
    (lengths : ∀ key ∈ ["minItems", "maxItems"],
      ∀ value, source.lookup key = some value → ∃ length, value.asU64 = some length) :
    KindSchema (copyConstraints source (insert "items" items (typed .array))
      Kind.array.constraints) .array := by
  refine ⟨by simp [lookup_arrayMap, Kind.name], ?_, ?_, ?_⟩
  · intro key member
    obtain ⟨item, found⟩ := mem_keys_iff.mp member
    rw [lookup_arrayMap] at found
    refine .inr ?_
    by_contra foreign
    simp only [Kind.keywords, List.mem_cons, List.not_mem_nil, or_false, not_or] at foreign
    obtain ⟨notType, notItems, notMinimum, notMaximum⟩ := foreign
    simp [notType, notItems, notMinimum, notMaximum] at found
  · intro key member
    have other : key ≠ "items" ∧ key ≠ "type" := by
      revert key
      decide
    intro value found
    rw [lookup_arrayMap] at found
    by_cases limit : key = "minItems" ∨ key = "maxItems"
    · rw [if_pos limit] at found
      exact lengths key (by simpa using limit) value found
    · rw [if_neg limit, if_neg other.1, if_neg other.2] at found
      cases found
  · simp [enumNonempty, lookup_arrayMap]

theorem arrayMap_again (source : Map) (items : Value) :
    copyConstraints (copyConstraints source (insert "items" items (typed .array))
      Kind.array.constraints) (insert "items" items (typed .array)) Kind.array.constraints =
      copyConstraints source (insert "items" items (typed .array)) Kind.array.constraints := by
  have ordered : Ordered (insert "items" items (typed .array)) :=
    (typed_ordered .array).insert "items" items
  refine (Ordered.copyConstraints ordered _ _).ext (Ordered.copyConstraints ordered _ _) fun key => ?_
  rw [lookup_arrayMap, lookup_arrayMap]
  split <;> simp_all

theorem CanonicalKind.kindSchema {kind : Kind} {entries : Map} (kinded : CanonicalKind kind entries) :
    KindSchema entries kind := by
  have own : "type" ∈ kind.keywords ∧ ∀ key ∈ kind.constraints, key ∈ kind.keywords := by
    cases kind <;> decide
  refine ⟨kinded.typed, ?_, kinded.lengths, kinded.choices⟩
  intro key member
  rcases kinded.known key member with same | listed
  · subst same
    exact .inr own.1
  · exact .inr (own.2 key listed)

theorem CanonicalKind.copy_eq {kind : Kind} {entries : Map} (kinded : CanonicalKind kind entries) :
    copyConstraints entries (Schema.typed kind) kind.constraints = entries := by
  refine (Ordered.copyConstraints (typed_ordered kind) _ _).ext kinded.ordered fun key => ?_
  rw [lookup_copyConstraints, lookup_typed]
  by_cases isType : key = "type"
  · subst isType
    rw [if_neg (by cases kind <;> decide), if_pos rfl, kinded.typed]
  · rw [if_neg isType, Option.or_none]
    split
    · rfl
    · rename_i foreign
      refine (lookup_eq_none_of_keys kinded.known ?_).symm
      exact not_or.mpr ⟨isType, foreign⟩

theorem CanonicalKind.constrained {kind : Kind} {entries : Map}
    (kinded : CanonicalKind kind entries) (path : String) :
    constrainNumber kind entries entries path = .ok (.object entries) := by
  have formatless : entries.lookup "format" = none := by
    refine lookup_eq_none_of_keys kinded.known ?_
    cases kind <;> decide
  have formatted : applyFormat kind entries entries path = .ok entries := by
    simp [applyFormat, formatless]
  simp only [constrainNumber, bind_eq_ok, refuseFirst_eq_ok, pure_eq_ok]
  refine ⟨⟨⟩, ?_, entries, formatted, ⟨⟩, ?_, rfl⟩
  · intro bound member
    cases found : entries.lookup bound.key with
    | none => rfl
    | some limit =>
      obtain ⟨numeric, whole⟩ := kinded.bounds bound member limit found
      rw [Option.any_some, Option.isNone_eq_false_iff.mpr numeric, Bool.false_or]
      by_cases isInteger : kind = .integer
      · rcases whole isInteger with signed | unsigned
        · rw [Option.isNone_eq_false_iff.mpr signed, Bool.and_false, Bool.false_and]
        · rw [Option.isNone_eq_false_iff.mpr unsigned, Bool.and_false]
      · simp [isInteger]
  · intro bound member
    cases found : entries.lookup bound.key with
    | none => rfl
    | some limit =>
      have numeric := (kinded.bounds bound member limit found).1
      simpa using numeric

/-- The strict traversal and the host traversal keep a canonical schema. -/
theorem Canonical.stable {schema : Value} (canonical : Canonical schema) (mode : SchemaMode)
    (path : String) : normalizeSchemaMode schema path mode = .ok schema := by
  rw [normalizeSchemaMode_iff]
  induction canonical generalizing path with
  | @anyOf variants nonempty each ih =>
    refine .anyOf (checkWireMetadata_bare "$" ?_) rfl ?_ nonempty ?_
    · simp
    · simp [keys]
    · exact List.forall₂_same.mpr fun variant member =>
        normalizeSchemaMode_iff.mpr (ih variant member "$")
  | @object properties ordered each ih =>
    obtain ⟨kinded, closed⟩ := stable_object mode ordered
    refine .object (checkWireMetadata_bare "$" ?_) kinded closed ?_
    · simp [lookup_closedObject]
    · refine List.forall₂_same.mpr ?_
      rintro ⟨name, property⟩ member
      refine ⟨property, normalizeSchemaMode_iff.mpr (ih name property member "$"), ?_⟩
      simp [carryOmission, isRequired_closedObject member]
  | @array source items lengths child ih =>
    have found : (copyConstraints source (insert "items" items (typed .array))
        Kind.array.constraints).lookup "items" = some items := by
      simp [lookup_arrayMap]
    have shape : Shape mode (fun child normalized =>
        normalizeSchemaMode child "$" mode = .ok normalized) _ _ :=
      .array (checkWireMetadata_bare "$" (by simp [lookup_arrayMap])) (stable_array items lengths)
        found (normalizeSchemaMode_iff.mpr (ih "$"))
    rwa [arrayMap_again] at shape
  | @scalar kind entries partless kinded =>
    refine .scalar (checkWireMetadata_bare "$" ?_) kinded.kindSchema partless ?_
    · intro key member
      refine lookup_eq_none_of_keys kinded.known ?_
      cases kind <;> revert key <;> decide
    · rw [kinded.copy_eq]
      exact kinded.constrained "$"

end

section

variable {kind : Kind} {entries : Map}

/-- A constraint of the kind may be set to any value of the required form. -/
theorem CanonicalKind.insert {key : String} {value : Value} (kinded : CanonicalKind kind entries)
    (listed : key ∈ kind.constraints)
    (length : key ∈ ["minLength", "maxLength", "minItems", "maxItems"] →
      ∃ length, value.asU64 = some length)
    (choice : key = "enum" → ∃ choices, value = .array choices ∧ choices ≠ [])
    (limit : key ∈ Schema.bounds.map Bound.key → value.asNumber.isSome ∧
      (kind = .integer → value.asI64.isSome ∨ value.asU64.isSome)) :
    CanonicalKind kind (OrderedMap.insert key value entries) := by
  have untyped : "type" ≠ key := by
    rintro same
    subst same
    cases kind <;> revert listed <;> decide
  refine ⟨kinded.ordered.insert key value, ?_, ?_, ?_, ?_, ?_⟩
  · rw [lookup_insert, if_neg untyped, kinded.typed]
  · intro other member
    obtain ⟨item, found⟩ := mem_keys_iff.mp member
    rw [lookup_insert] at found
    split at found
    · rename_i same
      exact .inr (same ▸ listed)
    · exact kinded.known other (mem_keys_iff.mpr ⟨item, found⟩)
  · intro other member item found
    rw [lookup_insert] at found
    split at found
    · rename_i same
      subst same
      cases found
      exact length member
    · exact kinded.lengths other member item found
  · have kept := kinded.choices
    unfold enumNonempty at kept ⊢
    rw [lookup_insert]
    split
    · rename_i same
      obtain ⟨choices, isArray, nonempty⟩ := choice same.symm
      simp [isArray, Value.asArray, nonempty]
    · exact kept
  · intro bound member item found
    rw [lookup_insert] at found
    split at found
    · rename_i same
      cases found
      exact limit (same ▸ List.mem_map_of_mem member)
    · exact kinded.bounds bound member item found

theorem CanonicalKind.tighten {bound : Bound} {limit : Number} (kinded : CanonicalKind kind entries)
    (numeric : kind = .integer ∨ kind = .number) (member : bound ∈ Schema.bounds)
    (whole : kind = .integer → limit.asI64.isSome ∨ limit.asU64.isSome) :
    CanonicalKind kind (tighten bound limit entries) := by
  have listed : bound.key ∈ kind.constraints := by
    rcases numeric with same | same <;> subst same <;> revert bound <;> decide
  rcases tighten_cases bound limit entries with same | same
  · rw [same]
    exact kinded
  · rw [same]
    refine kinded.insert listed (fun length => absurd length ?_) (fun choice => absurd choice ?_)
      fun _ => ⟨rfl, whole⟩
    · clear listed same
      revert bound
      decide
    · clear listed same
      revert bound
      decide

theorem formatRange_kind {text : Option String} {least greatest : Number}
    (known : formatRange kind text = some (least, greatest)) :
    (kind = .integer ∨ kind = .number) ∧ (kind = .integer →
      (least.asI64.isSome ∨ least.asU64.isSome) ∧ (greatest.asI64.isSome ∨ greatest.asU64.isSome)) := by
  unfold formatRange at known
  split at known <;> cases known
  all_goals decide

/-- The constraints copied from a schema of one kind are canonical. -/
theorem copyConstraints_canonical {object : Map} (kinded : KindSchema object kind)
    (numeric : BoundsFor kind (copyConstraints object (typed kind) kind.constraints)) :
    CanonicalKind kind (copyConstraints object (typed kind) kind.constraints) := by
  have found (key : String) (untyped : key ≠ "type") :
      (copyConstraints object (typed kind) kind.constraints).lookup key =
        if key ∈ kind.constraints then object.lookup key else none := by
    rw [lookup_copyConstraints, lookup_typed, if_neg untyped, Option.or_none]
  refine ⟨Ordered.copyConstraints (typed_ordered kind) _ _, ?_, ?_, ?_, ?_, numeric⟩
  · rw [lookup_copyConstraints, if_neg (by cases kind <;> decide), lookup_typed, if_pos rfl]
  · intro key member
    obtain ⟨item, here⟩ := mem_keys_iff.mp member
    by_cases isType : key = "type"
    · exact .inl isType
    · rw [found key isType] at here
      split at here
      · rename_i listed
        exact .inr listed
      · cases here
  · intro key member
    have untyped : key ≠ "type" := by
      revert key
      decide
    intro value here
    rw [found key untyped] at here
    split at here
    · exact kinded.lengths key member value here
    · cases here
  · unfold enumNonempty
    rw [found "enum" (by decide)]
    split
    · exact kinded.choices
    · rfl

theorem constrainNumber_canonical {object : Map} {output : Value} {path : String}
    (kinded : KindSchema object kind)
    (constrained : constrainNumber kind object
      (copyConstraints object (typed kind) kind.constraints) path = .ok output) :
    ∃ bounded, output = .object bounded ∧ CanonicalKind kind bounded := by
  simp only [constrainNumber, bind_eq_ok, refuseFirst_eq_ok, pure_eq_ok] at constrained
  obtain ⟨_, explicit, bounded, formatted, _, _, same⟩ := constrained
  refine ⟨bounded, same.symm, ?_⟩
  have copied := copyConstraints_canonical kinded fun bound member limit found => by
    have passed := explicit bound member
    rw [found, Option.any_some, Bool.or_eq_false_iff, Option.isNone_eq_false_iff] at passed
    refine ⟨passed.1, ?_⟩
    rintro isInteger
    simpa [isInteger, or_iff_not_imp_left] using passed.2
  unfold applyFormat at formatted
  split at formatted
  · cases formatted
    exact copied
  · simp only [bind_eq_ok, okOr_eq_ok, pure_eq_ok] at formatted
    obtain ⟨⟨least, greatest⟩, known, same⟩ := formatted
    obtain ⟨numeric, whole⟩ := formatRange_kind known
    rw [← same]
    refine (copied.tighten numeric (by simp [Schema.bounds]) fun isInteger => (whole isInteger).1).tighten
      numeric (by simp [Schema.bounds]) fun isInteger => (whole isInteger).2

theorem pruneVariant_canonical {output pruned : Value} {path : String} (canonical : Canonical output)
    (kept : pruneVariant output path = some pruned) : Canonical pruned := by
  unfold pruneVariant at kept
  split at kept
  · cases kept
  split at kept
  · rename_i entries choices _ listed
    obtain ⟨_, same, enum⟩ := Value.index_eq (Value.asArray_eq_some.mp listed) (by simp)
    cases same
    dsimp only at kept
    split at kept
    · cases kept
    · rename_i nonempty
      rw [← Option.some.inj kept]
      generalize whole : Value.object entries = output at canonical
      cases canonical with
      | anyOf => cases whole; cases enum
      | object => cases whole; simp [lookup_closedObject] at enum
      | array => cases whole; simp [lookup_arrayMap] at enum
      | scalar partless kinded =>
        cases whole
        have own : "enum" ∈ _ :=
          (kinded.known "enum" (mem_keys_iff.mpr ⟨_, enum⟩)).resolve_left (by decide)
        have unbounded : "enum" ∉ bounds.map Bound.key := by decide
        refine .scalar partless (kinded.insert own (by simp) (fun _ => ⟨_, rfl, ?_⟩)
          fun bounded => absurd bounded unbounded)
        simpa using nonempty
  · rw [← Option.some.inj kept]
    exact canonical

end

theorem normalized_canonical {schema output : Value} {mode : SchemaMode} {path : String}
    (normal : normalizeSchemaMode schema path mode = .ok output)
    (formed : schema.wellFormed = true) : Canonical output := by
  induction size : schema.size using Nat.strong_induction_on generalizing schema output path with
  | _ bound ih =>
    subst size
    cases normalizeSchemaMode_iff.mp normal with
    | @oneOf object variants outputs metadata found host alone nonempty children =>
      refine .anyOf ?_ fun output member => ?_
      · rintro empty
        subst empty
        cases variants with
        | nil => exact nonempty rfl
        | cons => cases children
      · obtain ⟨⟨variant, index⟩, listed, _, normal⟩ := exists_left_of_forall₂ children output member
        have listed := List.fst_mem_of_mem_zipIdx listed
        exact ih variant.size ((Value.size_lt_array listed).trans (Value.size_lt_object found)) normal
          (wellFormed_variant formed found variant listed) rfl
    | @anyOf object variants outputs metadata found alone nonempty children =>
      refine .anyOf ?_ fun output member => ?_
      · rintro empty
        subst empty
        cases children
        exact nonempty rfl
      · obtain ⟨variant, listed, normal⟩ := exists_left_of_forall₂ children output member
        exact ih variant.size ((Value.size_lt_array listed).trans (Value.size_lt_object found)) normal
          (wellFormed_variant formed found variant listed) rfl
    | @typeUnion object types variants outputs metadata found split children satisfiable =>
      refine .anyOf satisfiable fun pruned member => ?_
      obtain ⟨output, listed, kept⟩ := List.mem_filterMap.mp member
      obtain ⟨variant, member, normal⟩ := exists_left_of_forall₂ children output listed
      obtain ⟨kinds, _, same⟩ := typeUnionVariants_schema split
      obtain ⟨kind, _, branch⟩ := List.mem_filterMap.mp (same ▸ member)
      exact pruneVariant_canonical (ih variant.size (typeUnionVariants_size found split member) normal
        (unionVariant_wellFormed formed branch) rfl) kept
    | @object object properties outputs metadata kinded closed children =>
      have propertiesFormed := Value.wellFormed_of_lookup formed closed.declared
      obtain ⟨ordered, formedEach⟩ := Value.wellFormed_object.mp propertiesFormed
      refine .object (closedObject_ordered children ordered) fun name output member => ?_
      obtain ⟨⟨_, property⟩, listed, normalized, normal, same⟩ :=
        exists_left_of_forall₂ children (name, output) member
      cases same
      have smaller : property.size < (Value.object object).size :=
        (Value.size_lt_object (ordered.lookup_of_mem listed)).trans (Value.size_lt_object closed.declared)
      exact canonical_carryOmission (ih property.size smaller normal (formedEach _ listed) rfl) "$"
    | array metadata kinded found child =>
      refine .array ?_ (ih _ (Value.size_lt_object found) child
        (Value.wellFormed_of_lookup formed found) rfl)
      intro key member
      exact kinded.lengths key (by revert key; decide)
    | scalar metadata kinded partless constrained =>
      obtain ⟨bounded, same, canonical⟩ := constrainNumber_canonical kinded constrained
      subst same
      exact .scalar partless canonical

end ExomonadHarness.Schema
