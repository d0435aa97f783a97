import ExomonadHarness.Schema.Range

/-! What validation and the reference semantics say about each form of schema
that normalization reads or writes. -/

namespace ExomonadHarness.Schema

open Json Checked OrderedMap Reference

section

variable (value : Value) {object : Map}

theorem fits_anyOf (outputs : List Value) :
    fits value (anyOf outputs) = outputs.any fun output => fits value output := by
  rw [fits, isOk_validateValue]
  rfl

theorem fits_plain (noOneOf : object.lookup "oneOf" = none)
    (noAnyOf : object.lookup "anyOf" = none) :
    fits value (.object object) =
      (matchesType value (.object object) && matchesChoice value (.object object) &&
        ((value.asNumber.isNone || matchesBounds value (.object object)) &&
          partsFit fits value (.object object))) := by
  rw [fits, isOk_validateValue, Value.index_object, Value.index_object, noOneOf, noAnyOf]
  rfl

theorem matchesType_kind {kind : Kind} (typed : object.lookup "type" = some (.string kind.name)) :
    matchesType value (.object object) = kind.accepts value := by
  simp [matchesType, typed, Value.asStr]

theorem typeAccepts_kind (kind : Kind) (typed : object.lookup "type" = some (.string kind.name)) :
    typeAccepts (.object object) value = kind.accepts value := by
  simp [typeAccepts, typed, kindAccepts_name]

theorem matchesLength_eq (length : ℕ) (minimum maximum : Value) :
    matchesLength length minimum maximum = lengthAccepts length minimum maximum := by
  unfold matchesLength lengthAccepts
  cases minimum.asU64 <;> simp

/-- The keywords that constrain a value other than through a union. -/
def constraining : List String :=
  ["type", "const", "enum", "minimum", "maximum", "exclusiveMinimum", "exclusiveMaximum", "format",
    "minLength", "maxLength", "minItems", "maxItems", "items", "required", "properties"]

theorem accepts_union (bare : ∀ key ∈ constraining, object.lookup key = none) :
    accepts (.object object) value =
      (((object.lookup "anyOf").bind Value.asArray).all (fun branches =>
          branches.any fun branch => accepts branch value) &&
        ((object.lookup "oneOf").bind Value.asArray).all fun branches =>
          (branches.countP fun branch => accepts branch value) == 1) := by
  have part (key : String) : ((object.lookup key).getD .null).asArray =
      (object.lookup key).bind Value.asArray := by
    cases object.lookup key <;> rfl
  simp only [constraining, List.forall_mem_cons] at bare
  rw [accepts_eq]
  simp only [Value.index_object, part]
  have unconstrained : (typeAccepts (.object object) value && choiceAccepts (.object object) value &&
      numberAccepts (.object object) value) = true := by
    simp [typeAccepts, choiceAccepts, numberAccepts, bounds, bare, Value.asArray, Value.asNumber,
      Value.asStr]
  have unparted : partsAccept accepts (.object object) value = true := by
    cases value <;> simp [partsAccept, lengthAccepts, requiredAccepts, bare, Value.asU64,
      Value.asNumber, Value.items, Value.asArray, Value.asObject]
  simp [unconstrained, unparted]

variable {variants : List Value} {path : String} {mode : SchemaMode}

theorem accepts_anyOf
    (alone : ∀ key ∈ keys object, key ∈ ["anyOf", "title", "description", "$schema", "$defs"])
    (found : object.lookup "anyOf" = some (.array variants)) :
    accepts (.object object) value = variants.any fun variant => accepts variant value := by
  have noOneOf : object.lookup "oneOf" = none := lookup_eq_none_of_keys alone (by decide)
  rw [accepts_union value fun key member => lookup_eq_none_of_keys alone ?_, found, noOneOf]
  · simp [Value.asArray]
  · revert key
    decide

theorem accepts_oneOf
    (alone : ∀ key ∈ keys object, key ∈ ["oneOf", "title", "description", "$schema", "$defs"])
    (found : object.lookup "oneOf" = some (.array variants)) :
    accepts (.object object) value =
      ((variants.countP fun variant => accepts variant value) == 1) := by
  have noAnyOf : object.lookup "anyOf" = none := lookup_eq_none_of_keys alone (by decide)
  rw [accepts_union value fun key member => lookup_eq_none_of_keys alone ?_, found, noAnyOf]
  · simp [Value.asArray]
  · revert key
    decide

theorem accepts_typed {kind : Kind} (typed : object.lookup "type" = some (.string kind.name))
    (noOneOf : object.lookup "oneOf" = none) (noAnyOf : object.lookup "anyOf" = none) :
    accepts (.object object) value =
      (kind.accepts value && choiceAccepts (.object object) value &&
        numberAccepts (.object object) value && partsAccept accepts (.object object) value) := by
  rw [accepts_eq, typeAccepts_kind value kind typed, Value.index_object, Value.index_object,
    noOneOf, noAnyOf]
  simp [Value.asArray]

/-- What a schema of one kind says about a value of that kind. -/
theorem accepts_kind {kind : Kind} (kinded : KindSchema object kind) :
    accepts (.object object) value =
      (kind.accepts value && choiceAccepts (.object object) value &&
        numberAccepts (.object object) value && partsAccept accepts (.object object) value) :=
  accepts_typed value kinded.typed kinded.single.1 kinded.single.2.1

theorem scalar_lookup {kind : Kind} (kinded : KindSchema object kind) {key : String}
    (untyped : key ≠ "type")
    (carried : key ∈ kind.constraints ∨ ¬(key ∈ schemaMetadata ∨ key ∈ kind.keywords)) :
    (copyConstraints object (typed kind) kind.constraints).lookup key = object.lookup key := by
  have blank : (typed kind).lookup key = none := lookup_cons_of_ne untyped _ _
  rw [lookup_copyConstraints, blank]
  rcases carried with listed | foreign
  · rw [if_pos listed, Option.or_none]
  · rw [kinded.unknown key foreign]
    simp

/-- A schema without parts keeps its meaning. -/
theorem fits_scalar {kind : Kind} {output : Value} (kinded : KindSchema object kind)
    (partless : kind ≠ .object ∧ kind ≠ .array) (constrained : constrainNumber kind object
      (copyConstraints object (typed kind) kind.constraints) path = .ok output) :
    fits value output = accepts (.object object) value := by
  obtain ⟨bounded, same, kept⟩ := constrainNumber_constrained constrained
  subst same
  have source (key : String)
      (plain : key ∈ ["oneOf", "anyOf", "const", "enum", "minLength", "maxLength"] ++
        bounds.map Bound.key) :
      (copyConstraints object (typed kind) kind.constraints).lookup key = object.lookup key := by
    apply scalar_lookup kinded
    · revert key
      decide
    · obtain ⟨notObject, notArray⟩ := partless
      cases kind <;> first | contradiction | (revert key; decide)
  have carried (key : String)
      (plain : key ∈ ["oneOf", "anyOf", "const", "enum", "minLength", "maxLength"]) :
      bounded.lookup key = object.lookup key := by
    rw [kept.untouched key (by revert key; decide), source key (List.mem_append_left _ plain)]
  have typedSame : bounded.lookup "type" = some (.string kind.name) := by
    rw [kept.untouched "type" (by decide), lookup_copyConstraints]
    cases kind <;> rfl
  obtain ⟨noOneOf, noAnyOf, _⟩ := kinded.single
  rw [← carried _ (by decide)] at noOneOf noAnyOf
  have choices : matchesChoice value (.object bounded) = choiceAccepts (.object object) value := by
    simp only [matchesChoice, choiceAccepts, Value.get?_object, Value.index_object,
      carried "const" (by decide), carried "enum" (by decide)]
  rw [fits_plain value noOneOf noAnyOf, matchesType_kind value typedSame, accepts_kind value kinded,
    choices, Bool.and_assoc (kind.accepts value && _)]
  cases accepted : kind.accepts value with
  | false => rfl
  | true =>
    congr 1
    cases value with
    | null => rfl
    | bool value => rfl
    | number number =>
      have admitted : matchesBounds (.number number) (.object bounded) =
          numberAccepts (.object object) (.number number) := by
        rw [matchesBounds_number kept.numeric, kept.admitted, numberAccepts_number, formatHolds]
        congr 1
        apply all_congr_of_mem
        intro bound member
        exact boundHolds_congr (source bound.key (List.mem_append_right _ (List.mem_map_of_mem member)))
      rw [admitted]
      rfl
    | string text =>
      simp only [partsFit, partsAccept, Value.index_object, carried "minLength" (by decide),
        carried "maxLength" (by decide), matchesLength_eq]
      rfl
    | array _ | object _ =>
      cases kind <;> simp_all [Kind.accepts, Value.asStr, Value.asI64, Value.asU64, Value.asNumber]

/-- A schema of one kind without choices checks only the parts of its values. -/
theorem fits_kind (kind : Kind) (typed : object.lookup "type" = some (.string kind.name))
    (bare : ∀ key ∈ ["oneOf", "anyOf", "const", "enum"], object.lookup key = none) :
    fits value (.object object) =
      (kind.accepts value && ((value.asNumber.isNone || matchesBounds value (.object object)) &&
        partsFit fits value (.object object))) := by
  rw [fits_plain value (bare _ (by decide)) (bare _ (by decide)), matchesType_kind value typed]
  have free : matchesChoice value (.object object) = true := by
    simp [matchesChoice, bare "const" (by decide), bare "enum" (by decide), Value.asArray]
  rw [free, Bool.and_true]

theorem fits_arrayMap (normalized : Value) :
    fits value (.object (copyConstraints object (insert "items" normalized (typed .array))
      Kind.array.constraints)) =
      value.asArray.any fun children =>
        lengthAccepts children.length ((object.lookup "minItems").getD .null)
          ((object.lookup "maxItems").getD .null) &&
        children.all fun child => fits child normalized := by
  rw [fits_kind value .array]
  · cases value with
    | array children =>
      simp [Kind.accepts, Value.asArray, Value.asNumber, partsFit, lookup_arrayMap, matchesLength_eq]
    | _ => rfl
  · simp [lookup_arrayMap, Kind.name]
  · simp [lookup_arrayMap]

theorem fits_closedObject (outputs : Map) :
    fits value (.object (closedObject outputs)) =
      value.asObject.any fun entries => entries.length == outputs.length &&
        outputs.all fun entry => (entries.lookup entry.1).any fun child => fits child entry.2 := by
  rw [fits_kind value .object]
  · cases value with
    | object entries =>
      simp [Kind.accepts, Value.asObject, Value.asNumber, partsFit, lookup_closedObject]
    | _ => rfl
  · simp [lookup_closedObject, Kind.name]
  · simp [lookup_closedObject]

omit value in
/-- An object fits a closed object that has exactly its keys and whose
properties its parts fit. -/
theorem fits_closedObject_iff {outputs entries : Map} (outputsOrdered : Ordered outputs)
    (ordered : Ordered entries) :
    fits (.object entries) (.object (closedObject outputs)) = true ↔
      (∀ name, (outputs.lookup name).isSome ↔ (entries.lookup name).isSome) ∧
        ∀ name output child, outputs.lookup name = some output → entries.lookup name = some child →
          fits child output = true := by
  rw [fits_closedObject]
  simp only [Value.asObject, Option.any_some, Bool.and_eq_true, beq_iff_eq, List.all_eq_true,
    Option.any_eq_true]
  constructor
  · rintro ⟨sameSize, each⟩
    have held {name : String} {output : Value} (found : outputs.lookup name = some output) :
        ∃ child, entries.lookup name = some child ∧ fits child output = true :=
      each _ (mem_of_lookup found)
    have present (name : String) (found : (outputs.lookup name).isSome) :
        (entries.lookup name).isSome := by
      obtain ⟨output, found⟩ := Option.isSome_iff_exists.mp found
      obtain ⟨child, here, _⟩ := held found
      simp [here]
    refine ⟨fun name => ⟨present name, outputsOrdered.isSome_lookup sameSize present⟩, ?_⟩
    intro name output child found here
    obtain ⟨_, also, fitting⟩ := held found
    cases here.symm.trans also
    exact fitting
  · rintro ⟨present, each⟩
    refine ⟨(outputsOrdered.length_eq ordered present).symm, ?_⟩
    rintro ⟨name, output⟩ member
    have found := outputsOrdered.lookup_of_mem member
    obtain ⟨child, here⟩ := Option.isSome_iff_exists.mp ((present name).mp (by simp [found]))
    exact ⟨child, here, each name output child found here⟩

/-- A schema of a kind with parts has no choices and no bounds. -/
theorem accepts_parted {kind : Kind} (kinded : KindSchema object kind)
    (parted : kind = .object ∨ kind = .array) :
    accepts (.object object) value =
      (kind.accepts value && partsAccept accepts (.object object) value) := by
  have missing (key : String) (scalar : key ∈ ["const", "enum"]) : object.lookup key = none := by
    apply kinded.unknown key
    rcases parted with same | same <;> subst same <;> revert key <;> decide
  rw [accepts_kind value kinded]
  have free : choiceAccepts (.object object) value = true := by
    simp [choiceAccepts, missing "const" (by decide), missing "enum" (by decide), Value.asArray]
  rw [free, Bool.and_true]
  cases value with
  | number number => rcases parted with same | same <;> subst same <;> rfl
  | _ => simp [numberAccepts, Value.asNumber]

theorem accepts_array {items : Value} (kinded : KindSchema object .array)
    (found : object.lookup "items" = some items) :
    accepts (.object object) value =
      value.asArray.any fun children =>
        lengthAccepts children.length ((object.lookup "minItems").getD .null)
          ((object.lookup "maxItems").getD .null) &&
        children.all fun child => accepts items child := by
  rw [accepts_parted value kinded (.inr rfl)]
  cases value with
  | array children => simp [Kind.accepts, Value.asArray, partsAccept, found]
  | _ => rfl

theorem requiredAccepts_iff {entries : Map} :
    requiredAccepts (.object object) entries = true ↔
      ∀ name, isRequired object name = true → (entries.lookup name).isSome := by
  have listed : (Value.index (.object object) "required").items =
      ((object.lookup "required").bind Value.asArray).getD [] := by
    rw [Value.index_object, Value.items]
    cases object.lookup "required" <;> rfl
  simp only [requiredAccepts, isRequired, listed, List.all_eq_true]
  cases (object.lookup "required").bind Value.asArray with
  | none => simp
  | some fields =>
    simp only [Option.getD_some, Option.any_some, List.any_eq_true, beq_iff_eq]
    constructor
    · rintro present name ⟨field, member, named⟩
      simpa [named] using present field member
    · intro present field member
      cases named : field.asStr with
      | none => rfl
      | some name => simpa using present name ⟨field, member, named⟩

theorem accepts_object_iff {properties entries : Map} (kinded : KindSchema object .object)
    (closed : ObjectSchema object properties mode) :
    accepts (.object object) (.object entries) = true ↔
      (∀ name, isRequired object name = true → (entries.lookup name).isSome) ∧
        ∀ entry ∈ entries, ∃ property, properties.lookup entry.1 = some property ∧
          accepts property entry.2 = true := by
  have shut : isOpen (.object object) = false := by
    cases found : object.lookup "additionalProperties" with
    | none => simp [isOpen, found]
    | some extra => simp [isOpen, found, closed.closed extra found]
  rw [accepts_parted _ kinded (.inl rfl), ← requiredAccepts_iff]
  simp only [Kind.accepts, Value.asObject, partsAccept, Value.index_object, closed.declared, shut,
    Option.isSome_some, Bool.true_and, Bool.and_eq_true, Option.getD_some, Option.all_some,
    List.all_eq_true]
  apply and_congr_right'
  apply forall₂_congr
  intro entry _
  cases properties.lookup entry.1 <;> simp

/-! A variant of a `oneOf` accepts only objects that carry its own tag, so no
value is accepted by two of them. -/

variable {variant schema : Value} {types : List Value} {normal : Value → Value → Prop}

omit value in
theorem singletonTag_eq_some {tag : String} (tagged : singletonTag variant = some tag) :
    ∃ object properties field, variant = .object object ∧
      object.lookup "properties" = some (.object properties) ∧
      properties.lookup "tag" = some (.object field) ∧
      field.lookup "enum" = some (.array [.string tag]) := by
  unfold singletonTag at tagged
  split at tagged
  · rename_i choice found
    rw [Value.asStr_eq_some] at tagged
    subst tagged
    obtain ⟨field, isField, enum⟩ := Value.index_eq (Value.asArray_eq_some.mp found) (by simp)
    obtain ⟨properties, isProperties, declared⟩ := Value.index_eq isField (by simp)
    obtain ⟨object, isObject, held⟩ := Value.index_eq isProperties (by simp)
    exact ⟨object, properties, field, isObject, held, declared, enum⟩
  · cases tagged

theorem accepts_tagged {index : ℕ} {value : Value}
    (checked : checkTag variants index variant path = .ok ())
    (accepted : accepts variant value = true) :
    ∃ tag entries, singletonTag variant = some tag ∧
      tag ∉ (variants.take index).filterMap singletonTag ∧
      value = .object entries ∧ entries.lookup "tag" = some (.string tag) := by
  simp only [checkTag, bind_eq_ok, okOr_eq_ok, require_eq_ok, Bool.and_eq_true, beq_iff_eq,
    Bool.not_eq_true', List.contains_eq_mem, decide_eq_false_iff_not, Option.any_eq_true,
    decide_eq_true_eq] at checked
  obtain ⟨tag, tagged, ⟨isObject, fresh⟩, required, listed, needed⟩ := checked
  obtain ⟨object, properties, field, same, declared, tagField, enum⟩ := singletonTag_eq_some tagged
  subst same
  rw [accepts_eq] at accepted
  simp only [Bool.and_eq_true] at accepted
  obtain ⟨⟨⟨⟨⟨typed, _⟩, _⟩, _⟩, _⟩, parts⟩ := accepted
  obtain ⟨_, same, found⟩ := Value.index_eq isObject (by simp)
  cases same
  rw [typeAccepts_kind value .object found, Kind.accepts, Option.isSome_iff_exists] at typed
  obtain ⟨entries, isEntries⟩ := typed
  rw [Value.asObject_eq_some] at isEntries
  subst isEntries
  refine ⟨tag, entries, tagged, fresh, rfl, ?_⟩
  simp only [partsAccept, Bool.and_eq_true, Value.index_object, declared, Option.getD_some,
    Value.asObject, Option.all_some, List.all_eq_true] at parts
  obtain ⟨present, each⟩ := parts
  have demanded : isRequired object "tag" = true := by
    obtain ⟨_, same, holds⟩ := Value.index_eq (Value.asArray_eq_some.mp listed) (by simp)
    cases same
    simp only [isRequired, holds, Option.bind_some, Value.asArray, Option.any_some,
      List.any_eq_true, beq_iff_eq]
    exact ⟨_, needed, rfl⟩
  obtain ⟨child, here⟩ := Option.isSome_iff_exists.mp (requiredAccepts_iff.mp present "tag" demanded)
  have fieldAccepts : accepts (.object field) child = true := by
    simpa [tagField] using each _ (mem_of_lookup here)
  rw [accepts_eq] at fieldAccepts
  simp only [Bool.and_eq_true, choiceAccepts, Value.index_object, enum, Option.getD_some,
    Value.asArray, Option.all_some] at fieldAccepts
  have chosen := fieldAccepts.1.1.1.1.2.2
  rw [here, show child = .string tag by simpa using chosen]

theorem countP_tagged
    (checked : ∀ entry ∈ variants.zipIdx, checkTag variants entry.2 entry.1 path = .ok ()) :
    ((variants.countP fun variant => accepts variant value) == 1) =
      variants.any fun variant => accepts variant value := by
  apply countP_eq_one
  rw [List.pairwise_iff_getElem]
  intro first second firstBound secondBound before firstAccepts
  rw [Bool.eq_false_iff]
  intro secondAccepts
  have each {index : ℕ} (bound : index < variants.length) :
      checkTag variants index variants[index] path = .ok () :=
    checked (variants[index], index) (List.mem_zipIdx_iff_getElem?.mpr (by simp [bound]))
  obtain ⟨tag, entries, tagged, _, same, carried⟩ := accepts_tagged (each firstBound) firstAccepts
  obtain ⟨other, _, _, fresh, again, also⟩ := accepts_tagged (each secondBound) secondAccepts
  subst same
  cases again
  cases carried.symm.trans also
  apply fresh
  refine List.mem_filterMap.mpr ⟨variants[first], ?_, tagged⟩
  exact List.mem_take_iff_getElem.mpr ⟨first, by omega, rfl⟩

/-! The branches of a type array share its choices, and the keywords a branch
drops say nothing about the values of its kind. -/

omit value in
theorem unionVariant_eq_some {kind : Kind} {child : Value}
    (branch : unionVariant object kind = some child) :
    ∃ entries, child = .object entries ∧ ∀ key, entries.lookup key =
      if key = "type" then (object.lookup "type").map fun _ => .string kind.name
      else if keptBy kind key ∧ (kind = .null → key ≠ "const" ∧ key ≠ "enum") then object.lookup key
      else none := by
  have kept (key : String) : (replace "type" (.string kind.name)
      (object.filter fun entry => keptBy kind entry.1)).lookup key =
      if key = "type" then (object.lookup "type").map fun _ => .string kind.name
      else if keptBy kind key then object.lookup key else none := by
    rw [lookup_replace, lookup_filter, lookup_filter]
    cases kind <;> rfl
  simp only [unionVariant] at branch
  split at branch
  · rename_i isNull
    split at branch
    · cases branch
    · refine ⟨_, (Option.some.inj branch).symm, fun key => ?_⟩
      rw [lookup_remove, lookup_remove, kept]
      by_cases isType : key = "type"
      · simp [isType]
      · by_cases isConst : key = "const"
        · simp [isConst, isNull]
        · by_cases isEnum : key = "enum"
          · simp [isEnum, isNull]
          · simp [isType, isConst, isEnum]
  · rename_i notNull
    refine ⟨_, (Option.some.inj branch).symm, fun key => ?_⟩
    simp [kept, notNull]

omit value in
/-- Only the null branch can be excluded, by the choices of the whole array. -/
theorem unionVariant_isSome (object : Map) (kind : Kind) :
    (unionVariant object kind).isSome =
      (kind != .null || choiceAccepts (.object object) .null) := by
  simp only [unionVariant]
  split
  · rename_i isNull
    subst isNull
    have kept (key : String) (choice : key ∈ ["const", "enum"]) :
        (replace "type" (.string Kind.null.name)
          (object.filter fun entry => keptBy .null entry.1)).lookup key = object.lookup key := by
      rw [lookup_replace, lookup_filter, lookup_filter, if_neg (by revert key; decide),
        if_pos (by revert key; decide)]
    rw [kept "const" (by decide), kept "enum" (by decide), apply_ite Option.isSome]
    have listed : ((object.lookup "enum").getD .null).asArray =
        (object.lookup "enum").bind Value.asArray := by
      cases object.lookup "enum" <;> rfl
    simp only [choiceAccepts, Value.get?_object, Value.index_object, listed]
    generalize (object.lookup "enum").bind Value.asArray = choices
    cases object.lookup "const" <;> cases choices <;> simp [beq_eq_decide]
  · rename_i notNull
    simp [notNull]

theorem accepts_unionVariant (kind : Kind) (typed : object.lookup "type" = some (.array types))
    (bare : ∀ key ∈ ["oneOf", "anyOf"], object.lookup key = none) :
    ((unionVariant object kind).any fun child => accepts child value) =
      (kind.accepts value && choiceAccepts (.object object) value &&
        numberAccepts (.object object) value && partsAccept accepts (.object object) value) := by
  have reached := unionVariant_isSome object kind
  cases branch : unionVariant object kind with
  | none =>
    rw [branch] at reached
    obtain ⟨isNull, excluded⟩ := Bool.or_eq_false_iff.mp reached.symm
    have isNull : kind = .null := by simpa using isNull
    subst isNull
    cases value with
    | null => simp [excluded]
    | _ => rfl
  | some child =>
    rw [branch] at reached
    obtain ⟨entries, same, found⟩ := unionVariant_eq_some branch
    subst same
    have childTyped : entries.lookup "type" = some (.string kind.name) := by
      simp [found, typed]
    have noUnion (key : String) (union : key ∈ ["oneOf", "anyOf"]) : entries.lookup key = none := by
      rw [found, bare key union, if_neg (by revert key; decide), ite_self]
    rw [Option.any_some, accepts_typed value childTyped (noUnion _ (by decide))
      (noUnion _ (by decide))]
    cases accepted : kind.accepts value with
    | false => rfl
    | true =>
      have kept (key : String)
          (own : keptBy kind key = true ∧ (kind = .null → key ≠ "const" ∧ key ≠ "enum"))
          (untyped : key ≠ "type") : entries.lookup key = object.lookup key := by
        rw [found, if_neg untyped, if_pos own]
      have choices (notNull : kind ≠ .null) :
          choiceAccepts (.object entries) value = choiceAccepts (.object object) value := by
        have own (key : String) (choice : key ∈ ["const", "enum"]) :
            entries.lookup key = object.lookup key := by
          refine kept key ⟨?_, fun isNull => absurd isNull notNull⟩ (by revert key; decide)
          rw [keptBy, show ["enum", "const"].contains key = true by revert key; decide, Bool.or_true]
        simp only [choiceAccepts, Value.get?_object, Value.index_object, own "const" (by decide),
          own "enum" (by decide)]
      have numbers (numeric : kind = .integer ∨ kind = .number) :
          numberAccepts (.object entries) value = numberAccepts (.object object) value := by
        apply numberAccepts_congr
        intro key bound
        refine kept key ⟨?_, ?_⟩ (by revert key; decide)
        · rcases numeric with same | same <;> subst same <;> revert key <;> decide
        · rcases numeric with same | same <;> subst same <;> simp
      cases kind with
      | null =>
        cases value with
        | null =>
          have admitted : choiceAccepts (.object object) .null = true := by simpa using reached.symm
          rw [admitted]
          simp [choiceAccepts, found, Value.asArray, numberAccepts, Value.asNumber, partsAccept]
        | _ => cases accepted
      | boolean =>
        cases value with
        | bool value => rw [choices (by simp)]; rfl
        | _ => cases accepted
      | string =>
        cases value with
        | string text =>
          rw [choices (by simp)]
          simp only [numberAccepts, partsAccept, Value.index_object,
            kept "minLength" (by decide) (by decide), kept "maxLength" (by decide) (by decide)]
          rfl
        | _ => cases accepted
      | integer =>
        cases value with
        | number number => rw [choices (by simp), numbers (.inl rfl)]; rfl
        | _ => cases accepted
      | number =>
        cases value with
        | number number => rw [choices (by simp), numbers (.inr rfl)]; rfl
        | _ => cases accepted
      | array =>
        cases value with
        | array items =>
          rw [choices (by simp)]
          simp only [numberAccepts, partsAccept, Value.index_object, Value.get?_object,
            kept "minItems" (by decide) (by decide), kept "maxItems" (by decide) (by decide),
            kept "items" (by decide) (by decide)]
          rfl
        | _ => cases accepted
      | object =>
        cases value with
        | object fields =>
          rw [choices (by simp)]
          simp only [numberAccepts, partsAccept, requiredAccepts, isOpen, Value.index_object,
            Value.get?_object, kept "required" (by decide) (by decide),
            kept "properties" (by decide) (by decide),
            kept "additionalProperties" (by decide) (by decide)]
          rfl
        | _ => cases accepted

/-- A type array accepts what one of its branches accepts. -/
theorem accepts_typeUnion (typed : object.lookup "type" = some (.array types))
    (split : typeUnionVariants object types path = .ok variants) :
    accepts (.object object) value = variants.any fun variant => accepts variant value := by
  obtain ⟨kinds, union, same⟩ := typeUnionVariants_schema split
  subst same
  have bare (key : String) (keyword : key ∈ ["oneOf", "anyOf"]) : object.lookup key = none := by
    refine union.unknown (unionKeyword_foreign ?_)
    simpa using keyword
  have named : typeAccepts (.object object) value = kinds.any fun kind => kind.accepts value := by
    simp only [typeAccepts, Value.get?_object, typed, Option.all_some, union.named, List.any_map,
      Function.comp_def, kindAccepts_name]
  have branches : ((kinds.filterMap (unionVariant object)).any fun variant => accepts variant value) =
      kinds.any fun kind => kind.accepts value && (choiceAccepts (.object object) value &&
        (numberAccepts (.object object) value && partsAccept accepts (.object object) value)) := by
    rw [List.any_filterMap]
    congr 1
    funext kind
    have split := accepts_unionVariant value kind typed bare
    rw [Bool.and_assoc, Bool.and_assoc] at split
    rw [← split]
    cases unionVariant object kind <;> rfl
  rw [branches, accepts_eq, named, Value.index_object, Value.index_object, bare "anyOf" (by decide),
    bare "oneOf" (by decide)]
  simp only [Option.getD_none, Value.asArray, Option.all_none, Bool.and_true, Bool.and_assoc]
  generalize (choiceAccepts (.object object) value && (numberAccepts (.object object) value &&
    partsAccept accepts (.object object) value)) = rest
  cases rest <;> simp

/-! Pruning drops only choices and branches that no value fits. -/

omit value in
theorem Shape.output_form {output : Value} (shape : Shape mode normal schema output) :
    (∃ outputs, output = Schema.anyOf outputs) ∨ ∃ entries, output = .object entries ∧
      entries.lookup "oneOf" = none ∧ entries.lookup "anyOf" = none := by
  cases shape with
  | oneOf => exact .inl ⟨_, rfl⟩
  | anyOf => exact .inl ⟨_, rfl⟩
  | typeUnion => exact .inl ⟨_, rfl⟩
  | object => exact .inr ⟨_, rfl, by simp [lookup_closedObject], by simp [lookup_closedObject]⟩
  | array => exact .inr ⟨_, rfl, by simp [lookup_arrayMap], by simp [lookup_arrayMap]⟩
  | @scalar object kind _ _ _ _ constrained =>
    obtain ⟨bounded, same, kept⟩ := constrainNumber_constrained constrained
    have missing (key : String) (union : key ∈ ["oneOf", "anyOf"]) : bounded.lookup key = none := by
      rw [kept.untouched key (by revert key; decide), lookup_copyConstraints,
        if_neg (by cases kind <;> revert key <;> decide), lookup_typed,
        if_neg (by revert key; decide)]
    exact .inr ⟨bounded, same, missing _ (by decide), missing _ (by decide)⟩

/-- Keeping some of the choices keeps the values among them. -/
theorem fits_narrowed {entries : Map} {choices viable : List Value}
    (noOneOf : entries.lookup "oneOf" = none) (noAnyOf : entries.lookup "anyOf" = none)
    (enum : entries.lookup "enum" = some (.array choices)) (narrower : viable ⊆ choices) :
    fits value (.object (insert "enum" (.array viable) entries)) =
      (fits value (.object entries) && viable.contains value) := by
  rw [fits_plain value (by simpa using noOneOf) (by simpa using noAnyOf),
    fits_plain value noOneOf noAnyOf]
  have typed : matchesType value (.object (insert "enum" (.array viable) entries)) =
      matchesType value (.object entries) := by
    simp [matchesType]
  have bounded : matchesBounds value (.object (insert "enum" (.array viable) entries)) =
      matchesBounds value (.object entries) := by
    simp [matchesBounds, bounds]
  have parts : partsFit fits value (.object (insert "enum" (.array viable) entries)) =
      partsFit fits value (.object entries) := by
    cases value <;> simp [partsFit]
  have narrowed : matchesChoice value (.object (insert "enum" (.array viable) entries)) =
      (matchesChoice value (.object entries) && viable.contains value) := by
    simp only [matchesChoice, Value.get?_object, Value.index_object, lookup_insert, enum]
    by_cases held : value ∈ viable
    · simp [Value.asArray, held, narrower held]
    · simp [Value.asArray, held]
  rw [typed, bounded, parts, narrowed]
  ac_rfl

theorem fits_prune {output : Value} (shape : Shape mode normal schema output) (path : String) :
    ((pruneVariant output path).any fun pruned => fits value pruned) = fits value output := by
  rcases shape.output_form with ⟨outputs, same⟩ | ⟨entries, same, noOneOf, noAnyOf⟩
  · subst same
    rfl
  subst same
  have choice (entry : Value) (fitting : fits entry (.object entries) = true) :
      matchesChoice entry (.object entries) = true := by
    rw [fits_plain entry noOneOf noAnyOf] at fitting
    simp only [Bool.and_eq_true] at fitting
    exact fitting.1.2
  simp only [pruneVariant, validateValue_isOk, Value.get?_object]
  split
  · rename_i excluded
    simp only [Option.any_eq_true, Bool.not_eq_true'] at excluded
    obtain ⟨constant, found, unfit⟩ := excluded
    rw [Option.any_none, eq_comm, Bool.eq_false_iff]
    intro fitting
    have chosen := choice value fitting
    simp only [matchesChoice, Value.get?_object, found, Option.all_some, Bool.and_eq_true,
      beq_iff_eq] at chosen
    rw [← chosen.1, unfit] at fitting
    cases fitting
  split
  · rename_i inner choices same listed
    cases same
    have enum : entries.lookup "enum" = some (.array choices) := by
      obtain ⟨_, same, found⟩ := Value.index_eq (Value.asArray_eq_some.mp listed) (by simp)
      cases same
      exact found
    have chosen (fitting : fits value (.object entries) = true) :
        value ∈ choices.filter fun choice => fits choice (.object entries) := by
      have member := choice value fitting
      simp only [matchesChoice, Value.index_object, enum, Option.getD_some, Value.asArray,
        Option.all_some, Bool.and_eq_true, List.contains_iff_mem] at member
      exact List.mem_filter.mpr ⟨member.2, fitting⟩
    split
    · rename_i empty
      rw [Option.any_none, eq_comm, Bool.eq_false_iff]
      intro fitting
      simpa [List.isEmpty_iff.mp empty] using chosen fitting
    · rw [Option.any_some, fits_narrowed value noOneOf noAnyOf enum List.filter_sublist.subset]
      cases fitting : fits value (.object entries) with
      | false => rfl
      | true => simpa using chosen fitting
  · rfl

end

end ExomonadHarness.Schema
