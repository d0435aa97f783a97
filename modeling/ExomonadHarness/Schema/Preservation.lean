import ExomonadHarness.Schema.Acceptance

/-! Normalization keeps the meaning of a schema: the strict form of a schema
that requires all its properties admits exactly what the schema means. -/

namespace ExomonadHarness.Schema

open Json Checked OrderedMap Reference

/-- The objects of the schema, at every level, require all their properties. -/
def allRequired (schema : Value) : Bool :=
  ((schema.index "properties").entries.attach.all fun ⟨(name, property), _member⟩ =>
    isRequired schema.entries name && allRequired property) &&
  (match _items : schema.get? "items" with
    | none => true
    | some items => allRequired items) &&
  ((schema.index "anyOf").items.attach.all fun ⟨variant, _member⟩ => allRequired variant) &&
  (schema.index "oneOf").items.attach.all fun ⟨variant, _member⟩ => allRequired variant
termination_by schema.size
decreasing_by
  · have inner : property.size < (schema.index "properties").size :=
      Value.size_lt_of_mem_entries _member
    exact inner.trans_le (Value.index_size_le schema "properties")
  · exact Value.size_get?_lt _items
  · exact (Value.size_lt_of_mem_items _member).trans_le (Value.index_size_le schema "anyOf")
  · exact (Value.size_lt_of_mem_items _member).trans_le (Value.index_size_le schema "oneOf")

theorem allRequired_iff {object : Map} :
    allRequired (.object object) = true ↔
      (∀ properties, object.lookup "properties" = some (.object properties) →
        ∀ entry ∈ properties, isRequired object entry.1 = true ∧ allRequired entry.2 = true) ∧
      (∀ items, object.lookup "items" = some items → allRequired items = true) ∧
      ∀ keyword ∈ ["anyOf", "oneOf"], ∀ variants, object.lookup keyword = some (.array variants) →
        ∀ variant ∈ variants, allRequired variant = true := by
  have plain : allRequired (.object object) =
      ((Value.index (.object object) "properties").entries.all (fun entry =>
          isRequired object entry.1 && allRequired entry.2) &&
        (object.lookup "items").all allRequired &&
        (Value.index (.object object) "anyOf").items.all allRequired &&
        (Value.index (.object object) "oneOf").items.all allRequired) := by
    rw [allRequired.eq_def, all_attach fun _ _ => rfl, all_attach fun _ _ => rfl,
      all_attach fun _ _ => rfl]
    congr 3
    split
    · rename_i absent
      rw [← Value.get?_object, absent]
      rfl
    · rename_i items found
      rw [← Value.get?_object, found]
      rfl
  have entries (holds : String × Value → Prop) :
      (∀ entry ∈ (Value.index (.object object) "properties").entries, holds entry) ↔
        ∀ properties, object.lookup "properties" = some (.object properties) →
          ∀ entry ∈ properties, holds entry := by
    rw [Value.index_object]
    rcases object.lookup "properties" with _ | (_ | _ | _ | _ | _ | _) <;>
      simp [Value.entries, Value.asObject]
  have variants (keyword : String) (holds : Value → Prop) :
      (∀ variant ∈ (Value.index (.object object) keyword).items, holds variant) ↔
        ∀ variants, object.lookup keyword = some (.array variants) →
          ∀ variant ∈ variants, holds variant := by
    rw [Value.index_object]
    rcases object.lookup keyword with _ | (_ | _ | _ | _ | _ | _) <;>
      simp [Value.items, Value.asArray]
  rw [plain]
  simp only [Bool.and_eq_true, List.all_eq_true, entries, variants, Option.all_eq_true,
    List.forall_mem_cons, List.not_mem_nil, false_imp_iff, implies_true, and_true, and_assoc]

theorem unionVariant_wellFormed {object : Map} {kind : Kind} {child : Value}
    (formed : (Value.object object).wellFormed = true)
    (branch : unionVariant object kind = some child) : child.wellFormed = true := by
  obtain ⟨ordered, each⟩ := Value.wellFormed_object.mp formed
  have kept : (Value.object (replace "type" (.string kind.name)
      (object.filter fun entry => keptBy kind entry.1))).wellFormed = true := by
    refine Value.wellFormed_object.mpr ⟨(ordered.filter _).replace _ _, ?_⟩
    intro entry member
    obtain ⟨source, held, same⟩ := List.mem_map.mp member
    subst same
    split
    · rfl
    · exact each source (List.mem_of_mem_filter held)
  simp only [unionVariant] at branch
  split at branch
  · split at branch
    · cases branch
    · obtain ⟨ordered, each⟩ := Value.wellFormed_object.mp kept
      rw [← Option.some.inj branch]
      refine Value.wellFormed_object.mpr ⟨(ordered.remove _).remove _, ?_⟩
      intro entry member
      exact each entry (List.mem_of_mem_filter (List.mem_of_mem_filter member))
  · rw [← Option.some.inj branch]
    exact kept

theorem unionVariant_allRequired {object : Map} {kind : Kind} {child : Value}
    (required : allRequired (.object object) = true)
    (branch : unionVariant object kind = some child) : allRequired child = true := by
  obtain ⟨entries, same, found⟩ := unionVariant_eq_some branch
  subst same
  have kept {key : String} {value : Value} (untyped : key ≠ "type")
      (held : entries.lookup key = some value) : object.lookup key = some value := by
    rw [found, if_neg untyped] at held
    split at held
    · exact held
    · cases held
  obtain ⟨properties, items, variants⟩ := allRequired_iff.mp required
  refine allRequired_iff.mpr ⟨?_, ?_, ?_⟩
  · intro declared held entry member
    obtain ⟨demanded, below⟩ := properties declared (kept (by decide) held) entry member
    have isObject : kind = .object := by
      rw [found] at held
      cases kind <;> first | rfl | (simp [keptBy, Kind.keywords, schemaMetadata] at held)
    subst isObject
    have listed : entries.lookup "required" = object.lookup "required" := by
      rw [found]
      rfl
    rw [isRequired, listed]
    exact ⟨demanded, below⟩
  · intro part held
    exact items part (kept (by decide) held)
  · intro keyword union parts held
    refine variants keyword union parts (kept ?_ held)
    rintro same
    subst same
    simp at union

theorem wellFormed_variant {object : Map} {keyword : String} {variants : List Value}
    (formed : (Value.object object).wellFormed = true)
    (found : object.lookup keyword = some (.array variants)) :
    ∀ variant ∈ variants, variant.wellFormed = true :=
  Value.wellFormed_array.mp (Value.wellFormed_of_lookup formed found)

variable {properties outputs : Map} {normal : Value → Value → Prop} {mode : SchemaMode}

/-- The keys and parts of a normalized object follow those of its source. -/
theorem closedObject_parts {object : Map}
    (children : List.Forall₂ (PropertyNormal normal object) properties outputs) (name : String) :
    properties.lookup name = none ∧ outputs.lookup name = none ∨
      ∃ property normalized, properties.lookup name = some property ∧ normal property normalized ∧
        outputs.lookup name = some (carryOmission object name normalized "$") := by
  have related : List.Forall₂ (fun entry output => entry.1 = output.1 ∧ ∃ normalized,
      normal entry.2 normalized ∧ carryOmission object entry.1 normalized "$" = output.2)
      properties outputs := by
    refine children.imp ?_
    rintro entry output ⟨normalized, normal, same⟩
    subst same
    exact ⟨rfl, normalized, normal, rfl⟩
  rcases lookup_related (fun name property output => ∃ normalized, normal property normalized ∧
    carryOmission object name normalized "$" = output) related name with
    absent | ⟨property, output, declared, found, normalized, normal, same⟩
  · exact .inl absent
  · subst same
    exact .inr ⟨property, normalized, declared, normal, found⟩

theorem closedObject_ordered {object : Map}
    (children : List.Forall₂ (PropertyNormal normal object) properties outputs)
    (ordered : Ordered properties) : Ordered outputs := by
  have same : keys properties = keys outputs := by
    refine keys_related (children.imp ?_)
    rintro entry output ⟨_, _, same⟩
    rw [← same]
  rw [ordered_iff_keys] at ordered ⊢
  rwa [← same]

theorem fits_object {object : Map} {value : Value} (kinded : KindSchema object .object)
    (closed : ObjectSchema object properties mode) (ordered : Ordered properties)
    (formed : value.wellFormed = true)
    (complete : ∀ name property, properties.lookup name = some property →
      isRequired object name = true)
    (children : List.Forall₂ (PropertyNormal normal object) properties outputs)
    (below : ∀ name property normalized child, properties.lookup name = some property →
      normal property normalized → child.wellFormed = true →
      fits child normalized = accepts property child) :
    fits value (.object (closedObject outputs)) = accepts (.object object) value := by
  cases value with
  | object entries =>
    obtain ⟨entriesOrdered, formedEach⟩ := Value.wellFormed_object.mp formed
    have parts := closedObject_parts children
    have sameKeys (name : String) :
        (outputs.lookup name).isSome ↔ (properties.lookup name).isSome := by
      rcases parts name with ⟨absent, missing⟩ | ⟨_, _, declared, _, found⟩
      · rw [absent, missing]
      · rw [declared, found]
        simp
    have meaning {name : String} {property output child : Value}
        (declared : properties.lookup name = some property)
        (found : outputs.lookup name = some output) (formed : child.wellFormed = true) :
        fits child output = accepts property child := by
      rcases parts name with ⟨absent, _⟩ | ⟨_, normalized, also, normal, written⟩
      · cases declared.symm.trans absent
      · cases declared.symm.trans also
        cases found.symm.trans written
        have carried : carryOmission object name normalized "$" = normalized := by
          simp [carryOmission, complete name property declared]
        rw [carried]
        exact below name property normalized child declared normal formed
    rw [Bool.eq_iff_iff, accepts_object_iff kinded closed,
      fits_closedObject_iff (closedObject_ordered children ordered) entriesOrdered]
    constructor
    · rintro ⟨present, each⟩
      refine ⟨?_, ?_⟩
      · intro name demanded
        exact (present name).mp ((sameKeys name).mpr (closed.declares demanded))
      · rintro ⟨name, child⟩ member
        have here := entriesOrdered.lookup_of_mem member
        obtain ⟨output, found⟩ := Option.isSome_iff_exists.mp ((present name).mpr (by simp [here]))
        obtain ⟨property, declared⟩ := Option.isSome_iff_exists.mp
          ((sameKeys name).mp (by simp [found]))
        refine ⟨property, declared, ?_⟩
        rw [← meaning declared found (formedEach _ member)]
        exact each name output child found here
    · rintro ⟨present, each⟩
      have held {name : String} {child : Value} (here : entries.lookup name = some child) :
          ∃ property, properties.lookup name = some property ∧ accepts property child = true :=
        each _ (mem_of_lookup here)
      refine ⟨fun name => ?_, ?_⟩
      · rw [sameKeys]
        constructor
        · intro declared
          obtain ⟨property, declared⟩ := Option.isSome_iff_exists.mp declared
          exact present name (complete name property declared)
        · intro here
          obtain ⟨child, here⟩ := Option.isSome_iff_exists.mp here
          obtain ⟨property, declared, _⟩ := held here
          simp [declared]
      · intro name output child found here
        obtain ⟨property, declared, accepted⟩ := held here
        rw [meaning declared found (formedEach _ (mem_of_lookup here))]
        exact accepted
  | _ =>
    rw [fits_closedObject, accepts_parted _ kinded (.inl rfl)]
    rfl

theorem fits_typeUnion {variants outputs : List Value} (value : Value)
    (children : List.Forall₂ (fun variant output =>
      normalizeSchemaMode variant "$" mode = .ok output) variants outputs) :
    fits value (anyOf (outputs.filterMap (pruneVariant · "$"))) =
      outputs.any fun output => fits value output := by
  have pruned : ∀ output ∈ outputs,
      ((pruneVariant output "$").any fun pruned => fits value pruned) = fits value output :=
    forall_left_of_forall₂ (children.flip.imp fun _ _ normal =>
      fits_prune value (normalizeSchemaMode_iff.mp normal) "$")
  rw [fits_anyOf, List.any_filterMap]
  refine any_of_forall₂ (List.forall₂_same.mpr fun output member => ?_)
  rw [← pruned output member]
  cases pruneVariant output "$" <;> rfl

/-- The strict form of a schema admits exactly the values the schema accepts,
once all properties are required. Null needs no such condition: it never
reaches a property. -/
theorem fits_normalized {schema output value : Value}
    (normal : normalizeSchemaMode schema "$" mode = .ok output)
    (schemaFormed : schema.wellFormed = true) (formed : value.wellFormed = true)
    (complete : value = .null ∨ allRequired schema = true) :
    fits value output = accepts schema value := by
  induction size : schema.size using Nat.strong_induction_on generalizing schema output value with
  | _ bound ih =>
    subst size
    cases normalizeSchemaMode_iff.mp normal with
    | @oneOf object variants outputs metadata found host alone nonempty children =>
      have checked : ∀ entry ∈ variants.zipIdx, checkTag variants entry.2 entry.1 "$" = .ok () :=
        forall_left_of_forall₂ (children.imp fun _ _ both => both.1)
      have normals : List.Forall₂ (fun variant output =>
          normalizeSchemaMode variant "$" mode = .ok output) variants outputs :=
        forall₂_zipIdx.mp (children.imp fun _ _ both => both.2)
      rw [fits_anyOf, accepts_oneOf value alone found, countP_tagged value checked]
      refine any_of_forall₂ (forall₂_mem normals fun variant member output _ normal => ?_)
      refine ih variant.size ?_ normal (wellFormed_variant schemaFormed found variant member) formed
        (complete.imp_right fun required => ?_) rfl
      · exact (Value.size_lt_array member).trans (Value.size_lt_object found)
      · exact (allRequired_iff.mp required).2.2 "oneOf" (by simp) variants found variant member
    | @anyOf object variants outputs metadata found alone nonempty children =>
      rw [fits_anyOf, accepts_anyOf value alone found]
      refine any_of_forall₂ (forall₂_mem children fun variant member output _ normal => ?_)
      refine ih variant.size ?_ normal (wellFormed_variant schemaFormed found variant member) formed
        (complete.imp_right fun required => ?_) rfl
      · exact (Value.size_lt_array member).trans (Value.size_lt_object found)
      · exact (allRequired_iff.mp required).2.2 "anyOf" (by simp) variants found variant member
    | @typeUnion object types variants outputs metadata found split children satisfiable =>
      rw [fits_typeUnion value children, accepts_typeUnion value found split]
      refine any_of_forall₂ (forall₂_mem children fun variant member output _ normal => ?_)
      obtain ⟨kinds, _, same⟩ := typeUnionVariants_schema split
      obtain ⟨kind, _, branch⟩ := List.mem_filterMap.mp (same ▸ member)
      exact ih variant.size (typeUnionVariants_size found split member) normal
        (unionVariant_wellFormed schemaFormed branch) formed
        (complete.imp_right fun required => unionVariant_allRequired required branch) rfl
    | @object object properties outputs metadata kinded closed children =>
      obtain isNull | required := complete
      · subst isNull
        rw [fits_closedObject, accepts_parted _ kinded (.inl rfl)]
        rfl
      have propertiesFormed := Value.wellFormed_of_lookup schemaFormed closed.declared
      obtain ⟨ordered, formedEach⟩ := Value.wellFormed_object.mp propertiesFormed
      have each := (allRequired_iff.mp required).1 properties closed.declared
      refine fits_object kinded closed ordered formed ?_ children ?_
      · intro name property declared
        exact (each _ (mem_of_lookup declared)).1
      · intro name property normalized child declared normal childFormed
        refine ih property.size ?_ normal (formedEach _ (mem_of_lookup declared)) childFormed
          (.inr (each _ (mem_of_lookup declared)).2) rfl
        exact (Value.size_lt_object declared).trans (Value.size_lt_object closed.declared)
    | @array object items normalized metadata kinded found child =>
      rw [fits_arrayMap, accepts_array value kinded found]
      cases value with
      | array children =>
        simp only [Value.asArray, Option.any_some]
        congr 1
        apply all_congr_of_mem
        intro part member
        refine ih items.size (Value.size_lt_object found) child
          (Value.wellFormed_of_lookup schemaFormed found) (Value.wellFormed_array.mp formed part member)
          (.inr ?_) rfl
        obtain absurdity | required := complete
        · cases absurdity
        · exact (allRequired_iff.mp required).2.1 items found
      | _ => rfl
    | scalar metadata kinded partless constrained =>
      exact fits_scalar value kinded partless constrained

theorem normalizeSchemaMode_path {schema output : Value} {path : String} (other : String)
    (passed : normalizeSchemaMode schema path mode = .ok output) :
    normalizeSchemaMode schema other mode = .ok output :=
  normalizeSchemaMode_iff.mpr (normalizeSchemaMode_iff.mp passed)

/-- Normalization neither drops nor invents a constraint: where all properties
are required, validation against the normalized schema is conformance to the
schema. -/
theorem normalizeSchema_accepts (schema value : Document) {path check : String} {normalized : Value}
    (complete : allRequired schema.value = true)
    (passed : normalizeSchema schema.value path = .ok normalized) :
    validateValue value.value normalized check = .ok () ↔
      accepts schema.value value.value = true := by
  have normal : normalizeSchemaMode schema.value "$" .hostProjection = .ok normalized :=
    normalizeSchemaMode_path "$" passed
  rw [validateValue_eq_ok,
    fits_normalized normal schema.wellFormed value.wellFormed (.inr complete)]

/-- Tagged variants, one of them with a nullable bounded level. -/
def taggedSchema : Document where
  value := .object [("oneOf", .array [
    .object [
      ("properties", .object [
        ("level", .object [("enum", .array [.number (.posInt 3), .string "low", .null]),
          ("format", .string "uint8"), ("type", .array [.string "integer", .string "null"])]),
        ("tag", .object [("enum", .array [.string "set"]), ("type", .string "string")])]),
      ("required", .array [.string "tag", .string "level"]), ("type", .string "object")],
    .object [
      ("properties", .object [
        ("tag", .object [("enum", .array [.string "reset"]), ("type", .string "string")])]),
      ("required", .array [.string "tag"]), ("type", .string "object")]])]
  wellFormed := by decide +kernel

def taggedValue : Document where
  value := .object [("level", .null), ("tag", .string "set")]
  wellFormed := by decide +kernel

theorem normalizeSchema_accepts_tagged : ∃ normalized,
    normalizeSchema taggedSchema.value "$" = .ok normalized ∧
      validateValue taggedValue.value normalized "$" = .ok () := by
  have checked : ((normalizeSchema taggedSchema.value "$").toOption.any fun _ => true) = true := by
    decide +kernel
  obtain ⟨normalized, passed, _⟩ := toOption_any checked
  refine ⟨normalized, passed, ?_⟩
  rw [normalizeSchema_accepts taggedSchema taggedValue (by decide +kernel) passed]
  decide +kernel

end ExomonadHarness.Schema
