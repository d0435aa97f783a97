import ExomonadHarness.Schema.Preservation

/-! The strict schema and the argument decoder of a host schema come from two
separate traversals. A plan says, for each form of schema, how the two results
fit together. -/

namespace ExomonadHarness.Schema

open Json Checked OrderedMap Reference

/-- Both traversals of a schema succeed, with these results. -/
structure Planned (schema normalized : Value) (projection : ArgumentProjection) : Prop where
  normal : normalizeSchemaMode schema "$" .hostProjection = .ok normalized
  projected : ArgumentProjection.new schema = .ok projection
  formed : schema.wellFormed = true

/-- The alternatives of a schema: its variants, or the branches of its type
array. -/
def branches (object : Map) : List Value :=
  match ((object.lookup "anyOf").bind Value.asArray).or ((object.lookup "oneOf").bind Value.asArray) with
  | some variants => variants
  | none =>
    match object.lookup "type" with
    | some (.array types) => (typeUnionVariants object types "$").toOption.getD []
    | _ => []

/-- How the strict schema and the decoder of an object are built from those of its
properties. -/
structure ObjectPlan (object properties outputs : Map)
    (fields : List (String × Bool × ArgumentProjection)) : Prop where
  kinded : KindSchema object .object
  closed : ObjectSchema object properties .hostProjection
  propertiesOrdered : Ordered properties
  outputsOrdered : Ordered outputs
  sameFields : keys fields = keys properties
  parts : ∀ name, properties.lookup name = none ∧ outputs.lookup name = none ∨
    ∃ property normalized projection, properties.lookup name = some property ∧
      Planned property normalized projection ∧
      outputs.lookup name = some (carryOmission object name normalized "$") ∧
      fields.lookup name = some (!isRequired object name && !fits .null normalized, projection)

/-- How the strict schema and the decoder of one schema are built from those of
its parts. -/
inductive Plan : Value → Value → ArgumentProjection → Prop where
  | union {object : Map} {normalized : Value} {variants : List (Value × ArgumentProjection)}
      (untyped : ∀ name, object.lookup "type" ≠ some (.string name))
      (children : List.Forall₂ (fun branch variant => Planned branch variant.1 variant.2 ∧
        branch.size < (Value.object object).size) (branches object) variants)
      (meaning : ∀ value, accepts (.object object) value =
        (branches object).any fun branch => accepts branch value)
      (fitting : ∀ value, fits value normalized = variants.any fun variant => fits value variant.1) :
      Plan (.object object) normalized (.alternatives variants)
  | object {object properties outputs : Map} {fields : List (String × Bool × ArgumentProjection)}
      (plan : ObjectPlan object properties outputs fields) :
      Plan (.object object) (.object (closedObject outputs)) (.object fields)
  | array {object : Map} {items normalized : Value} {projection : ArgumentProjection}
      (kinded : KindSchema object .array) (found : object.lookup "items" = some items)
      (child : Planned items normalized projection) :
      Plan (.object object) (.object (copyConstraints object
        (insert "items" normalized (typed .array)) Kind.array.constraints)) (.array projection)
  | scalar {object : Map} {kind : Kind} {normalized : Value} (kinded : KindSchema object kind)
      (partless : kind ≠ .object ∧ kind ≠ .array)
      (meaning : ∀ value, fits value normalized = accepts (.object object) value) :
      Plan (.object object) normalized .identity

section

variable {object : Map} {normalized : Value} {projection : ArgumentProjection}

theorem planned_iff {variant output : Value} {inner : ArgumentProjection} :
    (do
      let normalized ← normalizeSchema variant "$"
      let projection ← ArgumentProjection.new variant
      return (normalized, projection)) = Except.ok (output, inner) ↔
      normalizeSchemaMode variant "$" .hostProjection = .ok output ∧
        ArgumentProjection.new variant = .ok inner := by
  simp only [bind_eq_ok, pure_eq_ok, normalizeSchema, Prod.mk.injEq]
  constructor
  · rintro ⟨_, normal, _, projected, same, also⟩
    subst same also
    exact ⟨normal, projected⟩
  · rintro ⟨normal, projected⟩
    exact ⟨output, normal, inner, projected, rfl, rfl⟩

/-- The decoder of a schema with alternatives decodes each of them. -/
theorem new_union {variants : List Value}
    (found : ((object.lookup "anyOf").bind Value.asArray).or
      ((object.lookup "oneOf").bind Value.asArray) = some variants)
    (projected : ArgumentProjection.new (.object object) = .ok projection) :
    ∃ entries, projection = .alternatives entries ∧ List.Forall₂ (fun variant entry =>
      normalizeSchemaMode variant "$" .hostProjection = .ok entry.1 ∧
        ArgumentProjection.new variant = .ok entry.2) variants entries := by
  have listed (key : String) : (Value.index (.object object) key).asArray =
      (object.lookup key).bind Value.asArray := by
    rw [Value.index_object]
    cases object.lookup key <;> rfl
  rw [ArgumentProjection.new.eq_def] at projected
  split at projected
  · rename_i several union
    rw [listed, listed, found] at union
    cases union
    simp only [bind_eq_ok, pure_eq_ok] at projected
    obtain ⟨entries, children, same⟩ := projected
    refine ⟨entries, same.symm, (mapM_attach_eq_ok ?_).mp children⟩
    rintro variant _ ⟨output, inner⟩
    exact planned_iff
  · rename_i missing
    rw [listed, listed, found] at missing
    cases missing

/-- A schema of one kind has no alternatives. -/
theorem unionless (noOneOf : object.lookup "oneOf" = none) (noAnyOf : object.lookup "anyOf" = none) :
    (Value.index (.object object) "anyOf").asArray.or
      (Value.index (.object object) "oneOf").asArray = none := by
  rw [Value.index_object, Value.index_object, noOneOf, noAnyOf]
  rfl

theorem new_typeUnion {types variants : List Value} (noOneOf : object.lookup "oneOf" = none)
    (noAnyOf : object.lookup "anyOf" = none) (found : object.lookup "type" = some (.array types))
    (split : typeUnionVariants object types "$" = .ok variants)
    (projected : ArgumentProjection.new (.object object) = .ok projection) :
    ∃ entries, projection = .alternatives entries ∧ List.Forall₂ (fun variant entry =>
      normalizeSchemaMode variant "$" .hostProjection = .ok entry.1 ∧
        ArgumentProjection.new variant = .ok entry.2) variants entries := by
  rw [ArgumentProjection.new.eq_def] at projected
  split at projected
  · rename_i union
    cases union.symm.trans (unionless noOneOf noAnyOf)
  dsimp only at projected
  split at projected
  · rename_i present
    cases present.symm.trans found
    split at projected
    · cases projected
    · rename_i divided
      cases divided.symm.trans split
      simp only [bind_eq_ok, pure_eq_ok] at projected
      obtain ⟨entries, children, same⟩ := projected
      refine ⟨entries, same.symm, (mapM_attach_eq_ok ?_).mp children⟩
      rintro variant _ ⟨output, inner⟩
      exact planned_iff
  · rename_i present
    cases present.symm.trans found
  · rename_i present
    cases present.symm.trans found
  · rename_i other _ _
    exact absurd found (other types)

/-- The decoder of a schema of one kind. -/
theorem new_kinded {kind : Kind} (kinded : KindSchema object kind)
    (projected : ArgumentProjection.new (.object object) = .ok projection) :
    (kind = .object → ∀ properties, object.lookup "properties" = some (.object properties) →
      ∃ fields, projection = .object fields ∧ List.Forall₂ (fun entry field => entry.1 = field.1 ∧
        ∃ normalized, normalizeSchemaMode entry.2 "$" .hostProjection = .ok normalized ∧
          ArgumentProjection.new entry.2 = .ok field.2.2 ∧
          field.2.1 = (!isRequired object entry.1 && !fits .null normalized)) properties fields) ∧
    (kind = .array → ∀ items, object.lookup "items" = some items →
      ∃ inner, projection = .array inner ∧ ArgumentProjection.new items = .ok inner) ∧
    (kind ≠ .object ∧ kind ≠ .array → projection = .identity) := by
  obtain ⟨noOneOf, noAnyOf, _⟩ := kinded.single
  rw [ArgumentProjection.new.eq_def] at projected
  split at projected
  · rename_i union
    cases union.symm.trans (unionless noOneOf noAnyOf)
  dsimp only at projected
  split at projected
  · rename_i present
    cases present.symm.trans kinded.typed
  · rename_i present
    obtain rfl : .object = kind := kinded.kind_eq _ present
    refine ⟨fun _ properties declared => ?_, by simp, by simp⟩
    simp only [bind_eq_ok, pure_eq_ok] at projected
    obtain ⟨fields, children, same⟩ := projected
    refine ⟨fields, same.symm, ?_⟩
    have listed : Value.entries ((object.lookup "properties").getD .null) = properties := by
      rw [declared]
      rfl
    rw [← listed]
    refine (mapM_attach_eq_ok ?_).mp children
    rintro ⟨name, property⟩ _ ⟨fieldName, omitNull, inner⟩
    simp only [bind_eq_ok, pure_eq_ok, normalizeSchema, Prod.mk.injEq, validateValue_isOk]
    constructor
    · rintro ⟨normalized, normal, _, projected, same, omitted, also⟩
      subst also
      exact ⟨same, normalized, normal, projected, omitted.symm⟩
    · rintro ⟨same, normalized, normal, projected, omitted⟩
      exact ⟨normalized, normal, inner, projected, same, omitted.symm, rfl⟩
  · rename_i present
    obtain rfl : .array = kind := kinded.kind_eq _ present
    refine ⟨by simp, fun _ items found => ?_, by simp⟩
    split at projected
    · rename_i absent
      cases absent.symm.trans found
    · rename_i present
      cases present.symm.trans found
      simp only [bind_eq_ok, pure_eq_ok] at projected
      obtain ⟨inner, projected, same⟩ := projected
      exact ⟨inner, same.symm, projected⟩
  · rename_i _ noObject noArray
    cases projected
    refine ⟨?_, ?_, fun _ => rfl⟩
    · rintro rfl
      exact absurd kinded.typed noObject
    · rintro rfl
      exact absurd kinded.typed noArray

end

/-- A plan for the alternatives of a schema, from the two traversals of each. -/
theorem plan_alternatives {object : Map} {normalized : Value} {outputs : List Value}
    {entries : List (Value × ArgumentProjection)}
    (untyped : ∀ name, object.lookup "type" ≠ some (.string name))
    (normals : List.Forall₂ (fun branch output =>
      normalizeSchemaMode branch "$" .hostProjection = .ok output) (branches object) outputs)
    (alternatives : List.Forall₂ (fun branch entry =>
      normalizeSchemaMode branch "$" .hostProjection = .ok entry.1 ∧
        ArgumentProjection.new branch = .ok entry.2) (branches object) entries)
    (inner : ∀ branch ∈ branches object,
      branch.wellFormed = true ∧ branch.size < (Value.object object).size)
    (meaning : ∀ value, accepts (.object object) value =
      (branches object).any fun branch => accepts branch value)
    (fitting : ∀ value, fits value normalized = outputs.any fun output => fits value output) :
    Plan (.object object) normalized (.alternatives entries) := by
  have same : outputs = entries.map Prod.fst := by
    have again : List.Forall₂ (fun branch output =>
        normalizeSchemaMode branch "$" .hostProjection = .ok output) (branches object)
        (entries.map Prod.fst) :=
      List.forall₂_map_right_iff.mpr (alternatives.imp fun _ _ both => both.1)
    refine List.right_unique_forall₂' ?_ normals again
    intro branch first second one two
    exact Except.ok.inj (one.symm.trans two)
  refine .union untyped (forall₂_mem alternatives fun branch member entry _ both => ?_) meaning ?_
  · obtain ⟨formed, smaller⟩ := inner branch member
    exact ⟨⟨both.1, both.2, formed⟩, smaller⟩
  · intro value
    rw [fitting, same, List.any_map]
    rfl

/-- `oneOf` and `anyOf`. -/
theorem plan_union {object : Map} {normalized : Value} {projection : ArgumentProjection}
    {keyword : String} {variants outputs : List Value}
    (found : object.lookup keyword = some (.array variants))
    (union : ((object.lookup "anyOf").bind Value.asArray).or
      ((object.lookup "oneOf").bind Value.asArray) = some variants)
    (untyped : object.lookup "type" = none) (formed : (Value.object object).wellFormed = true)
    (projected : ArgumentProjection.new (.object object) = .ok projection)
    (normals : List.Forall₂ (fun branch output =>
      normalizeSchemaMode branch "$" .hostProjection = .ok output) variants outputs)
    (meaning : ∀ value, accepts (.object object) value =
      variants.any fun branch => accepts branch value)
    (fitting : ∀ value, fits value normalized = outputs.any fun output => fits value output) :
    Plan (.object object) normalized projection := by
  have listed : branches object = variants := by rw [branches, union]
  obtain ⟨entries, same, alternatives⟩ := new_union union projected
  subst same listed
  refine plan_alternatives (by simp [untyped]) normals alternatives ?_ meaning fitting
  intro branch member
  exact ⟨wellFormed_variant formed found branch member,
    (Value.size_lt_array member).trans (Value.size_lt_object found)⟩

/-- The strict schema and the decoder of an object have the same properties. -/
theorem ObjectPlan.of_properties {object properties outputs : Map}
    {fields : List (String × Bool × ArgumentProjection)} (kinded : KindSchema object .object)
    (closed : ObjectSchema object properties .hostProjection)
    (formed : (Value.object properties).wellFormed = true)
    (children : List.Forall₂ (PropertyNormal (fun property normalized =>
      normalizeSchemaMode property "$" .hostProjection = .ok normalized) object) properties outputs)
    (projections : List.Forall₂ (fun entry field => entry.1 = field.1 ∧ ∃ normalized,
      normalizeSchemaMode entry.2 "$" .hostProjection = .ok normalized ∧
        ArgumentProjection.new entry.2 = .ok field.2.2 ∧
        field.2.1 = (!isRequired object entry.1 && !fits .null normalized)) properties fields) :
    ObjectPlan object properties outputs fields := by
  obtain ⟨ordered, formedEach⟩ := Value.wellFormed_object.mp formed
  refine ⟨kinded, closed, ordered, closedObject_ordered children ordered, ?_, fun name => ?_⟩
  · exact (keys_related (projections.imp fun _ _ both => both.1)).symm
  rcases closedObject_parts children name with
    absent | ⟨property, normalized, declared, normal, written⟩
  · exact .inl absent
  rcases lookup_related (fun name property (field : Bool × ArgumentProjection) => ∃ normalized,
    normalizeSchemaMode property "$" .hostProjection = .ok normalized ∧
      ArgumentProjection.new property = .ok field.2 ∧
      field.1 = (!isRequired object name && !fits .null normalized)) projections name with
    ⟨missing, _⟩ | ⟨_, ⟨omitNull, projection⟩, also, found, _, again, inner, same⟩
  · cases declared.symm.trans missing
  · cases declared.symm.trans also
    cases normal.symm.trans again
    dsimp only at inner same
    subst same
    exact .inr ⟨property, normalized, projection, declared,
      ⟨normal, inner, formedEach _ (mem_of_lookup declared)⟩, written, found⟩

theorem Planned.plan {schema normalized : Value} {projection : ArgumentProjection}
    (planned : Planned schema normalized projection) : Plan schema normalized projection := by
  obtain ⟨normal, projected, formed⟩ := planned
  cases normalizeSchemaMode_iff.mp normal with
  | @oneOf object variants outputs metadata found host alone nonempty children =>
    have noAnyOf : object.lookup "anyOf" = none := lookup_eq_none_of_keys alone (by decide)
    have checked : ∀ entry ∈ variants.zipIdx, checkTag variants entry.2 entry.1 "$" = .ok () :=
      forall_left_of_forall₂ (children.imp fun _ _ both => both.1)
    refine plan_union found ?_ (lookup_eq_none_of_keys alone (by decide)) formed projected
      (forall₂_zipIdx.mp (children.imp fun _ _ both => both.2)) ?_
      fun value => fits_anyOf value outputs
    · rw [found, noAnyOf]
      rfl
    · intro value
      rw [accepts_oneOf value alone found, countP_tagged value checked]
  | @anyOf object variants outputs metadata found alone nonempty children =>
    refine plan_union found ?_ (lookup_eq_none_of_keys alone (by decide)) formed projected children
      (fun value => accepts_anyOf value alone found) fun value => fits_anyOf value outputs
    rw [found]
    rfl
  | @typeUnion object types variants outputs metadata found split children satisfiable =>
    obtain ⟨kinds, union, several⟩ := typeUnionVariants_schema split
    have noOneOf := union.unknown (unionKeyword_foreign (.inl rfl))
    have noAnyOf := union.unknown (unionKeyword_foreign (.inr rfl))
    have listed : branches object = variants := by
      rw [branches, noOneOf, noAnyOf, found]
      simp [split, Except.toOption]
    obtain ⟨entries, same, alternatives⟩ := new_typeUnion noOneOf noAnyOf found split projected
    subst same listed
    refine plan_alternatives (by simp [found]) children alternatives ?_ ?_ ?_
    · intro branch member
      obtain ⟨kind, _, branched⟩ := List.mem_filterMap.mp (several ▸ member)
      exact ⟨unionVariant_wellFormed formed branched, typeUnionVariants_size found split member⟩
    · exact fun value => accepts_typeUnion value found split
    · exact fun value => fits_typeUnion value children
  | @object object properties outputs metadata kinded closed children =>
    obtain ⟨fields, same, projections⟩ := (new_kinded kinded projected).1 rfl _ closed.declared
    subst same
    have propertiesFormed := Value.wellFormed_of_lookup formed closed.declared
    exact .object (.of_properties kinded closed propertiesFormed children projections)
  | @array object items normalized metadata kinded found child =>
    obtain ⟨inner, same, below⟩ := (new_kinded kinded projected).2.1 rfl _ found
    subst same
    exact .array kinded found ⟨child, below, Value.wellFormed_of_lookup formed found⟩
  | scalar metadata kinded partless constrained =>
    rw [(new_kinded kinded projected).2.2 partless]
    exact .scalar kinded partless fun value => fits_scalar value kinded partless constrained

end ExomonadHarness.Schema
