import ExomonadHarness.Schema.Kind
import ExomonadHarness.Support.Checked

namespace ExomonadHarness.Schema

open Json Checked

def matchesType (value schema : Value) : Bool :=
  match (schema.index "type").asStr.bind Kind.ofName? with
  | some kind => kind.accepts value
  | none => false

/-- `const` and `enum`, compared as whole values. -/
def matchesChoice (value schema : Value) : Bool :=
  (schema.get? "const").all (· == value) &&
    (schema.index "enum").asArray.all fun choices => choices.contains value

/-- The numeric bounds of a schema. A bound that is not a number fails. -/
def matchesBounds (value schema : Value) : Bool :=
  bounds.all fun bound =>
    (schema.get? bound.key).all fun limit => (numberCmp value limit).any bound.passes

/-- A length between two optional limits. The default upper limit is the
largest `u64`, which no length exceeds. -/
def matchesLength (length : ℕ) (minimum maximum : Value) : Bool :=
  minimum.asU64.getD 0 ≤ length && maximum.asU64.all (length ≤ ·)

/-- `validate_value`. Union keywords decide alone; otherwise the type, the
choices and the bounds are checked before the parts of the value. -/
def validateValue (value schema : Value) (path : String) : Except SchemaError Unit :=
  match _oneOf : (schema.index "oneOf").asArray with
  | some variants =>
    require ((variants.attach.countP fun ⟨variant, _member⟩ =>
      (validateValue value variant path).isOk) == 1) (.valueSchemaMismatch path)
  | none =>
    match _anyOf : (schema.index "anyOf").asArray with
    | some variants =>
      require (variants.attach.any fun ⟨variant, _member⟩ => (validateValue value variant path).isOk)
        (.valueSchemaMismatch path)
    | none => do
      require (matchesType value schema && matchesChoice value schema) (.valueSchemaMismatch path)
      require (value.asNumber.isNone || matchesBounds value schema) (.valueSchemaMismatch path)
      match value with
      | .object object =>
        match _properties : (schema.index "properties").asObject with
        | none => .error (.valueSchemaMismatch path)
        | some entries => do
          require (object.length == entries.length) (.valueSchemaMismatch path)
          forM entries.attach fun ⟨(key, propertySchema), _member⟩ =>
            match _present : object.lookup key with
            | none => .error (.valueSchemaMismatch s!"{path}.{key}")
            | some child => validateValue child propertySchema s!"{path}.{key}"
      | .array array => do
        require (matchesLength array.length (schema.index "minItems") (schema.index "maxItems"))
          (.valueSchemaMismatch path)
        forM array.zipIdx.attach fun ⟨(child, index), _member⟩ =>
          validateValue child (schema.index "items") s!"{path}[{index}]"
      | .string text =>
        require (matchesLength text.length (schema.index "minLength") (schema.index "maxLength"))
          (.valueSchemaMismatch path)
      | _ => .ok ()
termination_by value.size + schema.size
decreasing_by
  · have smaller := Value.size_lt_of_mem_index _oneOf _member
    omega
  · have smaller := Value.size_lt_of_mem_index _anyOf _member
    omega
  · have inner := Value.size_lt_object _present
    have bounded : propertySchema.size ≤ schema.size := Value.size_le_of_mem_index _properties _member
    omega
  · have inner : child.size < (Value.array array).size :=
      Value.size_lt_array (List.fst_mem_of_mem_zipIdx _member)
    have bounded := Value.index_size_le schema "items"
    omega

/-- The parts of a value against the parts of a schema, once its type, its
choices and its bounds fit. -/
def partsFit (fit : Value → Value → Bool) (value schema : Value) : Bool :=
  match value with
  | .object object =>
    (schema.index "properties").asObject.any fun entries =>
      object.length == entries.length &&
        entries.all fun entry => (object.lookup entry.1).any fun child => fit child entry.2
  | .array array =>
    matchesLength array.length (schema.index "minItems") (schema.index "maxItems") &&
      array.all fun child => fit child (schema.index "items")
  | .string text =>
    matchesLength text.length (schema.index "minLength") (schema.index "maxLength")
  | _ => true

/-- Whether a value passes, without the path its failure would report. -/
def fits (value schema : Value) : Bool := (validateValue value schema "$").isOk

/-- The checks of `validate_value`, with the reported paths left out. -/
theorem isOk_validateValue (value schema : Value) (path : String) :
    (validateValue value schema path).isOk =
      match (schema.index "oneOf").asArray, (schema.index "anyOf").asArray with
      | some variants, _ => (variants.countP fun variant => fits value variant) == 1
      | none, some variants => variants.any fun variant => fits value variant
      | none, none =>
        (matchesType value schema && matchesChoice value schema) &&
          ((value.asNumber.isNone || matchesBounds value schema) &&
            partsFit fits value schema) := by
  induction weight : value.size + schema.size using Nat.strong_induction_on
    generalizing value schema path with
  | _ weight ih =>
    subst weight
    have recur {child part : Value} (smaller : child.size + part.size < value.size + schema.size)
        (path : String) : (validateValue child part path).isOk = fits child part := by
      rw [fits, ih _ smaller child part path rfl, ih _ smaller child part "$" rfl]
    rw [validateValue.eq_def]
    split
    · rename_i variants found
      rw [found, isOk_require, countP_attach]
      intro variant member
      have smaller := Value.size_lt_of_mem_index found member
      exact recur (by omega) path
    · rename_i missing
      rw [missing]
      split
      · rename_i variants found
        rw [found, isOk_require, any_attach]
        intro variant member
        have smaller := Value.size_lt_of_mem_index found member
        exact recur (by omega) path
      · rename_i absent
        rw [absent]
        simp only [isOk_bind, isOk_require]
        congr 2
        cases value with
        | object object =>
          simp only [partsFit]
          split
          · rename_i none
            rw [none]
            rfl
          · rename_i entries found
            rw [found, Option.any_some, isOk_bind, isOk_require, isOk_forM]
            congr 1
            apply all_attach
            rintro ⟨key, part⟩ member
            dsimp only
            split
            · rename_i absent
              rw [absent]
              rfl
            · rename_i child present
              rw [present, Option.any_some]
              have inner := Value.size_lt_object present
              have bounded : part.size ≤ schema.size := Value.size_le_of_mem_index found member
              exact recur (by omega) _
        | array items =>
          simp only [partsFit, isOk_bind, isOk_require, isOk_forM]
          rw [← all_zipIdx (fun child => fits child (schema.index "items")) 0]
          congr 1
          apply all_attach
          rintro ⟨child, index⟩ member
          have inner : child.size < (Value.array items).size :=
            Value.size_lt_array (List.fst_mem_of_mem_zipIdx member)
          have bounded := Value.index_size_le schema "items"
          have decreased : child.size + (schema.index "items").size <
              (Value.array items).size + schema.size := by omega
          exact recur decreased _
        | string text => exact isOk_require _ _
        | null => rfl
        | bool value => rfl
        | number value => rfl

theorem validateValue_isOk (value schema : Value) (path : String) :
    (validateValue value schema path).isOk = fits value schema := by
  rw [fits, isOk_validateValue, isOk_validateValue value schema "$"]

theorem validateValue_eq_ok {value schema : Value} {path : String} :
    validateValue value schema path = .ok () ↔ fits value schema = true := by
  rw [← validateValue_isOk value schema path]
  exact isOk_iff.symm

end ExomonadHarness.Schema
