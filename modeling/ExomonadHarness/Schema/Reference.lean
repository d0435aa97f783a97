import ExomonadHarness.Schema.Kind
import ExomonadHarness.Support.Checked

/-! JSON Schema semantics over the supported keywords, stated independently of
admission and validation: every keyword constrains on its own, and keywords of
one type say nothing about values of another. A missing `additionalProperties`
is read as false, bounds compare exact rationals, and a numeric format is the
range of its machine type. -/

namespace ExomonadHarness.Schema.Reference

open Json Checked

/-- A number written without a fraction is an integer as well. -/
def kindAccepts (value name : Value) : Bool :=
  match value with
  | .null => name = .string "null"
  | .bool _ => name = .string "boolean"
  | .number (.float _) => name = .string "number"
  | .number _ => name = .string "integer" || name = .string "number"
  | .string _ => name = .string "string"
  | .array _ => name = .string "array"
  | .object _ => name = .string "object"

theorem kindAccepts_name (value : Value) (kind : Kind) :
    kindAccepts value (.string kind.name) = kind.accepts value := by
  rcases value with _ | _ | (_ | _ | _) | _ | _ | _ <;>
    cases kind <;>
    simp [kindAccepts, Kind.name, Kind.accepts, Value.asNumber, Value.asStr, Value.asArray,
      Value.asObject, Value.asI64, Value.asU64, Number.asI64, Number.asU64]

/-- `type` names one kind or an array of alternatives. -/
def typeAccepts (schema value : Value) : Bool :=
  (schema.get? "type").all fun kinds =>
    match kinds with
    | .array names => names.any (kindAccepts value)
    | name => kindAccepts value name

def choiceAccepts (schema value : Value) : Bool :=
  (schema.get? "const").all (fun expected => expected == value) &&
    (schema.index "enum").asArray.all fun options => options.contains value

/-- Whether a rational lies on the admitted side of a limit. -/
def admits (bound : Bound) (limit value : ℚ) : Bool :=
  match bound.lower, bound.inclusive with
  | true, true => limit ≤ value
  | true, false => limit < value
  | false, true => value ≤ limit
  | false, false => value < limit

/-- The range of a numeric format. -/
def formatBounds : String → Option (ℚ × ℚ)
  | "int8" => some (-2 ^ 7, 2 ^ 7 - 1)
  | "uint8" => some (0, 2 ^ 8 - 1)
  | "int16" => some (-2 ^ 15, 2 ^ 15 - 1)
  | "uint16" => some (0, 2 ^ 16 - 1)
  | "int32" => some (-2 ^ 31, 2 ^ 31 - 1)
  | "uint32" => some (0, 2 ^ 32 - 1)
  | "int64" => some (-2 ^ 63, 2 ^ 63 - 1)
  | "uint64" => some (0, 2 ^ 64 - 1)
  | "float" => some (F64.singleMin.value, F64.singleMax.value)
  | "double" => some (F64.min.value, F64.max.value)
  | _ => none

def numberAccepts (schema value : Value) : Bool :=
  value.asNumber.all fun number =>
    (bounds.all fun bound => (schema.index bound.key).asNumber.all fun limit =>
      admits bound limit.toRat number.toRat) &&
    ((schema.index "format").asStr.bind formatBounds).all fun range =>
      decide (range.1 ≤ number.toRat ∧ number.toRat ≤ range.2)

def lengthAccepts (length : ℕ) (minimum maximum : Value) : Bool :=
  minimum.asU64.all (· ≤ length) && maximum.asU64.all (length ≤ ·)

/-- Every required name is present. -/
def requiredAccepts (schema : Value) (object : Map) : Bool :=
  (schema.index "required").items.all fun name =>
    name.asStr.all fun name => (object.lookup name).isSome

def isOpen (schema : Value) : Bool :=
  (schema.get? "additionalProperties").any (· != .bool false)

/-- `accepts`: the value conforms to the schema. -/
def accepts (schema value : Value) : Bool :=
  typeAccepts schema value && choiceAccepts schema value && numberAccepts schema value &&
  (match _anyOf : (schema.index "anyOf").asArray with
    | none => true
    | some branches => branches.attach.any fun ⟨branch, _member⟩ => accepts branch value) &&
  (match _oneOf : (schema.index "oneOf").asArray with
    | none => true
    | some branches => (branches.attach.countP fun ⟨branch, _member⟩ => accepts branch value) == 1) &&
  match value with
  | .string text => lengthAccepts text.length (schema.index "minLength") (schema.index "maxLength")
  | .array items =>
    lengthAccepts items.length (schema.index "minItems") (schema.index "maxItems") &&
      match _items : schema.get? "items" with
      | none => true
      | some part => items.attach.all fun ⟨child, _member⟩ => accepts part child
  | .object object =>
    requiredAccepts schema object &&
      match _properties : (schema.index "properties").asObject with
      | none => true
      | some properties => object.attach.all fun ⟨(name, child), _member⟩ =>
        match _property : properties.lookup name with
        | some property => accepts property child
        | none => isOpen schema
  | _ => true
termination_by schema.size + value.size
decreasing_by
  · have smaller := Value.size_lt_of_mem_index _anyOf _member
    omega
  · have smaller := Value.size_lt_of_mem_index _oneOf _member
    omega
  · have inner := Value.size_lt_array _member
    have bounded := Value.size_get?_lt _items
    omega
  · have member : (name, child) ∈ (Value.object object).entries := _member
    have inner : child.size < (Value.object object).size := Value.size_lt_of_mem_entries member
    have bounded : property.size ≤ schema.size :=
      Value.size_le_of_mem_index _properties (OrderedMap.mem_of_lookup _property)
    omega

def partsAccept (accept : Value → Value → Bool) (schema value : Value) : Bool :=
  match value with
  | .string text => lengthAccepts text.length (schema.index "minLength") (schema.index "maxLength")
  | .array items =>
    lengthAccepts items.length (schema.index "minItems") (schema.index "maxItems") &&
      (schema.get? "items").all fun part => items.all fun child => accept part child
  | .object object =>
    requiredAccepts schema object &&
      (schema.index "properties").asObject.all fun properties => object.all fun entry =>
        match properties.lookup entry.1 with
        | some property => accept property entry.2
        | none => isOpen schema
  | _ => true

/-- Every keyword constrains on its own. -/
theorem accepts_eq (schema value : Value) :
    accepts schema value =
      (typeAccepts schema value && choiceAccepts schema value && numberAccepts schema value &&
        ((schema.index "anyOf").asArray.all fun branches =>
          branches.any fun branch => accepts branch value) &&
        ((schema.index "oneOf").asArray.all fun branches =>
          (branches.countP fun branch => accepts branch value) == 1) &&
        partsAccept accepts schema value) := by
  rw [accepts.eq_def]
  congr 1
  · congr 1
    · congr 1
      split
      · rename_i absent
        rw [absent]
        rfl
      · rename_i branches found
        rw [found, Option.all_some]
        exact any_attach fun _ _ => rfl
    · split
      · rename_i absent
        rw [absent]
        rfl
      · rename_i branches found
        rw [found, Option.all_some]
        rw [countP_attach fun _ _ => rfl]
  · cases value with
    | array items =>
      simp only [partsAccept]
      congr 1
      split
      · rename_i absent
        rw [absent]
        rfl
      · rename_i part found
        rw [found, Option.all_some]
        exact all_attach fun _ _ => rfl
    | object object =>
      simp only [partsAccept]
      congr 1
      split
      · rename_i absent
        rw [absent]
        rfl
      · rename_i properties found
        rw [found, Option.all_some]
        apply all_attach
        rintro ⟨name, child⟩ _
        dsimp only
        split <;> rename_i present <;> rw [present]
    | _ => rfl

end ExomonadHarness.Schema.Reference
