import ExomonadHarness.Schema.Normalize

namespace ExomonadHarness.Schema

open Json Checked OrderedMap

/-- How host arguments are read back from the strict wire form. A field of an
object says whether its null stands for omission; an alternative carries the
strict schema that selects it. -/
inductive ArgumentProjection where
  | identity
  | object (fields : List (String × Bool × ArgumentProjection))
  | array (items : ArgumentProjection)
  | alternatives (variants : List (Value × ArgumentProjection))

namespace ArgumentProjection

def new (schema : Value) : Except SchemaError ArgumentProjection :=
  match _union : (schema.index "anyOf").asArray.or (schema.index "oneOf").asArray with
  | some variants => do
    let projected ← variants.attach.mapM fun ⟨variant, _member⟩ => do
      let normalized ← normalizeSchema variant "$"
      let projection ← new variant
      return (normalized, projection)
    return alternatives projected
  | none =>
    match schema with
    | .object entries =>
      match _types : entries.lookup "type" with
      | some (.array types) =>
        match _split : typeUnionVariants entries types "$" with
        | .error error => .error error
        | .ok variants => do
          let projected ← variants.attach.mapM fun ⟨variant, _member⟩ => do
            let normalized ← normalizeSchema variant "$"
            let projection ← new variant
            return (normalized, projection)
          return alternatives projected
      | some (.string "object") => do
        let fields ← (Value.entries ((entries.lookup "properties").getD .null)).attach.mapM
          fun ⟨(name, property), _member⟩ => do
            let normalized ← normalizeSchema property "$"
            let nullable := (validateValue .null normalized "$").isOk
            let projection ← new property
            return (name, !isRequired entries name && !nullable, projection)
        return .object fields
      | some (.string "array") =>
        -- A missing items schema is null, whose projection is the identity.
        match _items : entries.lookup "items" with
        | none => .ok (array identity)
        | some items => do
          let projection ← new items
          return array projection
      | _ => .ok identity
    | _ => .ok identity
termination_by schema.size
decreasing_by
  · rcases Option.or_eq_some_iff.mp _union with found | ⟨_, found⟩
    · exact Value.size_lt_of_mem_index found _member
    · exact Value.size_lt_of_mem_index found _member
  · exact typeUnionVariants_size _types _split _member
  · have inner : property.size < ((entries.lookup "properties").getD .null).size :=
      Value.size_lt_of_mem_entries _member
    exact inner.trans_le (Value.index_size_le (.object entries) "properties")
  · exact Value.size_lt_object _items

mutual

def decode : ArgumentProjection → Value → String → Except SchemaError Value
  | identity, value, _ => .ok value
  | object fields, .object entries, path => do
    let decoded ← decodeFields fields entries path
    return .object decoded
  | object _, value, _ => .ok value
  | array items, .array values, path => do
    let decoded ← values.zipIdx.mapM fun (value, index) =>
      items.decode value s!"{path}[{index}]"
    return .array decoded
  | array _, value, _ => .ok value
  | alternatives variants, value, path => do
    let decoded ← decodeVariants variants value path none
    return decoded.getD value

def decodeFields : List (String × Bool × ArgumentProjection) → Map → String →
    Except SchemaError Map
  | [], entries, _ => .ok entries
  | (name, omitNull, projection) :: fields, entries, path =>
    match entries.lookup name with
    | none => decodeFields fields entries path
    | some value =>
      if omitNull && value == .null then decodeFields fields (remove name entries) path
      else do
        let decoded ← projection.decode value s!"{path}.{name}"
        decodeFields fields (replace name decoded entries) path

/-- Every alternative whose schema matches must decode to the same value. -/
def decodeVariants : List (Value × ArgumentProjection) → Value → String → Option Value →
    Except SchemaError (Option Value)
  | [], _, _, decoded => .ok decoded
  | (schema, projection) :: variants, value, path, decoded =>
    if (validateValue value schema path).isOk then do
      let candidate ← projection.decode value path
      if decoded.any (· != candidate) then .error (.ambiguousArguments path)
      else decodeVariants variants value path (some candidate)
    else decodeVariants variants value path decoded

end

end ArgumentProjection

/-- A strict provider schema and the decoder for its host argument contract. -/
structure FunctionToolSchema where
  parameters : Value
  projection : ArgumentProjection

namespace FunctionToolSchema

def new (schema : Value) : Except SchemaError FunctionToolSchema := do
  require (schema.index "type" == .string "object")
    (unsupported "$" "function parameters must be an object")
  let parameters ← normalizeSchema schema "$"
  let projection ← ArgumentProjection.new schema
  return ⟨parameters, projection⟩

def decodeArguments (tool : FunctionToolSchema) (arguments : Value) : Except SchemaError Value :=
  tool.projection.decode arguments "$"

end FunctionToolSchema

end ExomonadHarness.Schema
