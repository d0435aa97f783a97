import ExomonadHarness.Schema.Validate

namespace ExomonadHarness.Schema

open Json Checked OrderedMap

inductive SchemaMode where
  | hostProjection | strictWire
  deriving DecidableEq

/-- An `enum` keyword, where present, holds a nonempty array. -/
def enumNonempty (object : Map) : Bool :=
  (object.lookup "enum").all fun value => value.asArray.any fun choices => !choices.isEmpty

/-- The distinct kinds a type array names, in its order. -/
def typeUnionKinds (types : List Value) (path : String) : Except SchemaError (List Kind) :=
  types.zipIdx.mapM fun (type, index) => do
    let name ← okOr (type.asStr.filter fun name => !(types.take index).contains (.string name))
      (unsupported path "type union requires distinct string kinds")
    okOr (Kind.ofName? name) (unsupported path s!"unsupported type {name}")

/-- The keywords of a type array that its branch for one kind keeps. -/
def keptBy (kind : Kind) (key : String) : Bool :=
  schemaMetadata.contains key || kind.keywords.contains key || ["enum", "const"].contains key

/-- The branch of a type array for one kind, or none when a global `const` or
`enum` excludes null. Keywords of other kinds do not apply to it. -/
def unionVariant (object : Map) (kind : Kind) : Option Value :=
  let child := replace "type" (.string kind.name) (object.filter fun entry => keptBy kind entry.1)
  if kind = .null then
    if (child.lookup "const").any (· != .null) ||
        ((child.lookup "enum").bind Value.asArray).any (fun choices => !choices.contains .null) then
      none
    else some (.object (remove "const" (remove "enum" child)))
  else some (.object child)

def typeUnionVariants (object : Map) (types : List Value) (path : String) :
    Except SchemaError (List Value) := do
  require (!types.isEmpty) (unsupported path "empty type union")
  let kinds ← typeUnionKinds types path
  refuseFirst (keys object)
    (fun key => !schemaMetadata.contains key && !kinds.any fun kind => kind.keywords.contains key)
    (unsupported path)
  require (enumNonempty object) (unsupported path "enum requires a nonempty array")
  let variants := kinds.filterMap (unionVariant object)
  require (!variants.isEmpty) (.unsatisfiableSchema path)
  return variants

/-- What only the strict traversal refuses before it looks at the type. -/
def checkWireMetadata (object : Map) (path : String) : SchemaMode → Except SchemaError Unit
  | .hostProjection => .ok ()
  | .strictWire => do
    refuseFirst ["$defs", "definitions"] (fun key => (object.lookup key).isSome)
      (fun key => unsupported path s!"{key} requires host projection")
    refuseFirst ["title", "description", "$schema"]
      (fun key => (object.lookup key).any fun value => value.asStr.isNone)
      (fun key => unsupported path s!"{key} requires a string")
    refuseFirst ["deprecated", "readOnly", "writeOnly"]
      (fun key => (object.lookup key).any fun value => !Kind.accepts .boolean value)
      (fun key => unsupported path s!"{key} requires a boolean")
    require ((object.lookup "examples").all fun value => value.asArray.isSome)
      (unsupported path "examples requires an array")
    require (!((object.lookup "format").isSome &&
        ((object.lookup "type").bind Value.asStr).any ["integer", "number"].contains))
      (unsupported path "numeric format requires host projection")

/-- A union keyword stands alone, beside metadata only, over some variants. -/
def checkUnion (keyword : String) (object : Map) (variants : Value) (path : String) :
    Except SchemaError Unit := do
  require ((keys object).all [keyword, "title", "description", "$schema", "$defs"].contains)
    (unsupported path "unsupported union keyword")
  require (variants.asArray.any fun variants => !variants.isEmpty)
    (unsupported path s!"{keyword} requires nonempty variants")

def singletonTag (variant : Value) : Option String :=
  match (((variant.index "properties").index "tag").index "enum").asArray with
  | some [value] => value.asStr
  | _ => none

/-- A `oneOf` variant is an object with a required tag that no earlier variant
has. -/
def checkTag (variants : List Value) (index : ℕ) (variant : Value) (path : String) :
    Except SchemaError Unit := do
  let tag ← okOr (singletonTag variant) (unsupported path "oneOf requires disjoint singleton tags")
  require (variant.index "type" == .string "object" &&
      !((variants.take index).filterMap singletonTag).contains tag &&
      (variant.index "required").asArray.any fun required => required.contains (.string "tag"))
    (unsupported path "oneOf requires distinct required tags")

/-- Drop the branch of a type array that its `const` or `enum` leaves empty,
and the choices that the branch cannot hold. -/
def pruneVariant (normalized : Value) (path : String) : Option Value :=
  if (normalized.get? "const").any fun value => !(validateValue value normalized path).isOk then
    none
  else
    match normalized, (normalized.index "enum").asArray with
    | .object entries, some choices =>
      let viable := choices.filter fun value => (validateValue value normalized path).isOk
      if viable.isEmpty then none else some (.object (insert "enum" (.array viable) entries))
    | _, _ => some normalized

/-- The kind of a schema with a single type, whose keywords are all known. -/
def schemaKind (object : Map) (path : String) : Except SchemaError Kind := do
  let name ← okOr ((object.lookup "type").bind Value.asStr)
    (unsupported path "missing or non-string type")
  let kind ← okOr (Kind.ofName? name) (unsupported path s!"unsupported type {name}")
  refuseFirst (keys object)
    (fun key => !schemaMetadata.contains key && !kind.keywords.contains key) (unsupported path)
  refuseFirst ["minLength", "maxLength", "minItems", "maxItems"]
    (fun key => (object.lookup key).any fun value => value.asU64.isNone)
    (fun key => unsupported path s!"{key} requires a nonnegative integer")
  require (enumNonempty object) (unsupported path "enum requires a nonempty array")
  return kind

/-- `required` names distinct declared properties. -/
def namesDeclared (properties : Map) (required : Value) : Bool :=
  required.asArray.any fun fields =>
    (fields.all fun field => field.asStr.any fun name => (properties.lookup name).isSome) &&
      decide fields.Nodup

def isRequired (object : Map) (name : String) : Bool :=
  ((object.lookup "required").bind Value.asArray).any fun required =>
    required.any fun field => field.asStr == some name

/-- A closed object schema, which in the strict traversal requires every
property. -/
def checkObject (object : Map) (path : String) (mode : SchemaMode) : Except SchemaError Unit := do
  let properties ← okOr ((object.lookup "properties").bind Value.asObject)
    (unsupported path "object requires properties object")
  require ((object.lookup "additionalProperties").all (· == .bool false))
    (unsupported path "open object properties are unsupported")
  require ((object.lookup "required").all (namesDeclared properties))
    (unsupported path "required must name distinct declared properties")
  require (mode != .strictWire || object.lookup "additionalProperties" == some (.bool false))
    (unsupported path "strict objects require additionalProperties:false")
  require (mode != .strictWire || ((object.lookup "required").bind Value.asArray).any fun required =>
      required.length == properties.length)
    (unsupported path "strict objects must require every property")

def copyConstraints (source target : Map) (keys : List String) : Map :=
  keys.foldl (fun target key =>
    match source.lookup key with
    | some value => insert key value target
    | none => target) target

/-- The constraints copied from a schema without parts. -/
def Kind.constraints : Kind → List String
  | .string => ["minLength", "maxLength", "enum", "const"]
  | .boolean => ["enum", "const"]
  | .integer | .number =>
    ["minimum", "maximum", "exclusiveMinimum", "exclusiveMaximum", "enum", "const"]
  | .array => ["minItems", "maxItems"]
  | .null | .object => []

/-- The least and greatest value of a numeric format. -/
def formatRange : Kind → Option String → Option (Number × Number)
  | .integer, some "int8" => some (.negInt ⟨-2 ^ 7, by decide⟩, .posInt (2 ^ 7 - 1))
  | .integer, some "uint8" => some (.posInt 0, .posInt (2 ^ 8 - 1))
  | .integer, some "int16" => some (.negInt ⟨-2 ^ 15, by decide⟩, .posInt (2 ^ 15 - 1))
  | .integer, some "uint16" => some (.posInt 0, .posInt (2 ^ 16 - 1))
  | .integer, some "int32" => some (.negInt ⟨-2 ^ 31, by decide⟩, .posInt (2 ^ 31 - 1))
  | .integer, some "uint32" => some (.posInt 0, .posInt (2 ^ 32 - 1))
  | .integer, some "int64" => some (.negInt ⟨-2 ^ 63, by decide⟩, .posInt (2 ^ 63 - 1))
  | .integer, some "uint64" => some (.posInt 0, .posInt (2 ^ 64 - 1))
  | .number, some "float" => some (.float .singleMin, .float .singleMax)
  | .number, some "double" => some (.float .min, .float .max)
  | _, _ => none

/-- Keep an explicit bound only where it is tighter than the format's. -/
def tighten (bound : Bound) (limit : Number) (normalized : Map) : Map :=
  if ((normalized.lookup bound.key).bind fun existing => numberCmp existing (.number limit)).any
      fun order => order == (if bound.lower then .gt else .lt) then
    normalized
  else insert bound.key (.number limit) normalized

/-- Add the bounds of a numeric format. -/
def applyFormat (kind : Kind) (object normalized : Map) (path : String) : Except SchemaError Map :=
  match object.lookup "format" with
  | none => .ok normalized
  | some format => do
    let (least, greatest) ← okOr (formatRange kind format.asStr)
      (unsupported path "unsupported numeric format")
    return tighten ⟨"maximum", false, true⟩ greatest (tighten ⟨"minimum", true, true⟩ least normalized)

/-- Check the numeric bounds and add those of the format. -/
def constrainNumber (kind : Kind) (object normalized : Map) (path : String) :
    Except SchemaError Value := do
  refuseFirst bounds
    (fun bound => (normalized.lookup bound.key).any fun limit => limit.asNumber.isNone ||
      (kind == .integer && limit.asI64.isNone && limit.asU64.isNone))
    (fun bound => unsupported path s!"{bound.key} requires a supported numeric bound")
  let bounded ← applyFormat kind object normalized path
  refuseFirst bounds (fun bound => (bounded.lookup bound.key).any fun limit => limit.asNumber.isNone)
    (fun bound => unsupported path s!"{bound.key} requires a number")
  return .object bounded

def anyOf (variants : List Value) : Value := .object [("anyOf", .array variants)]

def typed (kind : Kind) : Map := [("type", .string kind.name)]

/-- The null carrier of an omitted property. -/
def nullable (normalized : Value) : Value := anyOf [normalized, .object (typed .null)]

/-- The strict object: every property required and nothing else admitted. -/
def closedObject (properties : Map) : Map :=
  insert "additionalProperties" (.bool false) (insert "properties" (.object properties)
    (insert "required" (.array ((keys properties).map .string)) (typed .object)))

/-- A property that may be omitted and does not admit null is made nullable. -/
def carryOmission (object : Map) (name : String) (normalized : Value) (path : String) : Value :=
  if !isRequired object name && !(validateValue .null normalized path).isOk then nullable normalized
  else normalized

theorem unionVariant_size {object : Map} {kind : Kind} {types : List Value} {child : Value}
    (typeArray : object.lookup "type" = some (.array types)) (nonempty : types ≠ [])
    (branch : unionVariant object kind = some child) : child.size < (Value.object object).size := by
  have kept : (object.filter fun entry => keptBy kind entry.1).lookup "type" =
      some (.array types) := by
    rw [lookup_filter, typeArray, if_pos]
    cases kind <;> decide
  have several : 1 < (Value.array types).size := by
    cases types with
    | nil => exact absurd rfl nonempty
    | cons type rest =>
      have positive := Value.size_pos type
      simp only [Value.size, Value.sizeItems]
      omega
  have replaced := Value.sizeEntries_replace_lt (show (Value.string kind.name).size = 1 from rfl)
    kept several
  have filtered := Value.sizeEntries_filter_le (fun entry => keptBy kind entry.1) object
  simp only [unionVariant] at branch
  split at branch
  · split at branch
    · cases branch
    · have removed := Value.sizeEntries_filter_le (fun entry => entry.1 != "enum")
        (replace "type" (.string kind.name) (object.filter fun entry => keptBy kind entry.1))
      have twice := Value.sizeEntries_filter_le (fun entry => entry.1 != "const")
        (remove "enum" (replace "type" (.string kind.name)
          (object.filter fun entry => keptBy kind entry.1)))
      rw [← Option.some.inj branch]
      simp only [Value.size, remove] at removed twice ⊢
      omega
  · rw [← Option.some.inj branch]
    simp only [Value.size]
    omega

theorem typeUnionVariants_size {object : Map} {types variants : List Value} {path : String}
    {child : Value} (typeArray : object.lookup "type" = some (.array types))
    (split : typeUnionVariants object types path = .ok variants) (member : child ∈ variants) :
    child.size < (Value.object object).size := by
  simp only [typeUnionVariants, bind_eq_ok, require_eq_ok, refuseFirst_eq_ok, pure_eq_ok] at split
  obtain ⟨_, nonempty, kinds, _, _, _, _, _, _, _, same⟩ := split
  subst variants
  obtain ⟨kind, _, branch⟩ := List.mem_filterMap.mp member
  exact unionVariant_size typeArray (by simpa using nonempty) branch

/-- `normalize_schema_mode`: the strict provider schema of an admitted schema. -/
def normalizeSchemaMode (schema : Value) (path : String) (mode : SchemaMode) :
    Except SchemaError Value :=
  match schema with
  | .object object => do
    checkWireMetadata object path mode
    match _oneOf : object.lookup "oneOf" with
    | some variants => do
      require (mode != .strictWire)
        (unsupported path "strict tools require anyOf rather than oneOf")
      checkUnion "oneOf" object variants path
      let normalized ← variants.items.zipIdx.attach.mapM fun ⟨(variant, index), _member⟩ => do
        checkTag variants.items index variant path
        normalizeSchemaMode variant s!"{path}.oneOf[{index}]" mode
      -- Distinct required tags make the variants disjoint, so anyOf suffices.
      return anyOf normalized
    | none =>
      match _anyOf : object.lookup "anyOf" with
      | some variants => do
        checkUnion "anyOf" object variants path
        let normalized ← variants.items.zipIdx.attach.mapM fun ⟨(variant, index), _member⟩ =>
          normalizeSchemaMode variant s!"{path}.anyOf[{index}]" mode
        return anyOf normalized
      | none =>
        match _types : object.lookup "type" with
        | some (.array types) =>
          match _split : typeUnionVariants object types path with
          | .error error => .error error
          | .ok children => do
            -- Every branch is normalized before an impossible one is dropped.
            let branches ← children.attach.mapM fun ⟨child, _member⟩ => do
              let normalized ← normalizeSchemaMode child path mode
              return pruneVariant normalized path
            require (!branches.reduceOption.isEmpty) (.unsatisfiableSchema path)
            return anyOf branches.reduceOption
        | _ => do
          let kind ← schemaKind object path
          match kind with
          | .object => do
            checkObject object path mode
            let normalized ← (Value.entries ((object.lookup "properties").getD .null)).attach.mapM
              fun ⟨(name, property), _member⟩ => do
                let normalized ← normalizeSchemaMode property s!"{path}.properties.{name}" mode
                return (name, carryOmission object name normalized s!"{path}.properties.{name}")
            constrainNumber kind object (closedObject normalized) path
          | .array =>
            match _items : object.lookup "items" with
            | none => .error (unsupported path "array requires items schema")
            | some items => do
              let normalized ← normalizeSchemaMode items s!"{path}.items" mode
              constrainNumber kind object
                (copyConstraints object (insert "items" normalized (typed .array)) kind.constraints)
                path
          | _ =>
            constrainNumber kind object (copyConstraints object (typed kind) kind.constraints) path
  | _ => .error (unsupported path "schema must be an object")
termination_by schema.size
decreasing_by
  · have inner : variant.size < variants.size :=
      Value.size_lt_of_mem_items (List.fst_mem_of_mem_zipIdx _member)
    exact inner.trans (Value.size_lt_object _oneOf)
  · have inner : variant.size < variants.size :=
      Value.size_lt_of_mem_items (List.fst_mem_of_mem_zipIdx _member)
    exact inner.trans (Value.size_lt_object _anyOf)
  · exact typeUnionVariants_size _types _split _member
  · have inner : property.size < ((object.lookup "properties").getD .null).size :=
      Value.size_lt_of_mem_entries _member
    exact inner.trans_le (Value.index_size_le (.object object) "properties")
  · exact Value.size_lt_object _items

def normalizeSchema (schema : Value) (path : String) : Except SchemaError Value :=
  normalizeSchemaMode schema path .hostProjection

/-- Admit provider parameters without changing them. -/
def validateFunctionParameters (schema : Value) : Except SchemaError Unit := do
  require (schema.index "type" == .string "object")
    (unsupported "$" "function parameters must be an object")
  let _ ← normalizeSchemaMode schema "$" .strictWire

end ExomonadHarness.Schema
