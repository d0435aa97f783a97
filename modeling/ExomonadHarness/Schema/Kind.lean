import ExomonadHarness.Schema.Numeric

namespace ExomonadHarness.Schema

open Json

inductive SchemaError where
  | unsupportedSchema (path keyword : String)
  | unsatisfiableSchema (path : String)
  | ambiguousArguments (path : String)
  | valueSchemaMismatch (path : String)
  deriving DecidableEq

abbrev unsupported (path keyword : String) : SchemaError :=
  .unsupportedSchema path keyword

/-- The types a schema can name. -/
inductive Kind where
  | object | array | string | boolean | null | integer | number
  deriving DecidableEq

namespace Kind

def name : Kind → String
  | object => "object"
  | array => "array"
  | string => "string"
  | boolean => "boolean"
  | null => "null"
  | integer => "integer"
  | number => "number"

def ofName? (name : String) : Option Kind :=
  [object, array, string, boolean, null, integer, number].find? fun kind => kind.name == name

theorem ofName?_eq_some {text : String} {kind : Kind} :
    ofName? text = some kind ↔ text = kind.name := by
  constructor
  · intro found
    have same := List.find?_some found
    exact (beq_iff_eq.mp same).symm
  · intro same
    subst text
    cases kind <;> decide

@[simp] theorem ofName?_name (kind : Kind) : ofName? kind.name = some kind :=
  ofName?_eq_some.mpr rfl

/-- `matches_type`: an integer is a number written without a fraction. -/
def accepts : Kind → Value → Bool
  | object, value => value.asObject.isSome
  | array, value => value.asArray.isSome
  | string, value => value.asStr.isSome
  | boolean, .bool _ => true
  | boolean, _ => false
  | integer, value => value.asI64.isSome || value.asU64.isSome
  | number, value => value.asNumber.isSome
  | null, value => value == .null

/-- `schema_keywords`: only constraints that the value validator enforces. -/
def keywords : Kind → List String
  | object => ["type", "properties", "required", "additionalProperties"]
  | array => ["type", "items", "minItems", "maxItems"]
  | string => ["type", "minLength", "maxLength", "enum", "const"]
  | boolean => ["type", "enum", "const"]
  | null => ["type"]
  | integer | number =>
    ["type", "minimum", "maximum", "exclusiveMinimum", "exclusiveMaximum", "enum", "const", "format"]

end Kind

/-- Document metadata does not constrain the admitted value set. -/
def schemaMetadata : List String :=
  ["$schema", "$defs", "definitions", "title", "description", "default", "examples",
    "deprecated", "readOnly", "writeOnly"]

/-- A numeric bound keyword: which side it bounds and whether it admits the
bound itself. -/
structure Bound where
  key : String
  lower : Bool
  inclusive : Bool

def bounds : List Bound :=
  [⟨"minimum", true, true⟩, ⟨"maximum", false, true⟩, ⟨"exclusiveMinimum", true, false⟩,
    ⟨"exclusiveMaximum", false, false⟩]

/-- Whether a value that compares so with the bound passes it. -/
def Bound.passes (bound : Bound) (order : Ordering) : Bool :=
  order == (if bound.lower then .gt else .lt) || (bound.inclusive && order == .eq)

end ExomonadHarness.Schema
