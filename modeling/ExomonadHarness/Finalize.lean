import ExomonadHarness.Schema.Canonical

/-! Typed `finalize` support for adapter replies. The envelope is always exactly
one `result` field. -/

namespace ExomonadHarness.Finalize

open Json Schema Checked OrderedMap

def finalizeToolName : String := "finalize"

inductive FinalizeError where
  | wrongTool
  | alreadyFinalized
  | malformedArguments (message : String)
  | invalidEnvelope
  | unsupportedSchema (path keyword : String)
  | unsatisfiableSchema (path : String)
  | ambiguousArguments (path : String)
  | resultSchemaMismatch (path : String)
  deriving DecidableEq

def FinalizeError.ofSchema : SchemaError → FinalizeError
  | .unsupportedSchema path keyword => .unsupportedSchema path keyword
  | .unsatisfiableSchema path => .unsatisfiableSchema path
  | .ambiguousArguments path => .ambiguousArguments path
  | .valueSchemaMismatch path => .resultSchemaMismatch path

/-- The strict tool whose only argument is a result of the given schema. -/
def finalizeTool (resultSchema : Value) : Value :=
  .object [
    ("description", .string "Return the typed final reply."),
    ("name", .string finalizeToolName),
    ("parameters", .object [
      ("additionalProperties", .bool false),
      ("properties", .object [("result", resultSchema)]),
      ("required", .array [.string "result"]),
      ("type", .string "object")]),
    ("strict", .bool true),
    ("type", .string "function")]

def toolSchemaFromResultSchema (resultSchema : Value) : Except FinalizeError Value := do
  let resultSchema ← (normalizeSchema resultSchema "$").mapError .ofSchema
  return finalizeTool resultSchema

/-- At most one valid finalize call may be accepted. -/
structure FinalizeParser where
  finalized : Bool := false
  deriving DecidableEq

section

variable {Reply : Type} (fromStr : String → Except String Document)

/-- The arguments of a call, decoded already or as the text of an object. -/
def callArguments (object : Map) : Except FinalizeError Value :=
  match object.lookup "arguments" with
  | some (.string text) =>
    match fromStr text with
    | .ok arguments => .ok arguments.value
    | .error message => .error (.malformedArguments message)
  | some (.object arguments) => .ok (.object arguments)
  | _ => .error (.malformedArguments "expected a JSON object or object-encoded JSON string")

/-- The one field of the envelope. -/
def envelopeResult : Value → Except FinalizeError Value
  | .object arguments => do
    let result ← okOr (arguments.lookup "result") .invalidEnvelope
    require (remove "result" arguments).isEmpty .invalidEnvelope
    return result
  | _ => .error .invalidEnvelope

/-- The result value of a completed finalize call. -/
def callResult (item : Value) : Except FinalizeError Value := do
  let object ← okOr item.asObject .wrongTool
  require ((object.lookup "type").bind Value.asStr == some "function_call" &&
    (object.lookup "name").bind Value.asStr == some finalizeToolName) .wrongTool
  let arguments ← callArguments fromStr object
  envelopeResult arguments

/-- `parse_completed`: a successful decode consumes the parser's one finalize. -/
def FinalizeParser.parseCompleted (parser : FinalizeParser) (decode : Value → Except String Reply)
    (item : Value) : Except FinalizeError Reply × FinalizeParser :=
  if parser.finalized then (.error .alreadyFinalized, parser)
  else
    match callResult fromStr item with
    | .error failure => (.error failure, parser)
    | .ok result =>
      match decode result with
      | .error message => (.error (.malformedArguments message), parser)
      | .ok decoded => (.ok decoded, { finalized := true })

/-- `parse_completed_with_result_schema`: a call that does not match the schema
leaves the parser usable. -/
def FinalizeParser.parseCompletedWithResultSchema (parser : FinalizeParser)
    (item resultSchema : Value) : Except FinalizeError Value × FinalizeParser :=
  match parser.parseCompleted fromStr Except.ok item with
  | (.error failure, parser) => (.error failure, parser)
  | (.ok result, parser) =>
    match validateValue result resultSchema "$" with
    | .error failure => (.error (.ofSchema failure), { finalized := false })
    | .ok _ => (.ok result, parser)

/-- A completion item and the advertised schema it satisfies. -/
structure ValidatedFinalize where
  item : Value
  schema : Value

def ValidatedFinalize.parse (item schema : Value) : Except FinalizeError ValidatedFinalize := do
  let resultSchema := ((schema.index "parameters").index "properties").index "result"
  let derived ← toolSchemaFromResultSchema resultSchema
  require (derived == schema) .wrongTool
  let _ ← (({} : FinalizeParser).parseCompletedWithResultSchema fromStr item resultSchema).1
  return ⟨item, schema⟩

end

/-- The item is a finalize call whose arguments hold this result and nothing
else. -/
def IsFinalizeCall (fromStr : String → Except String Document) (item result : Value) : Prop :=
  ∃ fields, item = .object fields ∧
    fields.lookup "type" = some (.string "function_call") ∧
    fields.lookup "name" = some (.string finalizeToolName) ∧
    (fields.lookup "arguments" = some (.object [("result", result)]) ∨
      ∃ text document, fields.lookup "arguments" = some (.string text) ∧
        fromStr text = .ok document ∧ document.value = .object [("result", result)])

section

variable {fromStr : String → Except String Document}

theorem envelopeResult_iff {arguments : Map} {result : Value} (ordered : Ordered arguments) :
    envelopeResult (.object arguments) = .ok result ↔ arguments = [("result", result)] := by
  simp only [envelopeResult, bind_eq_ok, okOr_eq_ok, require_eq_ok, pure_eq_ok, List.isEmpty_iff]
  constructor
  · rintro ⟨_, found, _, emptied, same⟩
    subst same
    refine ordered.ext (List.pairwise_singleton _ _) fun key => ?_
    by_cases isResult : key = "result"
    · subst isResult
      rw [found, List.lookup_cons_self]
    · have gone := lookup_remove "result" key arguments
      rw [emptied, if_neg isResult] at gone
      rw [lookup_cons_of_ne isResult, ← gone]
  · intro same
    subst same
    exact ⟨result, rfl, ⟨⟩, rfl, rfl⟩

theorem envelopeResult_value {arguments result : Value} (formed : arguments.wellFormed = true) :
    envelopeResult arguments = .ok result ↔ arguments = .object [("result", result)] := by
  cases arguments with
  | object entries =>
    rw [envelopeResult_iff (Value.wellFormed_object.mp formed).1]
    simp
  | _ => constructor <;> (intro impossible; cases impossible)

theorem callArguments_iff {object : Map} {arguments : Value} :
    callArguments fromStr object = .ok arguments ↔
      (∃ entries, object.lookup "arguments" = some (.object entries) ∧ .object entries = arguments) ∨
        ∃ text document, object.lookup "arguments" = some (.string text) ∧
          fromStr text = .ok document ∧ document.value = arguments := by
  unfold callArguments
  split
  · rename_i text found
    split <;> rename_i parsed <;> simp [found, parsed]
  · rename_i entries found
    simp [found]
  · rename_i notText notObject
    simp only [reduceCtorEq, false_iff, not_or, not_exists, not_and]
    exact ⟨fun entries found => absurd found (notObject entries),
      fun text _ found => absurd found (notText text)⟩

theorem callResult_iff {item result : Value} (formed : item.wellFormed = true) :
    callResult fromStr item = .ok result ↔ IsFinalizeCall fromStr item result := by
  have text {object : Map} {key expected : String} :
      (object.lookup key).bind Value.asStr = some expected ↔
        object.lookup key = some (.string expected) := by
    simp [Option.bind_eq_some_iff]
  simp only [callResult, IsFinalizeCall, bind_eq_ok, okOr_eq_ok, require_eq_ok,
    Value.asObject_eq_some, Bool.and_eq_true, beq_iff_eq, text, callArguments_iff]
  constructor
  · rintro ⟨fields, isObject, _, ⟨typed, named⟩, arguments, given, enveloped⟩
    refine ⟨fields, isObject, typed, named, ?_⟩
    subst isObject
    rcases given with ⟨entries, found, same⟩ | ⟨content, document, found, parsed, same⟩ <;> subst same
    · rw [envelopeResult_value (Value.wellFormed_of_lookup formed found)] at enveloped
      exact .inl (enveloped ▸ found)
    · rw [envelopeResult_value document.wellFormed] at enveloped
      exact .inr ⟨content, document, found, parsed, enveloped⟩
  · rintro ⟨fields, isObject, typed, named, given⟩
    refine ⟨fields, isObject, ⟨⟩, ⟨typed, named⟩, .object [("result", result)], ?_, rfl⟩
    exact given.imp (fun found => ⟨_, found, rfl⟩) id

/-- A derived tool is its own re-derived tool. -/
theorem toolSchema_again {resultSchema tool : Value} (formed : resultSchema.wellFormed = true)
    (derived : toolSchemaFromResultSchema resultSchema = .ok tool) :
    ∃ normalized, normalizeSchema resultSchema "$" = .ok normalized ∧
      tool = finalizeTool normalized ∧ toolSchemaFromResultSchema normalized = .ok tool := by
  simp only [toolSchemaFromResultSchema, bind_eq_ok, mapError_eq_ok, pure_eq_ok] at derived ⊢
  obtain ⟨normalized, normal, same⟩ := derived
  have again := (normalized_canonical normal formed).stable .hostProjection "$"
  exact ⟨normalized, normal, same.symm, normalized, again, same⟩

theorem parseCompletedWithResultSchema_iff {item resultSchema result : Value} :
    (({} : FinalizeParser).parseCompletedWithResultSchema fromStr item resultSchema).1 = .ok result ↔
      callResult fromStr item = .ok result ∧ validateValue result resultSchema "$" = .ok () := by
  unfold FinalizeParser.parseCompletedWithResultSchema FinalizeParser.parseCompleted
  cases callResult fromStr item with
  | error failure => simp
  | ok called =>
    cases passed : validateValue called resultSchema "$" with
    | error failure =>
      simp only [Bool.false_eq_true, if_false, passed, reduceCtorEq, false_iff, not_and]
      intro same
      cases same
      simp [passed]
    | ok _ =>
      simp only [Bool.false_eq_true, if_false, passed, Except.ok.injEq]
      constructor
      · intro same
        subst same
        exact ⟨rfl, passed⟩
      · exact And.left

theorem parse_iff {item : Value} {normalized : Value} (formed : item.wellFormed = true)
    (stable : toolSchemaFromResultSchema normalized = .ok (finalizeTool normalized)) :
    (∃ validated, ValidatedFinalize.parse fromStr item (finalizeTool normalized) = .ok validated) ↔
      ∃ result, IsFinalizeCall fromStr item result ∧ validateValue result normalized "$" = .ok () := by
  have inner : (((finalizeTool normalized).index "parameters").index "properties").index "result" =
      normalized := rfl
  simp only [ValidatedFinalize.parse, inner, stable, bind_eq_ok, require_eq_ok, pure_eq_ok,
    ← callResult_iff formed]
  constructor
  · rintro ⟨_, _, _, _, _, result, passed, _⟩
    exact ⟨result, parseCompletedWithResultSchema_iff.mp passed⟩
  · rintro ⟨result, called⟩
    exact ⟨_, _, rfl, ⟨⟩, beq_self_eq_true _, result,
      parseCompletedWithResultSchema_iff.mpr called, rfl⟩

end

theorem parameters_object {schema : Value} {tool : FunctionToolSchema}
    (admitted : FunctionToolSchema.new schema = .ok tool) :
    normalizeSchema schema "$" = .ok tool.parameters ∧
      tool.parameters.index "type" = .string "object" := by
  simp only [FunctionToolSchema.new, bind_eq_ok, require_eq_ok, pure_eq_ok, beq_iff_eq] at admitted
  obtain ⟨_, isObject, parameters, normal, projection, _, same⟩ := admitted
  subst same
  refine ⟨normal, ?_⟩
  obtain ⟨object, same, typed⟩ := Value.index_eq isObject (by simp)
  subst same
  cases normalizeSchemaMode_iff.mp normal with
  | oneOf _ _ _ alone =>
    have untyped : object.lookup "type" = none := lookup_eq_none_of_keys alone (by decide)
    cases typed.symm.trans untyped
  | anyOf _ _ alone =>
    have untyped : object.lookup "type" = none := lookup_eq_none_of_keys alone (by decide)
    cases typed.symm.trans untyped
  | typeUnion _ found => cases typed.symm.trans found
  | object => simp [lookup_closedObject]
  | array _ kinded => cases kinded.kind_eq .object typed
  | scalar _ kinded partless => exact absurd (kinded.kind_eq .object typed).symm partless.1

/-- Normalization is idempotent and lands in the strict subset. So a tool's own
parameters are admitted, and a finalize call is refused only for what the call
holds, never because its tool differs from the tool derived again. -/
theorem normalizeSchema_canonical (fromStr : String → Except String Document) :
    (∀ (schema : Document) (path : String) (normalized : Value),
      normalizeSchema schema.value path = .ok normalized → ∀ again,
        normalizeSchema normalized again = .ok normalized ∧
          normalizeSchemaMode normalized again .strictWire = .ok normalized) ∧
    (∀ (schema : Document) (tool : FunctionToolSchema),
      FunctionToolSchema.new schema.value = .ok tool →
        validateFunctionParameters tool.parameters = .ok ()) ∧
    ∀ (resultSchema item : Document) (tool : Value),
      toolSchemaFromResultSchema resultSchema.value = .ok tool →
        ∃ normalized, normalizeSchema resultSchema.value "$" = .ok normalized ∧
          ((∃ validated, ValidatedFinalize.parse fromStr item.value tool = .ok validated) ↔
            ∃ result, IsFinalizeCall fromStr item.value result ∧
              validateValue result normalized "$" = .ok ()) := by
  refine ⟨?_, ?_, ?_⟩
  · intro schema path normalized passed again
    have canonical := normalized_canonical passed schema.wellFormed
    exact ⟨canonical.stable .hostProjection again, canonical.stable .strictWire again⟩
  · intro schema tool admitted
    obtain ⟨normal, isObject⟩ := parameters_object admitted
    have strict := (normalized_canonical normal schema.wellFormed).stable .strictWire "$"
    simp [validateFunctionParameters, isObject, strict]
  · intro resultSchema item tool derived
    obtain ⟨normalized, normal, same, again⟩ := toolSchema_again resultSchema.wellFormed derived
    subst same
    exact ⟨normalized, normal, parse_iff item.wellFormed again⟩

def emptyTool : Document where
  value := .object [("properties", .object []), ("type", .string "object")]
  wellFormed := by decide +kernel

def finalizeCall : Document where
  value := .object [
    ("arguments", .object [("result", taggedValue.value)]),
    ("name", .string "finalize"), ("type", .string "function_call")]
  wellFormed := by decide +kernel

theorem normalizeSchema_canonical_tagged : ∃ normalized tool parameters validated,
    normalizeSchema taggedSchema.value "$" = .ok normalized ∧
      normalizeSchemaMode normalized "$" .strictWire = .ok normalized ∧
      FunctionToolSchema.new emptyTool.value = .ok parameters ∧
      validateFunctionParameters parameters.parameters = .ok () ∧
      toolSchemaFromResultSchema taggedSchema.value = .ok tool ∧
      ValidatedFinalize.parse (fun _ => .error "not text") finalizeCall.value tool = .ok validated := by
  obtain ⟨stable, admitted, finalized⟩ := normalizeSchema_canonical fun _ => .error "not text"
  have normal : ((normalizeSchema taggedSchema.value "$").toOption.any fun normalized =>
      fits taggedValue.value normalized) = true := by decide +kernel
  obtain ⟨normalized, normal, fitting⟩ := toOption_any normal
  have parameters : ((FunctionToolSchema.new emptyTool.value).toOption.any fun _ => true) = true := by
    decide +kernel
  obtain ⟨parameters, created, _⟩ := toOption_any parameters
  have derived : toolSchemaFromResultSchema taggedSchema.value = .ok (finalizeTool normalized) := by
    rw [toolSchemaFromResultSchema, normal]
    rfl
  obtain ⟨_, also, calls⟩ := finalized taggedSchema finalizeCall _ derived
  cases normal.symm.trans also
  obtain ⟨validated, parsed⟩ := calls.mpr ⟨taggedValue.value,
    ⟨_, rfl, rfl, rfl, .inl rfl⟩, validateValue_eq_ok.mpr fitting⟩
  exact ⟨normalized, _, parameters, validated, normal, (stable taggedSchema "$" _ normal "$").2, created,
    admitted emptyTool _ created, derived, parsed⟩

end ExomonadHarness.Finalize
