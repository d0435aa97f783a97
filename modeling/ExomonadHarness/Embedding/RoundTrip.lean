import ExomonadHarness.Embedding.ToolEncoding

/-! What a host accepts is encoded within the declared parameters and decoded exactly. -/

namespace ExomonadHarness.Embedding

open Json Schema Checked OrderedMap Item

/-- The delivery that a wire envelope names. -/
def deliveryName : ToolExecution → String
  | .synchronous => "wait"
  | .asynchronous => "background"

/-- The fields of an envelope around a value. -/
def envelopeFields (field : String) (delivery : Bool) (value : Value) (choice : ToolExecution) : Map :=
  let fields := insert field value []
  if delivery then insert "delivery" (.string (deliveryName choice)) fields else fields

/-- The envelope of a host input under an encoding. -/
def envelope : Encoding → ToolInput → ToolExecution → Value
  | .text field delivery, .custom text, choice =>
    .object (envelopeFields field delivery (.string text) choice)
  | .arguments, .function arguments, choice =>
    .object (envelopeFields "arguments" true arguments choice)
  | _, .function arguments, _ => arguments
  | _, .custom text, _ => .string text

/-- A tool offers the background only if its encoding has a delivery. -/
def Encoding.Offers : Encoding → ToolExecution → Prop
  | .text _ delivery, choice => delivery = true ∨ choice = .synchronous
  | .arguments, _ => True
  | .identity, choice => choice = .synchronous

theorem ordered_envelopeFields {field : String} {delivery : Bool} {value : Value}
    {choice : ToolExecution} : Ordered (envelopeFields field delivery value choice) := by
  unfold envelopeFields
  cases delivery
  · exact Ordered.nil.insert field value
  · exact (Ordered.nil.insert field value).insert _ _

section

/-- What a checker of JSON schemas says of the schemas that envelopes are declared with:
strings, one of several strings, the parameters of functions, and objects with exactly the
given properties. -/
structure Conformance (conforms : Value → Value → Prop) : Prop where
  string : ∀ text, conforms (.string text) stringSchema
  delivery : ∀ choice, conforms (.string (deliveryName choice)) deliverySchema
  object : ∀ {value schema}, conforms value schema → validateFunctionParameters schema = .ok () →
    ∃ entries, value = .object entries
  closed : ∀ {entries properties : Map} {required : List Value}, Ordered entries →
    List.Forall₂ (fun entry property => entry.1 = property.1 ∧ conforms entry.2 property.2)
      entries properties →
    (∀ name ∈ required, ∃ property ∈ properties, name = .string property.1) →
    conforms (.object entries) (.object [
      ("additionalProperties", .bool false),
      ("properties", .object properties),
      ("required", .array required),
      ("type", .string "object")])

variable {conforms : Value → Value → Prop} (conformance : Conformance conforms)

include conformance in
/-- An envelope around a value that conforms to a schema conforms to its parameters. -/
theorem envelope_conforms {field : String} {delivery : Bool} {value schema : Value}
    (conforming : conforms value schema) (apart : field ≠ "delivery") (choice : ToolExecution) :
    conforms (.object (envelopeFields field delivery value choice))
      (envelopeParameters field schema delivery) := by
  refine conformance.closed ordered_envelopeFields ?_ ?_
  · cases delivery with
    | false => exact .cons ⟨rfl, conforming⟩ .nil
    | true =>
      simp only [envelopeFields, if_true, OrderedMap.insert]
      split
      · exact .cons ⟨rfl, conformance.delivery choice⟩ (.cons ⟨rfl, conforming⟩ .nil)
      · rw [if_neg (Ne.symm apart), if_neg (Ne.symm apart)]
        exact .cons ⟨rfl, conforming⟩ (.cons ⟨rfl, conformance.delivery choice⟩ .nil)
  · intro name member
    cases delivery with
    | false =>
      rw [List.mem_singleton.mp member]
      exact ⟨(field, schema), mem_of_lookup (by simp), rfl⟩
    | true =>
      rcases List.mem_pair.mp member with own | other
      · rw [own]
        exact ⟨(field, schema), mem_of_lookup (by simp [apart]), rfl⟩
      · rw [other]
        exact ⟨("delivery", deliverySchema), mem_of_lookup (by simp), rfl⟩

end

/-- The validator of values conforms in this sense. -/
theorem conformance_fits : Conformance fun value schema => fits value schema = true where
  string text := by
    rw [stringSchema, fits_kind _ .string rfl (by decide)]
    rfl
  delivery choice := by
    cases choice <;> decide +kernel
  object {value schema} fitting valid := by
    simp only [validateFunctionParameters, bind_eq_ok, require_eq_ok, beq_iff_eq] at valid
    obtain ⟨_, isObject, normalized, normal, _⟩ := valid
    obtain ⟨object, same, typed⟩ := Value.index_eq isObject (by simp)
    subst same
    have plain : object.lookup "oneOf" = none ∧ object.lookup "anyOf" = none := by
      cases normalizeSchemaMode_iff.mp normal with
      | oneOf _ _ _ alone =>
        have untyped : object.lookup "type" = none := lookup_eq_none_of_keys alone (by decide)
        cases typed.symm.trans untyped
      | anyOf _ _ alone =>
        have untyped : object.lookup "type" = none := lookup_eq_none_of_keys alone (by decide)
        cases typed.symm.trans untyped
      | typeUnion _ found => cases typed.symm.trans found
      | object _ kinded => exact ⟨kinded.single.1, kinded.single.2.1⟩
      | array _ kinded => cases kinded.kind_eq .object typed
      | scalar _ kinded partless => exact absurd (kinded.kind_eq .object typed).symm partless.1
    have named : object.lookup "type" = some (.string Kind.object.name) := typed
    rw [fits_plain _ plain.1 plain.2, matchesType_kind _ named] at fitting
    simp only [Bool.and_eq_true, Kind.accepts] at fitting
    obtain ⟨entries, found⟩ := Option.isSome_iff_exists.mp fitting.1.1
    exact ⟨entries, Value.asObject_eq_some.mp found⟩
  closed {entries properties required} ordered related listed := by
    rw [fits_kind _ .object rfl (by simp)]
    have all : ∀ property ∈ properties,
        ∃ child, entries.lookup property.1 = some child ∧ fits child property.2 = true := by
      intro property member
      obtain ⟨entry, inside, same, fitting⟩ := exists_left_of_forall₂ related property member
      exact ⟨entry.2, same ▸ ordered.lookup_of_mem inside, fitting⟩
    have parts : (entries.length == properties.length && properties.all fun property =>
        (entries.lookup property.1).any fun child => fits child property.2) = true := by
      simpa [related.length_eq, Option.any_eq_true] using all
    rw [Bool.and_eq_true, Bool.and_eq_true]
    exact ⟨rfl, rfl, parts⟩

section

variable {name field : String} {custom delivery : Bool} {input decoded : ToolInput}
  {value : Value} {choice : ToolExecution} {entries : Map}

/-- A map is a single field iff nothing remains without it. -/
theorem remove_eq_nil (ordered : Ordered entries) :
    entries.lookup field = some value ∧ remove field entries = [] ↔
      entries = insert field value [] := by
  constructor
  · intro alone
    refine ordered.ext (Ordered.nil.insert field value) fun key => ?_
    have missing : (remove field entries).lookup key = none := by
      rw [alone.2]
      rfl
    rw [lookup_remove] at missing
    rw [lookup_insert]
    split at missing
    case isTrue same => rw [if_pos same, same, alone.1]
    case isFalse other => rw [if_neg other, missing, List.lookup_nil]
  · intro alone
    subst alone
    simp [OrderedMap.insert, remove]

theorem decodeDelivery_eq_ok : decodeDelivery name entries = .ok choice ↔
    entries.lookup "delivery" = some (.string (deliveryName choice)) := by
  unfold decodeDelivery
  constructor
  · intro decoded
    split at decoded
    case h_1 found =>
      cases decoded
      obtain ⟨value, known, text⟩ := Option.bind_eq_some_iff.mp found
      rw [known, Value.asStr_eq_some.mp text]
      rfl
    case h_2 found =>
      cases decoded
      obtain ⟨value, known, text⟩ := Option.bind_eq_some_iff.mp found
      rw [known, Value.asStr_eq_some.mp text]
      rfl
    case h_3 => cases decoded
  · intro found
    cases choice <;> simp [found, deliveryName, Value.asStr]

/-- The value of a field is a text for a custom tool and an object for a function. -/
def FieldHolds (custom : Bool) (value : Value) (decoded : ToolInput) : Prop :=
  if custom then ∃ text, value = .string text ∧ decoded = .custom text
  else ∃ object, value = .object object ∧ decoded = .function value

theorem decodeField_eq_ok (ordered : Ordered entries) :
    decodeField name field custom entries = .ok decoded ↔
      ∃ value, entries = insert field value [] ∧ FieldHolds custom value decoded := by
  unfold decodeField FieldHolds
  simp only [bind_eq_ok, okOr_eq_ok, require_eq_ok, List.isEmpty_iff]
  constructor
  · intro ran
    obtain ⟨value, found, _, empty, ran⟩ := ran
    refine ⟨value, (remove_eq_nil ordered).mp ⟨found, empty⟩, ?_⟩
    cases custom with
    | true =>
      simp only [if_true, bind_eq_ok, okOr_eq_ok, pure_eq_ok] at ran ⊢
      obtain ⟨text, same, rfl⟩ := ran
      exact ⟨text, Value.asStr_eq_some.mp same, rfl⟩
    | false =>
      simp only [Bool.false_eq_true, if_false, bind_eq_ok, require_eq_ok, pure_eq_ok] at ran ⊢
      obtain ⟨_, isObject, rfl⟩ := ran
      obtain ⟨object, same⟩ := Option.isSome_iff_exists.mp isObject
      exact ⟨object, Value.asObject_eq_some.mp same, rfl⟩
  · intro holds
    obtain ⟨value, same, holds⟩ := holds
    obtain ⟨found, empty⟩ := (remove_eq_nil ordered).mpr same
    refine ⟨value, found, ⟨⟩, empty, ?_⟩
    cases custom with
    | true =>
      obtain ⟨text, rfl, rfl⟩ := holds
      simp
    | false =>
      obtain ⟨object, rfl, rfl⟩ := holds
      simp [Value.asObject]

/-- The fields of an envelope are those it names, and nothing else. -/
theorem envelopeFields_iff (ordered : Ordered entries) (apart : field ≠ "delivery") :
    entries.lookup "delivery" = some (.string (deliveryName choice)) ∧
      remove "delivery" entries = insert field value [] ↔
      entries = envelopeFields field true value choice := by
  constructor
  · intro parts
    refine ordered.ext ordered_envelopeFields fun key => ?_
    simp only [envelopeFields, if_true, lookup_insert]
    by_cases same : key = "delivery"
    · rw [if_pos same, same, parts.1]
    · have rest := congrArg (List.lookup key) parts.2
      rw [lookup_remove, if_neg same, lookup_insert] at rest
      rw [if_neg same, rest]
  · intro whole
    subst whole
    refine ⟨by simp [envelopeFields], ?_⟩
    refine (ordered.remove _).ext (Ordered.nil.insert field value) fun key => ?_
    simp only [envelopeFields, if_true, lookup_remove, lookup_insert]
    by_cases same : key = "delivery"
    · rw [if_pos same, same, if_neg (Ne.symm apart), List.lookup_nil]
    · rw [if_neg same, if_neg same]

/-- Exactly the envelopes decode. -/
theorem decodeEnvelope_eq_ok (ordered : Ordered entries) (apart : field ≠ "delivery")
    {execution : Option ToolExecution} :
    decodeEnvelope name field custom delivery (.function (.object entries)) =
      .ok (decoded, execution) ↔
      ∃ value choice, entries = envelopeFields field delivery value choice ∧
        execution = some choice ∧ (delivery = true ∨ choice = .synchronous) ∧
        FieldHolds custom value decoded := by
  simp only [decodeEnvelope, bind_eq_ok, pure_eq_ok, Prod.mk.injEq]
  cases delivery with
  | true =>
    simp only [if_true, decodeDelivery_eq_ok, decodeField_eq_ok (ordered.remove _)]
    constructor
    · intro ran
      obtain ⟨choice, named, input, ⟨value, rest, holds⟩, rfl, rfl⟩ := ran
      exact ⟨value, choice, (envelopeFields_iff ordered apart).mp ⟨named, rest⟩, rfl, .inl trivial,
        holds⟩
    · intro whole
      obtain ⟨value, choice, same, rfl, _, holds⟩ := whole
      obtain ⟨named, rest⟩ := (envelopeFields_iff ordered apart).mpr same
      exact ⟨choice, named, decoded, ⟨value, rest, holds⟩, rfl, rfl⟩
  | false =>
    simp only [Bool.false_eq_true, if_false, false_or, decodeField_eq_ok ordered]
    constructor
    · intro ran
      obtain ⟨choice, named, input, ⟨value, rest, holds⟩, rfl, rfl⟩ := ran
      cases named
      exact ⟨value, _, rest, rfl, rfl, holds⟩
    · intro whole
      obtain ⟨value, choice, same, rfl, rfl, holds⟩ := whole
      exact ⟨_, rfl, decoded, ⟨value, same, holds⟩, rfl, rfl⟩

end

section

variable {tool : Value} {key : String} {scheduling : List (String × ToolScheduling)}
  {kinds final : List (String × ToolKind)} {tools : List Value}

theorem lookup_entries : tool.entries.lookup key = tool.get? key := by
  cases tool <;> rfl

theorem index_declareAsync (other : key ≠ "async") :
    (declareAsync scheduling tool).index key = tool.index key := by
  simp [declareAsync, Value.index, lookup_entries, other]

theorem index_removeAsync (other : key ≠ "async") :
    (removeAsync tool).index key = tool.index key := by
  simp [removeAsync, Value.index, lookup_entries, other]

/-- The kind of every declaration is kept under its name. -/
theorem admitted_kind (ran : tools.foldlM admitKind kinds = .ok final) :
    (∀ name kind, kinds.lookup name = some kind → final.lookup name = some kind) ∧
      ∀ tool ∈ tools, ∃ name kind, tool.index "name" = .string name ∧
        declaredKind tool name = .ok kind ∧ final.lookup name = some kind := by
  induction tools generalizing kinds with
  | nil =>
    cases ran
    refine ⟨fun _ _ found => found, ?_⟩
    intro tool member
    cases member
  | cons first rest ih =>
    rw [List.foldlM_cons, bind_eq_ok] at ran
    obtain ⟨next, admitted, ran⟩ := ran
    obtain ⟨kept, later⟩ := ih ran
    simp only [admitKind, bind_eq_ok, okOr_eq_ok, require_eq_ok, pure_eq_ok,
      Option.filter_eq_some_iff, Value.asStr_eq_some] at admitted
    obtain ⟨name, ⟨named, _⟩, kind, declared, _, _, _, missing, rfl⟩ := admitted
    constructor
    · intro other known found
      refine kept other known ?_
      rw [List.lookup_append, found, Option.some_or]
    · intro tool member
      rcases List.mem_cons.mp member with same | inside
      · subst same
        refine ⟨name, kind, named, declared, kept name kind ?_⟩
        rw [List.lookup_append, Option.isNone_iff_eq_none.mp missing, Option.none_or]
        simp
      · exact later tool inside

/-- What admission leaves to the projection: every declaration has a kind, the parameters
of a function are admitted, and no text field is named like the delivery. -/
structure EmbeddedToolManifest.Admitted (manifest : EmbeddedToolManifest) : Prop where
  declared : ∀ tool ∈ manifest.tools, ∃ name kind, tool.index "name" = .string name ∧
    manifest.kinds.lookup name = some kind ∧
    (kind = .function → validateFunctionParameters (tool.index "parameters") = .ok ())
  fields : ∀ name field, manifest.textFields.lookup name = some field → field ≠ "delivery"

theorem declaredKind_function {name : String} (declared : declaredKind tool name = .ok .function) :
    tool.index "type" = .string "function" := by
  unfold declaredKind at declared
  split at declared
  case isTrue typed => exact typed.1
  case isFalse =>
    split at declared
    · cases declared
    · cases declared

theorem strictTools_parameters (strict : strictTools tools = .ok ⟨⟩) (member : tool ∈ tools)
    (typed : tool.index "type" = .string "function") :
    validateFunctionParameters (tool.index "parameters") = .ok () := by
  have checked := forM_eq_ok.mp strict tool member
  simp only [typed, if_true, bind_eq_ok, require_eq_ok, mapError_eq_ok] at checked
  obtain ⟨_, _, valid⟩ := checked
  exact valid

theorem EmbeddedToolManifest.Admitted.of_withTextFields {textFields : List (String × String)}
    {manifest : EmbeddedToolManifest}
    (ran : withTextFields tools scheduling textFields = .ok manifest) : manifest.Admitted := by
  simp only [withTextFields, withScheduling, bind_eq_ok, pure_eq_ok, require_eq_ok] at ran
  obtain ⟨_, ⟨kinds, folded, _, _, _, strict, rfl⟩, _, checked, rfl⟩ := ran
  constructor
  · intro tool member
    obtain ⟨source, inside, same⟩ := List.mem_map.mp member
    obtain ⟨name, kind, named, declared, known⟩ := (admitted_kind folded).2 source inside
    refine ⟨name, kind, ?_, known, ?_⟩
    · rw [← same, index_declareAsync (by decide), named]
    · intro isFunction
      subst isFunction
      refine strictTools_parameters strict member ?_
      rw [← same, index_declareAsync (by decide)]
      exact declaredKind_function declared
  · intro name field found
    have valid := forM_eq_ok.mp checked (name, field) (mem_of_lookup found)
    simp only [require_eq_ok, Bool.and_eq_true, bne_iff_ne] at valid
    exact valid.2

end

/-- A host accepts a text for a custom tool and arguments that conform to the parameters
of a function. -/
def Accepts (conforms : Value → Value → Prop) (kind : ToolKind) (tool : Value) : ToolInput → Prop
  | .function arguments => kind = .function ∧ conforms arguments (tool.index "parameters")
  | .custom _ => kind = .custom

/-- The input that an encoding decodes to is of the kind of the tool. -/
def Encoding.Yields : Encoding → ToolInput → Prop
  | .text _ _, decoded => ∃ text, decoded = .custom text
  | .arguments, decoded => ∃ object, decoded = .function (.object object)
  | .identity, decoded => ∃ arguments, decoded = .function arguments

section

variable {manifest wire : EmbeddedToolManifest} {map : EncodingMap} {profile : ToolEncodingProfile}
  {conforms : Value → Value → Prop} {tool : Value} {name : String} {kind : ToolKind}
  {encoding : Encoding} {input decoded : ToolInput} {choice : ToolExecution}

/-- What the projection of a manifest installs for one of its tools. -/
structure Installed (manifest wire : EmbeddedToolManifest) (map : EncodingMap) (tool : Value)
    (name : String) (declared : Value) : Prop where
  member : declared ∈ wire.tools
  named : declared.index "name" = .string name
  parameters : declared.index "parameters" =
    (encodeTool name tool (encodingOf manifest name)).index "parameters"
  row : map.rows.lookup name = some (encodingOf manifest name)

theorem lookup_of_function {Item : Type} {rows : List (String × Item)} (item : String → Item)
    (functional : ∀ row ∈ rows, row.2 = item row.1) (member : ∃ row ∈ rows, row.1 = name) :
    rows.lookup name = some (item name) := by
  obtain ⟨row, inside, same⟩ := member
  subst same
  obtain ⟨value, found⟩ := mem_keys_iff.mp (List.mem_map_of_mem inside : row.1 ∈ keys rows)
  rw [found]
  exact congrArg some (functional _ (mem_of_lookup found))

theorem projectTool_eq_ok {row : Value × String × Encoding} (encoded : profile ≠ .native)
    (projected : projectTool manifest profile tool = .ok row) :
    row.2.2 = encodingOf manifest row.2.1 ∧ (∀ name, tool.index "name" = .string name →
      row.2.1 = name ∧ row.1 = removeAsync (encodeTool name tool (encodingOf manifest name))) := by
  simp only [projectTool, if_neg encoded, bind_eq_ok, require_eq_ok, pure_eq_ok] at projected
  obtain ⟨_, _, _, _, rfl⟩ := projected
  refine ⟨rfl, ?_⟩
  intro name named
  simp [named, Value.asStr]

theorem Installed.of_project (encoded : profile ≠ .native)
    (projected : EncodingMap.project manifest profile = .ok (wire, map))
    (member : tool ∈ manifest.tools) (named : tool.index "name" = .string name) :
    map.profile = profile ∧ ∃ declared, Installed manifest wire map tool name declared := by
  simp only [EncodingMap.project, EmbeddedToolManifest.withScheduling, bind_eq_ok, require_eq_ok,
    pure_eq_ok, if_neg encoded, Prod.mk.injEq] at projected
  obtain ⟨rows, mapped, _, ⟨kinds, folded, _, _, _, strict, rfl⟩, rfl, rfl⟩ := projected
  have each := mapM_eq_ok.mp mapped
  obtain ⟨row, inside, made⟩ := exists_right_of_forall₂ each tool member
  obtain ⟨_, exactly⟩ := projectTool_eq_ok encoded made
  obtain ⟨rowName, declared⟩ := exactly name named
  refine ⟨rfl, removeAsync (declareAsync manifest.scheduling row.1), ?_, ?_, ?_, ?_⟩
  · exact List.mem_map_of_mem (List.mem_map_of_mem (List.mem_map_of_mem inside))
  · rw [index_removeAsync (by decide), index_declareAsync (by decide), declared,
      index_removeAsync (by decide)]
    cases encodingOf manifest name with
    | identity => exact named
    | text field delivery => rfl
    | arguments => rfl
  · rw [index_removeAsync (by decide), index_declareAsync (by decide), declared,
      index_removeAsync (by decide)]
  · refine lookup_of_function (encodingOf manifest) ?_ ⟨row.2, List.mem_map_of_mem inside, rowName⟩
    intro other listed
    obtain ⟨whole, source, same⟩ := List.mem_map.mp listed
    obtain ⟨_, _, made⟩ := exists_left_of_forall₂ each whole source
    rw [← same]
    exact (projectTool_eq_ok encoded made).1

/-- No field of an encoding is named like the delivery. -/
def Encoding.Apart : Encoding → Prop
  | .text field _ => field ≠ "delivery"
  | _ => True

theorem decode_text {field : String} {delivery : Bool} {execution : Option ToolExecution}
    (apart : field ≠ "delivery")
    (ordered : ∀ entries, input = .function (.object entries) → Ordered entries) :
    decodeEnvelope name field true delivery input = .ok (decoded, execution) ↔
      ∃ choice, execution = some choice ∧ (Encoding.text field delivery).Offers choice ∧
        (Encoding.text field delivery).Yields decoded ∧
        input = .function (envelope (.text field delivery) decoded choice) := by
  constructor
  · intro ran
    have known : ∃ entries, input = .function (.object entries) := by
      unfold decodeEnvelope at ran
      split at ran
      · exact ⟨_, rfl⟩
      · cases ran
    obtain ⟨entries, same⟩ := known
    subst same
    obtain ⟨value, choice, same, chosen, offered, text, rfl, rfl⟩ :=
      (decodeEnvelope_eq_ok (ordered entries rfl) apart).mp ran
    exact ⟨choice, chosen, offered, ⟨text, rfl⟩, by rw [same]; rfl⟩
  · intro whole
    obtain ⟨choice, chosen, offered, ⟨text, rfl⟩, rfl⟩ := whole
    exact (decodeEnvelope_eq_ok ordered_envelopeFields apart).mpr
      ⟨.string text, choice, rfl, chosen, offered, text, rfl, rfl⟩

theorem decode_arguments {execution : Option ToolExecution}
    (ordered : ∀ entries, input = .function (.object entries) → Ordered entries) :
    decodeEnvelope name "arguments" false true input = .ok (decoded, execution) ↔
      ∃ choice, execution = some choice ∧ Encoding.arguments.Offers choice ∧
        Encoding.arguments.Yields decoded ∧
        input = .function (envelope .arguments decoded choice) := by
  have apart : "arguments" ≠ "delivery" := by
    decide
  constructor
  · intro ran
    have known : ∃ entries, input = .function (.object entries) := by
      unfold decodeEnvelope at ran
      split at ran
      · exact ⟨_, rfl⟩
      · cases ran
    obtain ⟨entries, same⟩ := known
    subst same
    obtain ⟨value, choice, same, chosen, _, object, rfl, rfl⟩ :=
      (decodeEnvelope_eq_ok (ordered entries rfl) apart).mp ran
    exact ⟨choice, chosen, trivial, ⟨object, rfl⟩, by rw [same]; rfl⟩
  · intro whole
    obtain ⟨choice, chosen, _, ⟨object, rfl⟩, rfl⟩ := whole
    exact (decodeEnvelope_eq_ok ordered_envelopeFields apart).mpr
      ⟨.object object, choice, rfl, chosen, .inl rfl, object, rfl, rfl⟩

/-- Behind a wrapping encoding, exactly the envelopes decode. -/
theorem decode_wrapped {execution : Option ToolExecution}
    (row : map.rows.lookup name = some encoding) (wrapped : encoding ≠ .identity)
    (apart : encoding.Apart)
    (ordered : ∀ entries, input = .function (.object entries) → Ordered entries) :
    map.decode name input = .ok (decoded, execution) ↔
      ∃ choice, execution = some choice ∧ encoding.Offers choice ∧ encoding.Yields decoded ∧
        input = .function (envelope encoding decoded choice) := by
  unfold EncodingMap.decode
  rw [row]
  cases encoding with
  | identity => exact absurd rfl wrapped
  | text field delivery => exact decode_text apart ordered
  | arguments => exact decode_arguments ordered

theorem encodingOf_apart (admitted : manifest.Admitted) : (encodingOf manifest name).Apart := by
  unfold encodingOf
  simp only
  split
  case isTrue =>
    cases found : manifest.textFields.lookup name with
    | none => exact (by decide : "input" ≠ "delivery")
    | some field => exact admitted.fields name field found
  case isFalse =>
    split
    · trivial
    · trivial

/-- An encoding wraps the inputs of custom tools and of those that may run in the
background. -/
theorem encodingOf_identity (known : manifest.kinds.lookup name = some kind) :
    encodingOf manifest name = .identity ↔
      kind = .function ∧ schedulingOf manifest.scheduling name ≠ .async := by
  unfold encodingOf
  cases kind with
  | custom => simp [known]
  | function => simp [known]

theorem encodingOf_custom (known : manifest.kinds.lookup name = some .custom) :
    encodingOf manifest name = .text ((manifest.textFields.lookup name).getD "input")
      (schedulingOf manifest.scheduling name = .async) :=
  if_pos known

theorem encodingOf_function (known : manifest.kinds.lookup name = some .function) :
    encodingOf manifest name = .arguments ∨ encodingOf manifest name = .identity := by
  unfold encodingOf
  simp only [known, Option.some.injEq, reduceCtorEq, if_false]
  split
  · exact .inl rfl
  · exact .inr rfl

/-- What a tool accepts is an input of the kind that its encoding yields. -/
theorem Accepts.yields (conformance : Conformance conforms)
    (known : manifest.kinds.lookup name = some kind)
    (typed : kind = .function → validateFunctionParameters (tool.index "parameters") = .ok ())
    (accepted : Accepts conforms kind tool input) : (encodingOf manifest name).Yields input := by
  cases input with
  | custom text =>
    have isCustom : kind = .custom := accepted
    subst isCustom
    rw [encodingOf_custom known]
    exact ⟨text, rfl⟩
  | function arguments =>
    obtain ⟨isFunction, conforming⟩ := accepted
    subst isFunction
    rcases encodingOf_function known with wrapped | plain
    · rw [wrapped]
      obtain ⟨object, same⟩ := conformance.object conforming (typed rfl)
      exact ⟨object, congrArg ToolInput.function same⟩
    · rw [plain]
      exact ⟨arguments, rfl⟩

/-- The envelope of an accepted input conforms to the parameters of its encoding. -/
theorem Accepts.enveloped (conformance : Conformance conforms) (admitted : manifest.Admitted)
    (known : manifest.kinds.lookup name = some kind)
    (accepted : Accepts conforms kind tool input) (choice : ToolExecution) :
    conforms (envelope (encodingOf manifest name) input choice)
      ((encodeTool name tool (encodingOf manifest name)).index "parameters") := by
  have apart : (encodingOf manifest name).Apart := encodingOf_apart admitted
  cases input with
  | custom text =>
    have isCustom : kind = .custom := accepted
    subst isCustom
    rw [encodingOf_custom known] at apart ⊢
    exact envelope_conforms conformance (conformance.string text) apart choice
  | function arguments =>
    obtain ⟨isFunction, conforming⟩ := accepted
    subst isFunction
    rcases encodingOf_function known with wrapped | plain
    · rw [wrapped]
      exact envelope_conforms conformance conforming (by decide) choice
    · rw [plain]
      exact conforming

/-- The envelope of an input decodes to it and to the chosen delivery. -/
theorem decode_envelope (row : map.rows.lookup name = some encoding) (apart : encoding.Apart)
    (yields : encoding.Yields input) (offered : encoding.Offers choice) :
    ∃ execution, map.decode name (.function (envelope encoding input choice)) =
      .ok (input, execution) ∧ execution.getD .synchronous = choice := by
  by_cases wrapped : encoding = .identity
  · subst wrapped
    obtain ⟨arguments, same⟩ := yields
    subst same
    refine ⟨none, ?_, offered.symm⟩
    rw [EncodingMap.decode, row]
    rfl
  · refine ⟨some choice, (decode_wrapped row wrapped apart ?_).mpr
      ⟨choice, rfl, offered, yields, rfl⟩, rfl⟩
    intro entries same
    cases encoding with
    | identity => exact absurd rfl wrapped
    | text field delivery =>
      obtain ⟨text, rfl⟩ := yields
      cases same
      exact ordered_envelopeFields
    | arguments =>
      obtain ⟨object, rfl⟩ := yields
      cases same
      exact ordered_envelopeFields

theorem tool_encoding_round_trip {tools : List Value} {scheduling : List (String × ToolScheduling)}
    {textFields : List (String × String)} (conformance : Conformance conforms)
    (admitted : EmbeddedToolManifest.withTextFields tools scheduling textFields = .ok manifest)
    (encoded : profile ≠ .native)
    (projected : EncodingMap.project manifest profile = .ok (wire, map)) :
    ∀ tool ∈ manifest.tools, ∃ name kind declared encoding,
      tool.index "name" = .string name ∧ manifest.kinds.lookup name = some kind ∧
      declared ∈ wire.tools ∧ declared.index "name" = .string name ∧
      map.rows.lookup name = some encoding ∧
      (encoding = .identity ↔
        kind = .function ∧ schedulingOf manifest.scheduling name ≠ .async) ∧
      -- An accepted input is encoded within the declared parameters and decoded exactly.
      (∀ input choice, Accepts conforms kind tool input → encoding.Offers choice →
        conforms (envelope encoding input choice) (declared.index "parameters") ∧
        (∃ execution,
          map.decode name (.function (envelope encoding input choice)) = .ok (input, execution)) ∧
        ∀ callId execution,
          map.execution ⟨callId, name, .function (envelope encoding input choice), execution⟩ =
            .ok choice) ∧
      -- Behind a wrapping encoding, only envelopes decode.
      (encoding ≠ .identity → ∀ input : ToolInput,
        (∀ value, input = .function value → value.wellFormed = true) →
        ∀ decoded execution, map.decode name input = .ok (decoded, execution) →
          ∃ choice, execution = some choice ∧ encoding.Offers choice ∧ encoding.Yields decoded ∧
            input = .function (envelope encoding decoded choice)) ∧
      -- What is not wrapped is passed on unchanged.
      (encoding = .identity → ∀ input, map.decode name input = .ok (input, none)) := by
  have facts := EmbeddedToolManifest.Admitted.of_withTextFields admitted
  intro tool member
  obtain ⟨name, kind, named, known, typed⟩ := facts.declared tool member
  obtain ⟨same, declared, installed⟩ := Installed.of_project encoded projected member named
  have apart : (encodingOf manifest name).Apart := encodingOf_apart facts
  refine ⟨name, kind, declared, encodingOf manifest name, named, known, installed.member,
    installed.named, installed.row, encodingOf_identity known, ?_, ?_, ?_⟩
  · intro input choice accepted offered
    have conforming := Accepts.enveloped conformance facts known accepted choice
    rw [← installed.parameters] at conforming
    have yields := Accepts.yields conformance known typed accepted
    obtain ⟨execution, decoded, chosen⟩ := decode_envelope installed.row apart yields offered
    refine ⟨conforming, ⟨execution, decoded⟩, fun callId issued => ?_⟩
    rw [EncodingMap.execution, decoded, same, if_neg encoded]
    exact congrArg Except.ok chosen
  · intro wrapped input formed decoded execution ran
    refine (decode_wrapped installed.row wrapped apart ?_).mp ran
    intro entries same
    exact (Value.wellFormed_object.mp (formed _ same)).1
  · intro plain input
    rw [EncodingMap.decode, installed.row, plain]

end

def notebookTool : Value :=
  .object [("name", .string "notebook"), ("type", .string "custom")]

def statusTool : Value :=
  .object [
    ("name", .string "status"),
    ("parameters", .object [
      ("additionalProperties", .bool false), ("properties", .object []), ("required", .array []),
      ("type", .string "object")]),
    ("strict", .bool true), ("type", .string "function")]

/-- A custom tool that may run in the background and a function that may not. -/
def hostManifest : Except EmbeddedError EmbeddedToolManifest :=
  EmbeddedToolManifest.withTextFields [notebookTool, statusTool] [("status", .beforeNextInference)]
    [("notebook", "source")]

theorem hostManifest_projected : ∃ manifest wire map, hostManifest = .ok manifest ∧
    EncodingMap.project manifest .functionOnlyExplicitDelivery = .ok (wire, map) ∧
    manifest.tools.head? = some (declareAsync [] notebookTool) ∧
    manifest.kinds = [("notebook", .custom), ("status", .function)] ∧
    map.rows = [("notebook", .text "source" true), ("status", .identity)] := by
  have installed : (hostManifest.toOption.any fun manifest =>
      (EncodingMap.project manifest .functionOnlyExplicitDelivery).toOption.any fun pair =>
        manifest.tools.head? = some (declareAsync [] notebookTool) &&
          manifest.kinds = [("notebook", .custom), ("status", .function)] &&
          pair.2.rows = [("notebook", .text "source" true), ("status", .identity)]) = true := by
    decide +kernel
  obtain ⟨manifest, admitted, installed⟩ := toOption_any installed
  obtain ⟨⟨wire, map⟩, projected, rows⟩ := toOption_any installed
  simp only [Bool.and_eq_true, decide_eq_true_eq] at rows
  exact ⟨manifest, wire, map, admitted, projected, rows.1.1, rows.1.2, rows.2⟩

theorem tool_encoding_round_trip_notebook : ∃ manifest wire map declared,
    hostManifest = .ok manifest ∧
    EncodingMap.project manifest .functionOnlyExplicitDelivery = .ok (wire, map) ∧
    declared ∈ wire.tools ∧
    fits (envelope (.text "source" true) (.custom "1 + 1") .asynchronous)
      (declared.index "parameters") = true ∧
    ∃ execution, map.decode "notebook" (.function
      (envelope (.text "source" true) (.custom "1 + 1") .asynchronous)) =
        .ok (.custom "1 + 1", execution) := by
  obtain ⟨manifest, wire, map, admitted, projected, head, kinds, rows⟩ := hostManifest_projected
  obtain ⟨name, kind, declared, encoding, named, known, member, _, row, _, trips, _⟩ :=
    tool_encoding_round_trip conformance_fits admitted (by decide) projected _
      (List.mem_of_mem_head? head)
  rw [index_declareAsync (by decide)] at named
  cases named
  rw [rows] at row
  cases row
  rw [kinds] at known
  cases known
  obtain ⟨conforming, decoded, _⟩ := trips (.custom "1 + 1") .asynchronous rfl (.inl rfl)
  exact ⟨manifest, wire, map, declared, admitted, projected, member, conforming, decoded⟩

/-- A function that is not wrapped passes on whatever it is called with. -/
theorem tool_encoding_unchecked : ∃ manifest wire map,
    hostManifest = .ok manifest ∧
    EncodingMap.project manifest .functionOnlyExplicitDelivery = .ok (wire, map) ∧
    fits (.object [("extra", .bool true)]) (statusTool.index "parameters") = false ∧
    map.decode "status" (.function (.object [("extra", .bool true)])) =
      .ok (.function (.object [("extra", .bool true)]), none) := by
  obtain ⟨manifest, wire, map, admitted, projected, _, _, rows⟩ := hostManifest_projected
  refine ⟨manifest, wire, map, admitted, projected, by decide +kernel, ?_⟩
  rw [EncodingMap.decode, rows]
  rfl

end ExomonadHarness.Embedding
