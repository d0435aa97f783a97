import ExomonadHarness.Schema.Plan
import ExomonadHarness.Schema.Decode

/-! The wire form of host arguments. The provider must send every property, so
an omitted one travels as null; the decoder reads it back. -/

namespace ExomonadHarness.Schema

open Json Checked OrderedMap Reference ArgumentProjection

/-- The wire value carries the host value: the two differ only where the host
omits an optional property that does not admit null, which the wire writes as
null. A value of a union travels along a branch it conforms to. -/
inductive Carries : Value → Value → Value → Prop where
  | scalar {object : Map} {kind : Kind} {value : Value}
      (typed : object.lookup "type" = some (.string kind.name))
      (partless : kind ≠ .object ∧ kind ≠ .array) :
      Carries (.object object) value value
  | array {object : Map} {items : Value} {host wire : List Value}
      (typed : object.lookup "type" = some (.string Kind.array.name))
      (found : object.lookup "items" = some items) (sameLength : host.length = wire.length)
      (children : ∀ (index : ℕ) child written, host[index]? = some child → wire[index]? = some written →
        Carries items child written) :
      Carries (.object object) (.array host) (.array wire)
  | object {object properties host wire : Map}
      (typed : object.lookup "type" = some (.string Kind.object.name))
      (declared : object.lookup "properties" = some (.object properties))
      (foreign : ∀ name, properties.lookup name = none →
        host.lookup name = none ∧ wire.lookup name = none)
      (omitted : ∀ name property, properties.lookup name = some property →
        host.lookup name = none → isRequired object name = false ∧
          accepts property .null = false ∧ wire.lookup name = some .null)
      (sent : ∀ name child, host.lookup name = some child → (wire.lookup name).isSome)
      (kept : ∀ name property child written, properties.lookup name = some property →
        host.lookup name = some child → wire.lookup name = some written →
        Carries property child written) :
      Carries (.object object) (.object host) (.object wire)
  | union {object : Map} {branch host wire : Value} (member : branch ∈ branches object)
      (conforms : accepts branch host = true) (carried : Carries branch host wire) :
      Carries (.object object) host wire

variable {schema : Value} {path : String}

/-- Nothing but null travels as null. -/
theorem Carries.null_iff {host wire : Value} (carried : Carries schema host wire) :
    wire = .null ↔ host = .null := by
  induction carried with
  | scalar => exact Iff.rfl
  | array => exact ⟨by simp, by simp⟩
  | object => exact ⟨by simp, by simp⟩
  | union _ _ _ ih => exact ih

theorem fits_nullable (value normalized : Value) :
    fits value (nullable normalized) = (fits value normalized || value == .null) := by
  have empty : fits value (.object (typed .null)) = (value == .null) := by
    rw [fits_kind value .null (by simp [lookup_typed]) (by simp [lookup_typed])]
    cases value <;> rfl
  rw [nullable, fits_anyOf, List.any_cons, List.any_cons, empty, List.any_nil, Bool.or_false]

/-- A property admits its own values, and null where null stands for its
omission. -/
theorem fits_carryOmission (object : Map) (name : String) (value normalized : Value) :
    fits value (carryOmission object name normalized "$") = (fits value normalized ||
      (!isRequired object name && !fits .null normalized) && value == .null) := by
  unfold carryOmission
  rw [validateValue_isOk]
  split
  · rename_i carrier
    rw [fits_nullable, carrier, Bool.true_and]
  · rename_i plain
    rw [Bool.eq_false_iff.mpr plain, Bool.false_and, Bool.or_false]

/-- What a decoder promises about a wire value that fits the strict schema. -/
def Decoded (schema wire : Value) : Except SchemaError Value → Prop
  | .ok host => accepts schema host = true ∧ Carries schema host wire ∧ host.wellFormed = true
  | .error failure => ∃ path, failure = .ambiguousArguments path

theorem decoded_union {object : Map} {normalized wire : Value}
    {variants : List (Value × ArgumentProjection)}
    (children : List.Forall₂ (fun branch variant => Planned branch variant.1 variant.2 ∧
      branch.size < (Value.object object).size) (branches object) variants)
    (meaning : ∀ value, accepts (.object object) value =
      (branches object).any fun branch => accepts branch value)
    (fitting : fits wire normalized = variants.any fun variant => fits wire variant.1)
    (fits : fits wire normalized = true)
    (below : ∀ branch (variant : Value × ArgumentProjection), Planned branch variant.1 variant.2 →
      branch.size < (Value.object object).size → Schema.fits wire variant.1 = true →
      Decoded branch wire (variant.2.decode wire path)) :
    Decoded (.object object) wire ((ArgumentProjection.alternatives variants).decode wire path) := by
  rw [fitting, List.any_eq_true] at fits
  obtain ⟨variant, member, fits⟩ := fits
  obtain ⟨branch, branched, planned, smaller⟩ := exists_left_of_forall₂ children variant member
  simp only [ArgumentProjection.decode]
  cases result : decodeVariants variants wire path none with
  | error failure =>
    rcases decodeVariants_error result with ambiguous | ⟨other, otherMember, otherFits, failed⟩
    · exact ⟨path, ambiguous⟩
    · obtain ⟨source, _, planned, smaller⟩ := exists_left_of_forall₂ children other otherMember
      have promise := below source other planned smaller otherFits
      rw [failed] at promise
      exact promise
  | ok decoded =>
    obtain ⟨host, passed, same⟩ := (decodeVariants_ok result).2 variant member fits
    have promise := below branch variant planned smaller fits
    rw [passed] at promise
    obtain ⟨accepted, carried, formed⟩ := promise
    subst same
    refine ⟨?_, .union branched accepted carried, formed⟩
    rw [Option.getD_some, meaning, List.any_eq_true]
    exact ⟨branch, branched, accepted⟩

/-- One property of a decoded object: undeclared, omitted by the host, or
decoded. -/
inductive PropertyDecoded (object properties wire host : Map) (name : String) : Prop where
  | undeclared (foreign : properties.lookup name = none) (unsent : wire.lookup name = none)
      (absent : host.lookup name = none)
  | omitted {property : Value} (declared : properties.lookup name = some property)
      (optional : isRequired object name = false) (refused : accepts property .null = false)
      (sent : wire.lookup name = some .null) (absent : host.lookup name = none)
  | decoded {property written child : Value} (declared : properties.lookup name = some property)
      (sent : wire.lookup name = some written) (present : host.lookup name = some child)
      (promise : Decoded property written (.ok child))

theorem decoded_object {object properties wire host : Map} {mode : SchemaMode}
    (kinded : KindSchema object .object) (closed : ObjectSchema object properties mode)
    (ordered : Ordered host) (each : ∀ name, PropertyDecoded object properties wire host name) :
    Decoded (.object object) (.object wire) (.ok (.object host)) := by
  have held {name : String} {child : Value} (present : host.lookup name = some child) :
      ∃ property written, properties.lookup name = some property ∧
        wire.lookup name = some written ∧ Decoded property written (.ok child) := by
    cases each name with
    | undeclared _ _ absent => cases present.symm.trans absent
    | omitted _ _ _ _ absent => cases present.symm.trans absent
    | decoded declared sent here promise =>
      cases present.symm.trans here
      exact ⟨_, _, declared, sent, promise⟩
  refine ⟨(accepts_object_iff kinded closed).mpr ⟨?_, ?_⟩,
    .object kinded.typed closed.declared ?_ ?_ ?_ ?_, Value.wellFormed_object.mpr ⟨ordered, ?_⟩⟩
  · intro name required
    obtain ⟨_, declared⟩ := Option.isSome_iff_exists.mp (closed.declares required)
    cases each name with
    | undeclared foreign => cases declared.symm.trans foreign
    | omitted _ optional => cases required.symm.trans optional
    | decoded _ _ present => simp [present]
  · rintro ⟨name, child⟩ member
    obtain ⟨property, _, declared, _, promise⟩ := held (ordered.lookup_of_mem member)
    exact ⟨property, declared, promise.1⟩
  · intro name foreign
    cases each name with
    | undeclared _ unsent absent => exact ⟨absent, unsent⟩
    | omitted declared => cases declared.symm.trans foreign
    | decoded declared => cases declared.symm.trans foreign
  · intro name property declared absent
    cases each name with
    | undeclared foreign => cases declared.symm.trans foreign
    | omitted also optional refused sent =>
      cases declared.symm.trans also
      exact ⟨optional, refused, sent⟩
    | decoded _ _ present => cases present.symm.trans absent
  · intro name child present
    obtain ⟨_, _, _, sent, _⟩ := held present
    simp [sent]
  · intro name property child written declared present sent
    obtain ⟨_, _, also, again, promise⟩ := held present
    cases declared.symm.trans also
    cases sent.symm.trans again
    exact promise.2.1
  · rintro ⟨name, child⟩ member
    obtain ⟨_, _, _, _, promise⟩ := held (ordered.lookup_of_mem member)
    exact promise.2.2

theorem Planned.fits_null {normalized : Value} {projection : ArgumentProjection}
    (planned : Planned schema normalized projection) :
    fits .null normalized = accepts schema .null :=
  fits_normalized planned.normal planned.formed rfl (.inl rfl)

namespace ObjectPlan

variable {object properties outputs wire : Map} {fields : List (String × Bool × ArgumentProjection)}
  {name : String}

theorem distinct (plan : ObjectPlan object properties outputs fields) : (keys fields).Nodup :=
  plan.sameFields ▸ plan.propertiesOrdered.nodup_keys

theorem unlisted (plan : ObjectPlan object properties outputs fields)
    (foreign : properties.lookup name = none) : name ∉ keys fields := by
  rw [plan.sameFields, mem_keys_iff]
  simp [foreign]

/-- What a plan says about one declared property of a fitting object. -/
theorem sent (plan : ObjectPlan object properties outputs fields) (ordered : Ordered wire)
    (fitting : fits (.object wire) (.object (closedObject outputs)) = true) {normalized : Value}
    (written : outputs.lookup name = some (carryOmission object name normalized "$")) :
    ∃ child, wire.lookup name = some child ∧ (fits child normalized = true ∨
      (!isRequired object name && !fits .null normalized) = true ∧ child = .null) := by
  obtain ⟨present, each⟩ := (fits_closedObject_iff plan.outputsOrdered ordered).mp fitting
  obtain ⟨child, sent⟩ := Option.isSome_iff_exists.mp ((present name).mp (by simp [written]))
  have fitting := each name _ child written sent
  rw [fits_carryOmission, Bool.or_eq_true, Bool.and_eq_true, beq_iff_eq] at fitting
  exact ⟨child, sent, fitting⟩

/-- An object is decoded by its properties. -/
theorem decoded (plan : ObjectPlan object properties outputs fields) (ordered : Ordered wire)
    (fitting : fits (.object wire) (.object (closedObject outputs)) = true) {path : String}
    (below : ∀ {name property normalized child projection} (path : String),
      properties.lookup name = some property → Planned property normalized projection →
      wire.lookup name = some child → fits child normalized = true →
      Decoded property child (projection.decode child path)) :
    Decoded (.object object) (.object wire)
      ((ArgumentProjection.object fields).decode (.object wire) path) := by
  simp only [ArgumentProjection.decode]
  cases result : decodeFields fields wire path with
  | error failure =>
    obtain ⟨name, omitNull, inner, child, found, sent, carried, failed⟩ :=
      decodeFields_error result plan.distinct
    rcases plan.parts name with ⟨foreign, _⟩ | ⟨_, _, _, declared, planned, written, field⟩
    · exact absurd (mem_keys_iff.mpr ⟨_, found⟩) (plan.unlisted foreign)
    · cases found.symm.trans field
      obtain ⟨_, also, fitting | dropped⟩ := plan.sent ordered fitting written
      · cases sent.symm.trans also
        have promise := below s!"{path}.{name}" declared planned sent fitting
        rw [failed] at promise
        exact promise
      · cases sent.symm.trans also
        simp [dropped] at carried
  | ok host =>
    refine decoded_object plan.kinded plan.closed (decodeFields_ordered result ordered) fun name => ?_
    obtain ⟨untouched, decoded⟩ := decodeFields_ok result plan.distinct
    rcases plan.parts name with
      ⟨foreign, missing⟩ | ⟨property, normalized, projection, declared, planned, written, field⟩
    · have unsent : wire.lookup name = none := by
        have present := ((fits_closedObject_iff plan.outputsOrdered ordered).mp fitting).1 name
        rw [missing] at present
        exact Option.not_isSome_iff_eq_none.mp fun here => absurd (present.mpr here) (by simp)
      exact .undeclared foreign unsent ((untouched name (plan.unlisted foreign)).trans unsent)
    · obtain ⟨child, sent, fitting⟩ := plan.sent ordered fitting written
      have step := decoded name _ _ field
      rw [sent] at step
      generalize after : host.lookup name = held at step
      cases step with
      | omitted omits =>
        simp only [Bool.and_eq_true, Bool.not_eq_true'] at omits
        exact .omitted declared omits.1 (planned.fits_null ▸ omits.2) sent after
      | kept carried passed =>
        obtain fitting | dropped := fitting
        · have promise := below s!"{path}.{name}" declared planned sent fitting
          rw [passed] at promise
          exact .decoded declared sent after promise
        · simp [dropped] at carried

end ObjectPlan

/-- An array is decoded by its items. -/
theorem decoded_array {object : Map} {items : Value} {projection : ArgumentProjection}
    {children : List Value} (kinded : KindSchema object .array)
    (found : object.lookup "items" = some items)
    (bounded : lengthAccepts children.length (Value.index (.object object) "minItems")
      (Value.index (.object object) "maxItems") = true)
    (below : ∀ part ∈ children, ∀ path, Decoded items part (projection.decode part path)) :
    Decoded (.object object) (.array children)
      ((ArgumentProjection.array projection).decode (.array children) path) := by
  simp only [ArgumentProjection.decode]
  generalize result : (children.zipIdx.mapM _ : Except _ _) = outcome
  cases outcome with
  | error failure =>
    obtain ⟨⟨part, index⟩, member, failed⟩ := mapM_error result
    dsimp only at failed
    have promise := below part (List.fst_mem_of_mem_zipIdx member) s!"{path}[{index}]"
    rw [failed] at promise
    exact promise
  | ok hosts =>
    have related : List.Forall₂ (fun part host => Decoded items part (.ok host)) children hosts := by
      refine forall₂_zipIdx.mp (forall₂_mem (mapM_eq_ok.mp result) ?_)
      rintro ⟨part, index⟩ member host _ passed
      dsimp only at passed
      have promise := below part (List.fst_mem_of_mem_zipIdx member) s!"{path}[{index}]"
      rw [passed] at promise
      exact promise
    have each := exists_left_of_forall₂ related
    refine ⟨?_, .array kinded.typed found related.length_eq.symm ?_, Value.wellFormed_array.mpr ?_⟩
    · rw [accepts_array _ kinded found, Value.asArray, Option.any_some, Bool.and_eq_true,
        ← related.length_eq, List.all_eq_true]
      refine ⟨bounded, fun host member => ?_⟩
      obtain ⟨_, _, promise⟩ := each host member
      exact promise.1
    · intro index host part present sent
      exact (getElem?_of_forall₂ related sent present).2.1
    · intro host member
      obtain ⟨_, _, promise⟩ := each host member
      exact promise.2.2

theorem decode_sound {normalized wire : Value} {projection : ArgumentProjection}
    (planned : Planned schema normalized projection) (formed : wire.wellFormed = true)
    (fitting : fits wire normalized = true) :
    Decoded schema wire (projection.decode wire path) := by
  induction size : schema.size using Nat.strong_induction_on
    generalizing schema normalized wire projection path with
  | _ bound ih =>
    subst size
    cases planned.plan with
    | union _ children meaning fits =>
      refine decoded_union children meaning (fits wire) fitting ?_
      intro branch variant planned smaller fitting
      exact ih branch.size smaller planned formed fitting rfl
    | @object object properties outputs fields plan =>
      obtain ⟨entries, rfl⟩ : ∃ entries, wire = .object entries := by
        rw [fits_closedObject, Option.any_eq_true] at fitting
        obtain ⟨entries, isObject, _⟩ := fitting
        exact ⟨entries, Value.asObject_eq_some.mp isObject⟩
      obtain ⟨ordered, formedEach⟩ := Value.wellFormed_object.mp formed
      refine plan.decoded ordered fitting fun path declared planned sent fitting => ?_
      refine ih _ ?_ planned (formedEach _ (mem_of_lookup sent)) fitting rfl
      exact (Value.size_lt_object declared).trans (Value.size_lt_object plan.closed.declared)
    | @array object items normalized projection kinded found child =>
      rw [fits_arrayMap, Option.any_eq_true] at fitting
      obtain ⟨children, isArray, fitting⟩ := fitting
      obtain rfl := Value.asArray_eq_some.mp isArray
      simp only [Bool.and_eq_true, List.all_eq_true] at fitting
      refine decoded_array kinded found fitting.1 fun part member path => ?_
      exact ih items.size (Value.size_lt_object found) child
        (Value.wellFormed_array.mp formed part member) (fitting.2 part member) rfl
    | scalar kinded partless meaning =>
      rw [meaning] at fitting
      exact ⟨fitting, .scalar kinded.typed partless, formed⟩

section

variable {object : Map} {normalized host wire : Value} {projection : ArgumentProjection}

theorem branches_kind {kind : Kind} (kinded : KindSchema object kind) : branches object = [] := by
  obtain ⟨noOneOf, noAnyOf, _⟩ := kinded.single
  rw [branches, noOneOf, noAnyOf, kinded.typed]
  rfl

/-- What is planned for a schema of arrays. -/
theorem Planned.of_array {items : Value} (planned : Planned (.object object) normalized projection)
    (kind : object.lookup "type" = some (.string Kind.array.name))
    (found : object.lookup "items" = some items) :
    ∃ strict inner, KindSchema object .array ∧ Planned items strict inner ∧
      normalized = .object (copyConstraints object (insert "items" strict (typed .array))
        Kind.array.constraints) ∧ projection = .array inner := by
  cases planned.plan with
  | union untyped => exact absurd kind (untyped _)
  | object plan => cases plan.kinded.kind_eq _ kind
  | scalar kinded partless => exact absurd (kinded.kind_eq _ kind).symm partless.2
  | array kinded also child =>
    cases found.symm.trans also
    exact ⟨_, _, kinded, child, rfl, rfl⟩

theorem Planned.of_object {properties : Map}
    (planned : Planned (.object object) normalized projection)
    (kind : object.lookup "type" = some (.string Kind.object.name))
    (declared : object.lookup "properties" = some (.object properties)) :
    ∃ outputs fields, ObjectPlan object properties outputs fields ∧
      normalized = .object (closedObject outputs) ∧ projection = .object fields := by
  cases planned.plan with
  | union untyped => exact absurd kind (untyped _)
  | array kinded => cases kinded.kind_eq _ kind
  | scalar kinded partless => exact absurd (kinded.kind_eq _ kind).symm partless.1
  | object plan =>
    cases declared.symm.trans plan.closed.declared
    exact ⟨_, _, plan, rfl, rfl⟩

theorem Planned.of_branch {branch : Value}
    (planned : Planned (.object object) normalized projection)
    (member : branch ∈ branches object) :
    ∃ variants, projection = .alternatives variants ∧
      (∀ value, fits value normalized = variants.any fun variant => fits value variant.1) ∧
      ∃ variant ∈ variants, Planned branch variant.1 variant.2 := by
  cases planned.plan with
  | object plan => simp [branches_kind plan.kinded] at member
  | array kinded => simp [branches_kind kinded] at member
  | scalar kinded => simp [branches_kind kinded] at member
  | union _ children _ fitting =>
    obtain ⟨variant, listed, planned, _⟩ := exists_right_of_forall₂ children branch member
    exact ⟨_, rfl, fitting, variant, listed, planned⟩

theorem carried_scalar {kind : Kind} (planned : Planned (.object object) normalized projection)
    (typed : object.lookup "type" = some (.string kind.name))
    (partless : kind ≠ .object ∧ kind ≠ .array) (accepted : accepts (.object object) wire = true) :
    fits wire normalized = true ∧ ∀ path, projection.decode wire path = .ok wire := by
  cases planned.plan with
  | union untyped => exact absurd typed (untyped _)
  | object plan => exact absurd (plan.kinded.kind_eq _ typed) partless.1
  | array kinded => exact absurd (kinded.kind_eq _ typed) partless.2
  | scalar _ _ meaning =>
    refine ⟨by rwa [meaning], fun path => ?_⟩
    simp only [ArgumentProjection.decode]

theorem carried_array {items : Value} {hosts wires : List Value}
    (planned : Planned (.object object) normalized projection)
    (typed : object.lookup "type" = some (.string Kind.array.name))
    (found : object.lookup "items" = some items) (sameLength : hosts.length = wires.length)
    (accepted : accepts (.object object) (.array hosts) = true)
    (below : ∀ normalized projection, Planned items normalized projection →
      List.Forall₂ (fun host wire => accepts items host = true → fits wire normalized = true ∧
        ∀ path result, projection.decode wire path = .ok result → result = host) hosts wires) :
    fits (.array wires) normalized = true ∧
      ∀ path result, projection.decode (.array wires) path = .ok result → result = .array hosts := by
  obtain ⟨_, _, kinded, child, rfl, rfl⟩ := planned.of_array typed found
  rw [accepts_array _ kinded found, Value.asArray, Option.any_some, Bool.and_eq_true,
    List.all_eq_true] at accepted
  have each : List.Forall₂ (fun host wire => fits wire _ = true ∧ ∀ path result,
      ArgumentProjection.decode _ wire path = .ok result → result = host) hosts wires :=
    forall₂_mem (below _ _ child) fun host member wire _ step => step (accepted.2 host member)
  refine ⟨?_, ?_⟩
  · rw [fits_arrayMap, Value.asArray, Option.any_some, Bool.and_eq_true, ← sameLength,
      List.all_eq_true]
    refine ⟨accepted.1, fun wire member => ?_⟩
    obtain ⟨_, _, step⟩ := exists_left_of_forall₂ each wire member
    exact step.1
  · intro path result passed
    simp only [ArgumentProjection.decode, bind_eq_ok, pure_eq_ok] at passed
    obtain ⟨results, children, same⟩ := passed
    subst same
    have decoded : List.Forall₂ (fun wire result => ∃ path,
        ArgumentProjection.decode _ wire path = .ok result) wires results :=
      forall₂_zipIdx.mp ((mapM_eq_ok.mp children).imp fun _ _ passed => ⟨_, passed⟩)
    congr 1
    refine eq_of_forall₂ each decoded ?_
    rintro host wire result ⟨_, decodes⟩ ⟨path, passed⟩
    exact decodes path result passed

theorem carried_union {branch : Value} (planned : Planned (.object object) normalized projection)
    (member : branch ∈ branches object)
    (below : ∀ normalized projection, Planned branch normalized projection →
      fits wire normalized = true ∧
        ∀ path result, projection.decode wire path = .ok result → result = host) :
    fits wire normalized = true ∧
      ∀ path result, projection.decode wire path = .ok result → result = host := by
  obtain ⟨_, rfl, fitting, variant, listed, planned⟩ := planned.of_branch member
  obtain ⟨fits, decodes⟩ := below _ _ planned
  refine ⟨?_, ?_⟩
  · rw [fitting, List.any_eq_true]
    exact ⟨variant, listed, fits⟩
  · intro path result passed
    simp only [ArgumentProjection.decode, bind_eq_ok, pure_eq_ok] at passed
    obtain ⟨decoded, passed, same⟩ := passed
    obtain ⟨candidate, inner, settled⟩ := (decodeVariants_ok passed).2 variant listed fits
    subst settled same
    exact decodes path candidate inner

theorem carried_object {properties hosts wires : Map}
    (planned : Planned (.object object) normalized projection)
    (typed : object.lookup "type" = some (.string Kind.object.name))
    (declared : object.lookup "properties" = some (.object properties))
    (hostsOrdered : Ordered hosts) (wiresOrdered : Ordered wires)
    (conforms : accepts (.object object) (.object hosts) = true)
    (foreign : ∀ name, properties.lookup name = none →
      hosts.lookup name = none ∧ wires.lookup name = none)
    (omitted : ∀ name property, properties.lookup name = some property →
      hosts.lookup name = none → isRequired object name = false ∧
        accepts property .null = false ∧ wires.lookup name = some .null)
    (sent : ∀ name child, hosts.lookup name = some child → (wires.lookup name).isSome)
    (below : ∀ name property child written, properties.lookup name = some property →
      hosts.lookup name = some child → wires.lookup name = some written →
      (written = .null ↔ child = .null) ∧ ∀ normalized projection,
        Planned property normalized projection → accepts property child = true →
        fits written normalized = true ∧
          ∀ path result, projection.decode written path = .ok result → result = child) :
    fits (.object wires) normalized = true ∧
      ∀ path result, projection.decode (.object wires) path = .ok result → result = .object hosts := by
  obtain ⟨outputs, fields, plan, rfl, rfl⟩ := planned.of_object typed declared
  have accepted {name : String} {property child : Value}
      (known : properties.lookup name = some property) (held : hosts.lookup name = some child) :
      accepts property child = true := by
    obtain ⟨_, also, accepted⟩ :=
      ((accepts_object_iff plan.kinded plan.closed).mp conforms).2 _ (mem_of_lookup held)
    cases known.symm.trans also
    exact accepted
  refine ⟨(fits_closedObject_iff plan.outputsOrdered wiresOrdered).mpr ⟨?_, ?_⟩, ?_⟩
  · intro name
    rcases plan.parts name with ⟨unknown, missing⟩ | ⟨property, _, _, known, _, written, _⟩
    · rw [missing, (foreign name unknown).2]
    · rw [written]
      cases held : hosts.lookup name with
      | none => simp [(omitted name property known held).2.2]
      | some child => simp [sent name child held]
  · intro name output child written sentChild
    rcases plan.parts name with ⟨_, missing⟩ | ⟨property, normalized, _, known, planned, also, _⟩
    · cases written.symm.trans missing
    cases written.symm.trans also
    rw [fits_carryOmission]
    cases held : hosts.lookup name with
    | none =>
      obtain ⟨optional, refused, isNull⟩ := omitted name property known held
      cases sentChild.symm.trans isNull
      rw [← planned.fits_null] at refused
      simp [optional, refused]
    | some hostChild =>
      obtain ⟨_, step⟩ := below name property hostChild child known held sentChild
      rw [(step _ _ planned (accepted known held)).1, Bool.true_or]
  · intro path result passed
    simp only [ArgumentProjection.decode, bind_eq_ok, pure_eq_ok] at passed
    obtain ⟨results, passed, same⟩ := passed
    subst same
    obtain ⟨untouched, decoded⟩ := decodeFields_ok passed plan.distinct
    congr 1
    refine (decodeFields_ordered passed wiresOrdered).ext hostsOrdered fun name => ?_
    rcases plan.parts name with ⟨unknown, _⟩ | ⟨property, normalized, _, known, planned, _, field⟩
    · rw [untouched name (plan.unlisted unknown), (foreign name unknown).1, (foreign name unknown).2]
    · have step := decoded name _ _ field
      cases held : hosts.lookup name with
      | none =>
        obtain ⟨optional, refused, isNull⟩ := omitted name property known held
        rw [isNull] at step
        rw [← planned.fits_null] at refused
        generalize results.lookup name = after at step
        cases step with
        | omitted => rfl
        | kept carried => simp [optional, refused] at carried
      | some child =>
        obtain ⟨written, here⟩ := Option.isSome_iff_exists.mp (sent name child held)
        obtain ⟨nulls, inner⟩ := below name property child written known held here
        have accepted := accepted known held
        rw [here] at step
        generalize results.lookup name = after at step
        cases step with
        | omitted omits =>
          rw [nulls.mp rfl, ← planned.fits_null] at accepted
          simp [accepted] at omits
        | kept _ passed => rw [(inner _ _ planned accepted).2 _ _ passed]

end

/-- A wire value that carries a conforming host value fits the strict schema,
and decodes to nothing but that host value. -/
theorem carried_back {normalized host wire : Value} {projection : ArgumentProjection}
    (planned : Planned schema normalized projection) (hostFormed : host.wellFormed = true)
    (wireFormed : wire.wellFormed = true) (accepted : accepts schema host = true)
    (carried : Carries schema host wire) :
    fits wire normalized = true ∧
      ∀ path result, projection.decode wire path = .ok result → result = host := by
  induction carried generalizing normalized projection with
  | scalar typed partless =>
    obtain ⟨fitting, decodes⟩ := carried_scalar planned typed partless accepted
    refine ⟨fitting, fun path result passed => ?_⟩
    exact Except.ok.inj (passed.symm.trans (decodes path))
  | array typed found sameLength children ih =>
    refine carried_array planned typed found sameLength accepted fun normalized projection planned => ?_
    refine List.forall₂_iff_get.mpr ⟨sameLength, fun index hostBound wireBound accepted => ?_⟩
    refine ih index _ _ (List.getElem?_eq_getElem hostBound) (List.getElem?_eq_getElem wireBound)
      planned ?_ ?_ accepted
    · exact Value.wellFormed_array.mp hostFormed _ (List.getElem_mem hostBound)
    · exact Value.wellFormed_array.mp wireFormed _ (List.getElem_mem wireBound)
  | object typed declared foreign omitted sent kept ih =>
    obtain ⟨hostsOrdered, hostsFormed⟩ := Value.wellFormed_object.mp hostFormed
    obtain ⟨wiresOrdered, wiresFormed⟩ := Value.wellFormed_object.mp wireFormed
    refine carried_object planned typed declared hostsOrdered wiresOrdered accepted foreign omitted
      sent ?_
    intro name property child written known held here
    refine ⟨(kept name property child written known held here).null_iff, ?_⟩
    intro normalized projection planned accepted
    exact ih name property child written known held here planned
      (hostsFormed _ (mem_of_lookup held)) (wiresFormed _ (mem_of_lookup here)) accepted
  | union member conforms carried ih =>
    exact carried_union planned member fun _ _ planned => ih planned hostFormed wireFormed conforms

/-- Every optional property whose schema admits null is present, at every level
and along the union branch the value was built with. -/
inductive Complete : Value → Value → Prop where
  | scalar {object : Map} {kind : Kind} {value : Value}
      (typed : object.lookup "type" = some (.string kind.name))
      (partless : kind ≠ .object ∧ kind ≠ .array) : Complete (.object object) value
  | array {object : Map} {items : Value} {host : List Value}
      (typed : object.lookup "type" = some (.string Kind.array.name))
      (found : object.lookup "items" = some items)
      (children : ∀ child ∈ host, Complete items child) : Complete (.object object) (.array host)
  | object {object properties host : Map}
      (typed : object.lookup "type" = some (.string Kind.object.name))
      (declared : object.lookup "properties" = some (.object properties))
      (present : ∀ name property, properties.lookup name = some property →
        isRequired object name = false → accepts property .null = true →
        (host.lookup name).isSome)
      (kept : ∀ name property child, properties.lookup name = some property →
        host.lookup name = some child → Complete property child) :
      Complete (.object object) (.object host)
  | union {object : Map} {branch host : Value} (member : branch ∈ branches object)
      (conforms : accepts branch host = true) (complete : Complete branch host) :
      Complete (.object object) host

theorem exists_wires {object : Map} {items : Value} {hosts : List Value}
    (typed : object.lookup "type" = some (.string Kind.array.name))
    (found : object.lookup "items" = some items)
    (each : ∀ part ∈ hosts, ∃ wire, wire.wellFormed = true ∧ Carries items part wire) :
    ∃ wire, wire.wellFormed = true ∧ Carries (.object object) (.array hosts) wire := by
  choose! write sent using each
  refine ⟨.array (hosts.map write), Value.wellFormed_array.mpr ?_, .array typed found (by simp) ?_⟩
  · intro wire member
    obtain ⟨part, listed, same⟩ := List.mem_map.mp member
    exact same ▸ (sent part listed).1
  · intro index part wire here there
    rw [List.getElem?_map, here, Option.map_some, Option.some.injEq] at there
    exact there ▸ (sent part (List.mem_of_getElem? here)).2

/-- An object is sent with every declared property, as null where it has none. -/
theorem ObjectPlan.exists_wire {object properties outputs hosts : Map}
    {fields : List (String × Bool × ArgumentProjection)}
    (plan : ObjectPlan object properties outputs fields)
    (accepted : accepts (.object object) (.object hosts) = true)
    (present : ∀ name property, properties.lookup name = some property →
      isRequired object name = false → accepts property .null = true → (hosts.lookup name).isSome)
    (wires : ∀ name property child, properties.lookup name = some property →
      hosts.lookup name = some child → ∃ wire, wire.wellFormed = true ∧ Carries property child wire) :
    ∃ wire, wire.wellFormed = true ∧ Carries (.object object) (.object hosts) wire := by
  have ordered := plan.propertiesOrdered
  obtain ⟨required, each⟩ := (accepts_object_iff plan.kinded plan.closed).mp accepted
  choose! write sent using wires
  let carry (name : String) (property : Value) : Value :=
    ((hosts.lookup name).map (write name property)).getD .null
  have found (name : String) : (properties.map fun entry =>
      (entry.1, carry entry.1 entry.2)).lookup name = (properties.lookup name).map (carry name) :=
    OrderedMap.lookup_map carry name properties
  refine ⟨.object (properties.map fun entry => (entry.1, carry entry.1 entry.2)),
    Value.wellFormed_object.mpr ⟨?_, ?_⟩,
    .object plan.kinded.typed plan.closed.declared ?_ ?_ ?_ ?_⟩
  · rw [ordered_iff_keys] at ordered ⊢
    simpa [keys, Function.comp_def] using ordered
  · intro entry member
    obtain ⟨⟨name, property⟩, listed, same⟩ := List.mem_map.mp member
    subst same
    have known := ordered.lookup_of_mem listed
    cases held : hosts.lookup name with
    | none => simp [carry, held, Value.wellFormed]
    | some child => simpa [carry, held] using (sent name property child known held).1
  · intro name unknown
    refine ⟨?_, by rw [found, unknown]; rfl⟩
    by_contra here
    obtain ⟨child, held⟩ := Option.ne_none_iff_exists'.mp here
    obtain ⟨_, known, _⟩ := each _ (mem_of_lookup held)
    cases known.symm.trans unknown
  · intro name property known absent
    have optional : isRequired object name = false := by
      by_contra demanded
      simpa [absent] using required name (by simpa using demanded)
    refine ⟨optional, ?_, by simp [found, known, carry, absent]⟩
    by_contra admits
    simpa [absent] using present name property known optional (by simpa using admits)
  · intro name child held
    obtain ⟨_, known, _⟩ := each _ (mem_of_lookup held)
    simp [found, known]
  · intro name property child written known held here
    rw [found, known, Option.map_some, Option.some.injEq] at here
    subst here
    simpa [carry, held] using (sent name property child known held).2

/-- A conforming host value that omits no null-admitting property can be sent. -/
theorem exists_wire {normalized host : Value} {projection : ArgumentProjection}
    (planned : Planned schema normalized projection) (formed : host.wellFormed = true)
    (accepted : accepts schema host = true) (complete : Complete schema host) :
    ∃ wire, wire.wellFormed = true ∧ Carries schema host wire := by
  induction complete generalizing normalized projection with
  | scalar typed partless => exact ⟨_, formed, .scalar typed partless⟩
  | @array object items hosts typed found children ih =>
    obtain ⟨_, _, kinded, child, -, -⟩ := planned.of_array typed found
    rw [accepts_array _ kinded found, Value.asArray, Option.any_some, Bool.and_eq_true,
      List.all_eq_true] at accepted
    refine exists_wires typed found fun part member => ?_
    exact ih part member child (Value.wellFormed_array.mp formed part member) (accepted.2 part member)
  | @object object properties hosts typed declared present kept ih =>
    obtain ⟨outputs, fields, plan, -, -⟩ := planned.of_object typed declared
    refine plan.exists_wire accepted present fun name property child known held => ?_
    obtain ⟨_, also, childAccepted⟩ :=
      ((accepts_object_iff plan.kinded plan.closed).mp accepted).2 _ (mem_of_lookup held)
    cases known.symm.trans also
    rcases plan.parts name with ⟨unknown, _⟩ | ⟨_, _, _, again, planned, _⟩
    · cases known.symm.trans unknown
    · cases known.symm.trans again
      exact ih name property child known held planned
        ((Value.wellFormed_object.mp formed).2 _ (mem_of_lookup held)) childAccepted
  | union member conforms complete ih =>
    obtain ⟨_, -, -, variant, _, planned⟩ := planned.of_branch member
    obtain ⟨wire, wireFormed, carried⟩ := ih planned formed conforms
    exact ⟨wire, wireFormed, .union member conforms carried⟩

theorem planned_of_new {tool : FunctionToolSchema} (formed : schema.wellFormed = true)
    (admitted : FunctionToolSchema.new schema = .ok tool) :
    Planned schema tool.parameters tool.projection := by
  simp only [FunctionToolSchema.new, bind_eq_ok, pure_eq_ok] at admitted
  obtain ⟨_, _, parameters, normal, projection, projected, same⟩ := admitted
  subst same
  exact ⟨normal, projected, formed⟩

/-- Decoding a wire value that the strict schema accepts refuses it as ambiguous
or yields a host value that conforms to the host schema and differs from the
wire value only in the omissions that null stood for. -/
theorem decodeArguments_sound (schema wire : Document) {tool : FunctionToolSchema} {path : String}
    (admitted : FunctionToolSchema.new schema.value = .ok tool)
    (passed : validateValue wire.value tool.parameters path = .ok ()) :
    (∃ path, tool.decodeArguments wire.value = .error (.ambiguousArguments path)) ∨
      ∃ host, tool.decodeArguments wire.value = .ok host ∧ accepts schema.value host = true ∧
        Carries schema.value host wire.value := by
  have planned := planned_of_new schema.wellFormed admitted
  have promise : Decoded schema.value wire.value (tool.projection.decode wire.value "$") :=
    decode_sound planned wire.wellFormed (validateValue_eq_ok.mp passed)
  rw [FunctionToolSchema.decodeArguments]
  cases outcome : tool.projection.decode wire.value "$" with
  | error failure =>
    rw [outcome] at promise
    obtain ⟨path, same⟩ := promise
    exact .inl ⟨path, by rw [same]⟩
  | ok host =>
    rw [outcome] at promise
    exact .inr ⟨host, rfl, promise.1, promise.2.1⟩

/-- A tool with an optional nullable flag, a required limit and an optional
name. -/
def sampleSchema : Document where
  value := .object [
    ("properties", .object [
      ("flag", .object [("type", .array [.string "boolean", .string "null"])]),
      ("limit", .object [("format", .string "uint8"), ("type", .string "integer")]),
      ("name", .object [("type", .string "string")])]),
    ("required", .array [.string "limit"]),
    ("type", .string "object")]
  wellFormed := by decide +kernel

/-- The host omits the name and keeps its own null. -/
def sampleHost : Document where
  value := .object [("flag", .null), ("limit", .number (.posInt 7))]
  wellFormed := by decide +kernel

def sampleWire : Document where
  value := .object [("flag", .null), ("limit", .number (.posInt 7)), ("name", .null)]
  wellFormed := by decide +kernel

theorem decodeArguments_sound_sample : ∃ tool, FunctionToolSchema.new sampleSchema.value = .ok tool ∧
    validateValue sampleWire.value tool.parameters "$" = .ok () ∧
    ((∃ path, tool.decodeArguments sampleWire.value = .error (.ambiguousArguments path)) ∨
      ∃ host, tool.decodeArguments sampleWire.value = .ok host ∧
        accepts sampleSchema.value host = true ∧ Carries sampleSchema.value host sampleWire.value) := by
  have checked : ((FunctionToolSchema.new sampleSchema.value).toOption.any fun tool =>
      fits sampleWire.value tool.parameters) = true := by decide +kernel
  obtain ⟨tool, admitted, fitting⟩ := toOption_any checked
  have passed : validateValue sampleWire.value tool.parameters "$" = .ok () :=
    validateValue_eq_ok.mpr fitting
  exact ⟨tool, admitted, passed, decodeArguments_sound sampleSchema sampleWire admitted passed⟩

/-- A conforming host value that omits no null-admitting property has a wire
form. The strict schema accepts every wire form of it, and decoding one gives
the host value back or refuses it as ambiguous. -/
theorem decodeArguments_carried (schema host : Document) {tool : FunctionToolSchema}
    (admitted : FunctionToolSchema.new schema.value = .ok tool)
    (conforms : accepts schema.value host.value = true)
    (complete : Complete schema.value host.value) :
    (∃ wire : Document, Carries schema.value host.value wire.value) ∧
      ∀ wire : Document, Carries schema.value host.value wire.value →
        (∀ path, validateValue wire.value tool.parameters path = .ok ()) ∧
          (tool.decodeArguments wire.value = .ok host.value ∨
            ∃ path, tool.decodeArguments wire.value = .error (.ambiguousArguments path)) := by
  have planned := planned_of_new schema.wellFormed admitted
  refine ⟨?_, fun wire carried => ?_⟩
  · obtain ⟨wire, formed, carried⟩ := exists_wire planned host.wellFormed conforms complete
    exact ⟨⟨wire, formed⟩, carried⟩
  · obtain ⟨fitting, decodes⟩ :=
      carried_back planned host.wellFormed wire.wellFormed conforms carried
    refine ⟨fun path => validateValue_eq_ok.mpr fitting, ?_⟩
    have promise : Decoded schema.value wire.value (tool.projection.decode wire.value "$") :=
      decode_sound planned wire.wellFormed fitting
    rw [FunctionToolSchema.decodeArguments]
    cases outcome : tool.projection.decode wire.value "$" with
    | error failure =>
      rw [outcome] at promise
      obtain ⟨path, same⟩ := promise
      exact .inr ⟨path, by rw [same]⟩
    | ok result => exact .inl (by rw [decodes "$" result outcome])

theorem sampleHost_complete : Complete sampleSchema.value sampleHost.value := by
  refine .object rfl rfl ?_ ?_
  · intro name property known optional admits
    have member := mem_of_lookup known
    simp only [List.mem_cons, Prod.mk.injEq, List.not_mem_nil, or_false] at member
    rcases member with ⟨same, _⟩ | ⟨same, _⟩ | ⟨same, shape⟩ <;> subst same
    · rfl
    · rfl
    · subst shape
      exact absurd admits (by decide +kernel)
  · intro name property child known held
    have member := mem_of_lookup known
    simp only [List.mem_cons, Prod.mk.injEq, List.not_mem_nil, or_false] at member
    rcases member with ⟨same, shape⟩ | ⟨same, shape⟩ | ⟨same, shape⟩ <;> subst same shape
    · cases held
      have member : Value.object [("type", .string "null")] ∈
          branches [("type", .array [.string "boolean", .string "null"])] := by decide +kernel
      have typed : List.lookup "type" [("type", Value.string "null")] =
          some (.string Kind.null.name) := rfl
      exact .union member (by decide +kernel) (.scalar typed (by decide))
    · have typed : List.lookup "type" [("format", .string "uint8"), ("type", .string "integer")] =
          some (Value.string Kind.integer.name) := rfl
      exact .scalar typed (by decide)
    · cases held

theorem decodeArguments_carried_sample :
    ∃ tool wire, FunctionToolSchema.new sampleSchema.value = .ok tool ∧
      accepts sampleSchema.value sampleHost.value = true ∧
      Carries sampleSchema.value sampleHost.value wire ∧
      validateValue wire tool.parameters "$" = .ok () := by
  have checked : ((FunctionToolSchema.new sampleSchema.value).toOption.any fun _ => true) = true := by
    decide +kernel
  obtain ⟨tool, admitted, _⟩ := toOption_any checked
  have conforms : accepts sampleSchema.value sampleHost.value = true := by decide +kernel
  obtain ⟨⟨wire, carried⟩, sent⟩ :=
    decodeArguments_carried sampleSchema sampleHost admitted conforms sampleHost_complete
  exact ⟨tool, wire.value, admitted, conforms, carried, (sent wire carried).1 "$"⟩

end ExomonadHarness.Schema
