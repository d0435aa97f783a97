import ExomonadHarness.Schema.Reference
import ExomonadHarness.Schema.Shape

/-! Numeric bounds, explicit and from a format: the normalized bounds admit
exactly the rationals that every source bound admits. -/

namespace ExomonadHarness.Schema

open Json Checked OrderedMap Reference

theorem passes_cmp (bound : Bound) (limit value : ℚ) :
    bound.passes (cmp value limit) = admits bound limit value := by
  obtain ⟨key, lower, inclusive⟩ := bound
  rcases lt_trichotomy value limit with below | same | above
  · rw [below.cmp_eq_lt]
    cases lower <;> cases inclusive <;>
      simp [Bound.passes, admits, below, below.le, not_le_of_gt below, not_lt_of_ge below.le]
  · subst value
    rw [cmp_self_eq_eq]
    cases lower <;> cases inclusive <;> simp [Bound.passes, admits]
  · rw [above.cmp_eq_gt]
    cases lower <;> cases inclusive <;>
      simp [Bound.passes, admits, above, above.le, not_le_of_gt above, not_lt_of_ge above.le]

/-- Whether a bound of the schema admits a rational. -/
def boundHolds (object : Map) (value : ℚ) (bound : Bound) : Bool :=
  ((object.lookup bound.key).bind Value.asNumber).all fun limit => admits bound limit.toRat value

theorem boundHolds_congr {first second : Map} {value : ℚ} {bound : Bound}
    (same : first.lookup bound.key = second.lookup bound.key) :
    boundHolds first value bound = boundHolds second value bound := by
  rw [boundHolds, boundHolds, same]

/-- Every bound is a number. -/
def NumericBounds (object : Map) : Prop :=
  ∀ bound ∈ bounds, ∀ limit, object.lookup bound.key = some limit → ∃ number, limit = .number number

theorem matchesBounds_number {object : Map} (numeric : NumericBounds object) (number : Number) :
    matchesBounds (.number number) (.object object) =
      bounds.all (boundHolds object number.toRat) := by
  unfold matchesBounds
  apply all_congr_of_mem
  intro bound member
  rw [Value.get?_object, boundHolds]
  cases found : object.lookup bound.key with
  | none => rfl
  | some limit =>
    obtain ⟨limit, same⟩ := numeric bound member limit found
    subst same
    simp [numberCmp_exact, Value.asNumber, passes_cmp]

/-- The bounds of a schema judge the rational that a number denotes; a bound that is not a
number refuses it. -/
theorem matchesBounds_iff (number : Number) (schema : Value) :
    matchesBounds (.number number) schema = true ↔
      ∀ bound ∈ bounds, ∀ limit, schema.get? bound.key = some limit →
        ∃ other, limit = .number other ∧ admits bound other.toRat number.toRat = true := by
  rw [matchesBounds, List.all_eq_true]
  refine forall₂_congr fun bound member => ?_
  rw [Option.all_eq_true]
  refine forall₂_congr fun limit found => ?_
  cases limit with
  | number other => simp [numberCmp_exact, passes_cmp]
  | _ =>
    rw [numberCmp_none rfl]
    simp

theorem number_comparison :
    (∀ left right : Number,
      numberCmp (.number left) (.number right) = some (cmp left.toRat right.toRat)) ∧
    (∀ float : F64, ∃ rest : F64, rest.value = float.value - trunc float.value) ∧
    (∀ left right, atMost left right ∨ atMost right left) ∧
    (∀ left middle right, atMost left middle → atMost middle right → atMost left right) ∧
    (∀ left right, atMost left right → atMost right left → left.toRat = right.toRat) ∧
    ∀ (number : Number) (schema : Value), matchesBounds (.number number) schema = true ↔
      ∀ bound ∈ bounds, ∀ limit, schema.get? bound.key = some limit →
        ∃ other, limit = .number other ∧ admits bound other.toRat number.toRat = true := by
  refine ⟨numberCmp_exact, fract_finite, ?_, ?_, ?_, matchesBounds_iff⟩
  · intro left right
    rw [atMost_iff, atMost_iff]
    exact le_total left.toRat right.toRat
  · intro left middle right first second
    rw [atMost_iff] at first second ⊢
    exact first.trans second
  · intro left right first second
    rw [atMost_iff] at first second
    exact le_antisymm first second

theorem numberAccepts_number (object : Map) (number : Number) :
    numberAccepts (.object object) (.number number) =
      (bounds.all (boundHolds object number.toRat) &&
        (((object.lookup "format").bind Value.asStr).bind formatBounds).all fun range =>
          decide (range.1 ≤ number.toRat ∧ number.toRat ≤ range.2)) := by
  have part {Result : Type} (key : String) (read : Value → Option Result)
      (blank : read .null = none) :
      read ((object.lookup key).getD .null) = (object.lookup key).bind read := by
    cases object.lookup key <;> simp [blank]
  have whole : (Value.number number).asNumber = some number := rfl
  simp only [numberAccepts, whole, Option.all_some, Value.index_object]
  rw [part "format" Value.asStr rfl]
  congr 1
  apply all_congr_of_mem
  intro bound _
  rw [boundHolds, part bound.key Value.asNumber rfl]

theorem numberAccepts_congr {first second : Map}
    (same : ∀ key ∈ "format" :: bounds.map Bound.key, first.lookup key = second.lookup key)
    (value : Value) :
    numberAccepts (.object first) value = numberAccepts (.object second) value := by
  have each : ∀ bound ∈ bounds, first.lookup bound.key = second.lookup bound.key :=
    fun bound member => same bound.key (List.mem_cons_of_mem _ (List.mem_map_of_mem member))
  cases value with
  | number number =>
    rw [numberAccepts_number, numberAccepts_number, same "format" (by simp),
      all_congr_of_mem fun bound member => boundHolds_congr (each bound member)]
  | _ => rfl

theorem tighten_cases (bound : Bound) (limit : Number) (object : Map) :
    tighten bound limit object = object ∨
      tighten bound limit object = insert bound.key (.number limit) object := by
  unfold tighten
  exact ite_eq_or_eq _ _ _

variable {limit : Number} {normalized : Map} {path : String}

theorem lookup_tighten {bound : Bound} {number : Number} {object : Map}
    (found : object.lookup bound.key = some (.number number)) :
    (tighten bound limit object).lookup bound.key = some (.number
      (if cmp number.toRat limit.toRat = (if bound.lower then .gt else .lt) then number
        else limit)) := by
  unfold tighten
  rw [found, Option.bind_some, numberCmp_exact, Option.any_some]
  by_cases tighter : cmp number.toRat limit.toRat = (if bound.lower then .gt else .lt)
  · rw [if_pos (beq_iff_eq.mpr tighter), if_pos tighter, found]
  · rw [if_neg (by simpa using tighter), if_neg tighter, lookup_insert, if_pos rfl]

theorem boundHolds_tighten {bound : Bound} {object : Map} (inclusive : bound.inclusive = true)
    (numeric : ∀ existing, object.lookup bound.key = some existing →
      ∃ number, existing = .number number)
    (value : ℚ) :
    boundHolds (tighten bound limit object) value bound =
      (boundHolds object value bound && admits bound limit.toRat value) := by
  cases found : object.lookup bound.key with
  | none =>
    have inserted : tighten bound limit object = insert bound.key (.number limit) object := by
      simp [tighten, found]
    simp [boundHolds, inserted, found, Value.asNumber]
  | some existing =>
    obtain ⟨number, same⟩ := numeric existing found
    subst same
    simp only [boundHolds, lookup_tighten found, found, Option.bind_some, Value.asNumber,
      Option.all_some]
    obtain ⟨key, lower, _⟩ := bound
    subst inclusive
    cases lower with
    | true =>
      simp only [if_true, cmp_eq_gt_iff, admits, ← Bool.decide_and]
      split <;> grind
    | false =>
      simp only [Bool.false_eq_true, if_false, cmp_eq_lt_iff, admits, ← Bool.decide_and]
      split <;> grind

theorem lookup_tighten_of_ne {bound : Bound} {object : Map} {key : String}
    (different : key ≠ bound.key) : (tighten bound limit object).lookup key = object.lookup key := by
  rw [tighten, apply_ite (List.lookup key), lookup_insert, if_neg different, ite_self]

theorem formatRange_bounds {kind : Kind} {text : Option String} {least greatest : Number}
    (known : formatRange kind text = some (least, greatest)) :
    text.bind formatBounds = some (least.toRat, greatest.toRat) := by
  unfold formatRange at known
  split at known <;> cases known
  all_goals decide +kernel

/-- The range of the schema's numeric format admits the rational. -/
def formatHolds (object : Map) (value : ℚ) : Bool :=
  (((object.lookup "format").bind Value.asStr).bind formatBounds).all fun range =>
    decide (range.1 ≤ value ∧ value ≤ range.2)

theorem applyFormat_bounds {kind : Kind} {object bounded : Map} (numeric : NumericBounds normalized)
    (passed : applyFormat kind object normalized path = .ok bounded) (value : ℚ) :
    bounds.all (boundHolds bounded value) =
      (bounds.all (boundHolds normalized value) && formatHolds object value) := by
  unfold applyFormat at passed
  split at passed
  · rename_i absent
    cases passed
    simp [formatHolds, absent]
  · rename_i format present
    simp only [bind_eq_ok, okOr_eq_ok, pure_eq_ok] at passed
    obtain ⟨⟨least, greatest⟩, known, same⟩ := passed
    subst bounded
    have range : formatHolds object value =
        decide (least.toRat ≤ value ∧ value ≤ greatest.toRat) := by
      simp only [formatHolds, present, Option.bind_some, formatRange_bounds known, Option.all_some]
    have floor : boundHolds (tighten ⟨"maximum", false, true⟩ greatest
        (tighten ⟨"minimum", true, true⟩ least normalized)) value ⟨"minimum", true, true⟩ =
        (boundHolds normalized value ⟨"minimum", true, true⟩ && decide (least.toRat ≤ value)) := by
      rw [boundHolds_congr (lookup_tighten_of_ne (by decide)), boundHolds_tighten rfl]
      · rfl
      · exact numeric _ (by simp [bounds])
    have ceiling : boundHolds (tighten ⟨"maximum", false, true⟩ greatest
        (tighten ⟨"minimum", true, true⟩ least normalized)) value ⟨"maximum", false, true⟩ =
        (boundHolds normalized value ⟨"maximum", false, true⟩ &&
          decide (value ≤ greatest.toRat)) := by
      have kept : (tighten ⟨"minimum", true, true⟩ least normalized).lookup "maximum" =
          normalized.lookup "maximum" := lookup_tighten_of_ne (by decide)
      rw [boundHolds_tighten rfl, boundHolds_congr kept]
      · rfl
      · rw [kept]
        exact numeric ⟨"maximum", false, true⟩ (by simp [bounds])
    have untouched (key : String) (lower inclusive : Bool) (other : key ≠ "minimum" ∧ key ≠ "maximum") :
        boundHolds (tighten ⟨"maximum", false, true⟩ greatest
          (tighten ⟨"minimum", true, true⟩ least normalized)) value ⟨key, lower, inclusive⟩ =
          boundHolds normalized value ⟨key, lower, inclusive⟩ := by
      rw [boundHolds_congr (lookup_tighten_of_ne other.2),
        boundHolds_congr (lookup_tighten_of_ne other.1)]
    simp only [bounds, List.all_cons, List.all_nil, floor, ceiling,
      untouched "exclusiveMinimum" _ _ (by decide),
      untouched "exclusiveMaximum" _ _ (by decide), range, Bool.decide_and]
    ac_rfl

theorem applyFormat_lookup {kind : Kind} {object bounded : Map} {key : String}
    (passed : applyFormat kind object normalized path = .ok bounded)
    (other : key ∉ ["minimum", "maximum"]) : bounded.lookup key = normalized.lookup key := by
  unfold applyFormat at passed
  split at passed
  · cases passed
    rfl
  · simp only [bind_eq_ok, okOr_eq_ok, pure_eq_ok] at passed
    obtain ⟨_, _, same⟩ := passed
    simp only [List.mem_cons, List.not_mem_nil, or_false, not_or] at other
    rw [← same, lookup_tighten_of_ne other.2, lookup_tighten_of_ne other.1]

/-- The bounds of a constrained schema admit what the source's bounds and
format admit, and its other keywords are untouched. -/
structure Constrained (object normalized bounded : Map) : Prop where
  numeric : NumericBounds bounded
  admitted : ∀ value, bounds.all (boundHolds bounded value) =
    (bounds.all (boundHolds normalized value) && formatHolds object value)
  untouched : ∀ key ∉ ["minimum", "maximum"], bounded.lookup key = normalized.lookup key

theorem constrainNumber_constrained {kind : Kind} {object : Map} {output : Value}
    (passed : constrainNumber kind object normalized path = .ok output) :
    ∃ bounded, output = .object bounded ∧ Constrained object normalized bounded := by
  have isNumber {limit : Value} (passed : limit.asNumber.isNone = false) :
      ∃ number, limit = .number number := by
    cases limit with
    | number number => exact ⟨number, rfl⟩
    | _ => simp [Value.asNumber] at passed
  simp only [constrainNumber, bind_eq_ok, refuseFirst_eq_ok, pure_eq_ok] at passed
  obtain ⟨_, explicit, bounded, formatted, _, checked, same⟩ := passed
  refine ⟨bounded, same.symm, ?_, applyFormat_bounds ?_ formatted, ?_⟩
  · intro bound member limit found
    have passed := checked bound member
    rw [found, Option.any_some] at passed
    exact isNumber passed
  · intro bound member limit found
    have passed := explicit bound member
    rw [found, Option.any_some, Bool.or_eq_false_iff] at passed
    exact isNumber passed.1
  · intro key other
    exact applyFormat_lookup formatted other

end ExomonadHarness.Schema
