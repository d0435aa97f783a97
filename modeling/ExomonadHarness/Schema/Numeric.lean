import ExomonadHarness.Json.Value

namespace ExomonadHarness.Schema

open Json

/-- The integer a value holds, in the range of `i64` or `u64`. -/
def integer (value : Value) : Option ℤ :=
  value.asI64.or (value.asU64.map Int.ofNat)

/-- `as_f64` of a value that holds no integer, so that no conversion rounds. -/
def fraction (value : Value) : Option F64 :=
  match value with
  | .number (.float value) => some value
  | _ => none

/-- `f64::trunc`, and the cast to `i128` where the result fits. -/
def trunc (value : ℚ) : ℤ :=
  if 0 ≤ value then ⌊value⌋ else ⌈value⌉

/-- `integer_float`: compare whole parts first and the fractional remainder
only when they agree. -/
def integerFloat (integer : ℤ) (float : F64) : Ordering :=
  if float.value < -2 ^ 127 then .gt
  else if 2 ^ 127 ≤ float.value then .lt
  else (cmp integer (trunc float.value)).then (cmp 0 (float.value - trunc float.value))

def numberCmp (left right : Value) : Option Ordering :=
  match integer left, integer right with
  | some left, some right => some (cmp left right)
  | some left, none => (fraction right).map (integerFloat left)
  | none, some right => (fraction left).map fun left => (integerFloat right left).swap
  | none, none =>
    (fraction left).bind fun left => (fraction right).map fun right => cmp left.value right.value

theorem trunc_spec (value : ℚ) :
    (trunc value : ℚ) ≤ value ∧ value < trunc value + 1 ∨
      value ≤ trunc value ∧ (trunc value : ℚ) - 1 < value := by
  unfold trunc
  split
  · exact .inl ⟨Int.floor_le value, Int.lt_floor_add_one value⟩
  · refine .inr ⟨Int.le_ceil value, ?_⟩
    have below := Int.ceil_lt_add_one value
    linarith

/-- Comparing whole parts and then the remainder is the exact comparison. -/
theorem cmp_trunc (integer : ℤ) (value : ℚ) :
    (cmp integer (trunc value)).then (cmp 0 (value - trunc value)) = cmp (integer : ℚ) value := by
  rcases lt_trichotomy integer (trunc value) with below | same | above
  · have whole : (integer : ℚ) + 1 ≤ trunc value := by exact_mod_cast below
    have less : (integer : ℚ) < value := by
      rcases trunc_spec value with ⟨lower, _⟩ | ⟨_, upper⟩ <;> linarith
    rw [below.cmp_eq_lt, less.cmp_eq_lt]
    rfl
  · subst same
    rw [cmp_self_eq_eq]
    rcases lt_trichotomy ((trunc value : ℤ) : ℚ) value with less | equal | greater
    · rw [less.cmp_eq_lt, (sub_pos.mpr less).cmp_eq_lt]
      rfl
    · have whole : value - (trunc value : ℚ) = 0 := by linarith
      rw [whole, cmp_self_eq_eq, equal, cmp_self_eq_eq]
      rfl
    · rw [greater.cmp_eq_gt, (sub_neg.mpr greater).cmp_eq_gt]
      rfl
  · have whole : (trunc value : ℚ) + 1 ≤ integer := by exact_mod_cast above
    have greater : value < (integer : ℚ) := by
      rcases trunc_spec value with ⟨_, upper⟩ | ⟨lower, _⟩ <;> linarith
    rw [above.cmp_eq_gt, greater.cmp_eq_gt]
    rfl

theorem integerFloat_exact {integer : ℤ} (lower : -2 ^ 63 ≤ integer) (upper : integer < 2 ^ 64)
    (float : F64) : integerFloat integer float = cmp (integer : ℚ) float.value := by
  have low : (-2 ^ 63 : ℚ) ≤ integer := by exact_mod_cast lower
  have high : (integer : ℚ) < 2 ^ 64 := by exact_mod_cast upper
  unfold integerFloat
  split
  · rename_i tiny
    have greater : float.value < (integer : ℚ) := by linarith
    rw [greater.cmp_eq_gt]
  · split
    · rename_i huge
      have less : (integer : ℚ) < float.value := by linarith
      rw [less.cmp_eq_lt]
    · exact cmp_trunc integer float.value

theorem integer_posInt (value : Fin (2 ^ 64)) :
    integer (.number (.posInt value)) = some (value.val : ℤ) := by
  by_cases small : value.val < 2 ^ 63
  · have signed : Value.asI64 (.number (.posInt value)) = some (value.val : ℤ) := if_pos small
    simp [integer, signed]
  · have signed : Value.asI64 (.number (.posInt value)) = none := if_neg small
    rw [integer, signed]
    rfl

/-- A number is either an integer in range, denoting itself, or a double. -/
theorem integer_or_fraction (number : Number) :
    (∃ whole : ℤ, integer (.number number) = some whole ∧ number.toRat = whole ∧
      -2 ^ 63 ≤ whole ∧ whole < 2 ^ 64) ∨
    (∃ float : F64, integer (.number number) = none ∧ fraction (.number number) = some float ∧
      number.toRat = float.value) := by
  cases number with
  | posInt value =>
    have bound := value.isLt
    refine .inl ⟨value.val, integer_posInt value, by simp [Number.toRat], by omega, by omega⟩
  | negInt value =>
    obtain ⟨whole, lower, negative⟩ := value
    exact .inl ⟨whole, rfl, rfl, lower, by omega⟩
  | float value => exact .inr ⟨value, rfl, rfl, rfl⟩

/-- `number_cmp` is the exact comparison of the rationals two numbers denote. -/
theorem numberCmp_exact (left right : Number) :
    numberCmp (.number left) (.number right) = some (cmp left.toRat right.toRat) := by
  unfold numberCmp
  rcases integer_or_fraction left with
    ⟨leftWhole, leftInteger, leftValue, leftLow, leftHigh⟩ |
    ⟨leftFloat, leftInteger, leftFraction, leftValue⟩ <;>
  rcases integer_or_fraction right with
    ⟨rightWhole, rightInteger, rightValue, rightLow, rightHigh⟩ |
    ⟨rightFloat, rightInteger, rightFraction, rightValue⟩
  · rw [leftInteger, rightInteger, leftValue, rightValue]
    simp only [cmp, cmpUsing, Int.cast_lt]
  · rw [leftInteger, rightInteger, leftValue, rightValue, rightFraction]
    simp [integerFloat_exact leftLow leftHigh]
  · rw [leftInteger, rightInteger, leftValue, rightValue, leftFraction]
    simp [integerFloat_exact rightLow rightHigh, cmp_swap]
  · rw [leftInteger, rightInteger, leftValue, rightValue, leftFraction, rightFraction]
    simp

theorem trunc_neg (value : ℚ) : trunc (-value) = -trunc value := by
  rcases lt_trichotomy value 0 with below | same | above
  · have negated : (0 : ℚ) ≤ -value := by linarith
    rw [trunc, if_pos negated, trunc, if_neg (not_le.mpr below), Int.floor_neg]
  · simp [same, trunc]
  · have negated : ¬(0 : ℚ) ≤ -value := by linarith
    rw [trunc, if_neg negated, trunc, if_pos above.le, Int.ceil_neg]

theorem floor_scaled (mantissa : ℤ) (places : ℕ) :
    (mantissa * 2 ^ (-(places : ℤ)) : ℚ) - ⌊(mantissa * 2 ^ (-(places : ℤ)) : ℚ)⌋ =
      (mantissa % 2 ^ places : ℤ) * 2 ^ (-(places : ℤ)) := by
  have quotient : ⌊(mantissa * 2 ^ (-(places : ℤ)) : ℚ)⌋ = mantissa / 2 ^ places := by
    have cast := Rat.floor_intCast_div_natCast mantissa (2 ^ places)
    rw [zpow_neg, zpow_natCast, ← div_eq_mul_inv]
    exact_mod_cast cast
  rw [quotient, Int.emod_def, zpow_neg, zpow_natCast]
  push_cast
  field_simp

/-- The remainder of a mantissa that is not negative needs no more bits than it has. -/
theorem remainder_scaled {mantissa : ℤ} (positive : 0 ≤ mantissa) (places : ℕ) :
    ∃ rest : ℤ, |rest| ≤ |mantissa| ∧
      (mantissa * 2 ^ (-(places : ℤ)) : ℚ) - trunc (mantissa * 2 ^ (-(places : ℤ))) =
        rest * 2 ^ (-(places : ℤ)) := by
  have sign : (0 : ℚ) ≤ mantissa * 2 ^ (-(places : ℤ)) := by positivity
  refine ⟨mantissa % 2 ^ places, ?_, ?_⟩
  · rw [abs_of_nonneg positive, abs_of_nonneg (Int.emod_nonneg _ (by positivity))]
    have whole : 0 ≤ 2 ^ places * (mantissa / 2 ^ places) :=
      mul_nonneg (by positivity) (Int.ediv_nonneg positive (by positivity))
    rw [Int.emod_def]
    linarith
  · rw [trunc, if_pos sign]
    exact floor_scaled mantissa places

/-- The remainder of a double is a double: `fract` does not round. -/
theorem fract_finite (float : F64) : ∃ rest : F64, rest.value = float.value - trunc float.value := by
  obtain ⟨value, mantissa, exponent, small, low, high, same⟩ := float
  dsimp only
  rcases le_total 0 exponent with whole | below
  · obtain ⟨power, rfl⟩ := Int.eq_ofNat_of_zero_le whole
    refine ⟨⟨0, 0, 0, by simp, by simp, by simp, by simp⟩, ?_⟩
    have integral : value = (mantissa * 2 ^ power : ℤ) := by
      rw [same]
      push_cast
      rw [zpow_natCast]
    rw [integral, trunc, Int.floor_intCast, Int.ceil_intCast, ite_self, sub_self]
  · obtain ⟨places, shift⟩ := Int.eq_ofNat_of_zero_le (neg_nonneg.mpr below)
    obtain rfl : exponent = -(places : ℤ) := by omega
    obtain ⟨rest, fewer, remainder⟩ : ∃ rest : ℤ, |rest| ≤ |mantissa| ∧
        value - trunc value = rest * 2 ^ (-(places : ℤ)) := by
      rcases le_total 0 mantissa with positive | negative
      · exact same ▸ remainder_scaled positive places
      · obtain ⟨rest, fewer, remainder⟩ := remainder_scaled (neg_nonneg.mpr negative) places
        refine ⟨-rest, by rwa [abs_neg, ← abs_neg mantissa], ?_⟩
        rw [Int.cast_neg, neg_mul, ← same, trunc_neg] at remainder
        push_cast at remainder ⊢
        linarith
    exact ⟨⟨rest * 2 ^ (-(places : ℤ)), rest, -places, fewer.trans_lt small, low, high, rfl⟩,
      remainder.symm⟩

/-- The order that `number_cmp` gives. -/
def atMost (left right : Number) : Prop :=
  numberCmp (.number left) (.number right) ≠ some .gt

theorem atMost_iff {left right : Number} : atMost left right ↔ left.toRat ≤ right.toRat := by
  rw [atMost, numberCmp_exact, ne_eq, Option.some.injEq, cmp_eq_gt_iff, not_lt]

theorem numberCmp_none {value : Value} (other : value.asNumber = none) (number : Number) :
    numberCmp (.number number) value = none := by
  have whole : integer value = none := by
    cases value with
    | number => cases other
    | _ => rfl
  have float : fraction value = none := by
    cases value with
    | number => cases other
    | _ => rfl
  rw [numberCmp, whole, float]
  cases integer (.number number) with
  | some => rfl
  | none => cases fraction (.number number) <;> rfl

end ExomonadHarness.Schema
