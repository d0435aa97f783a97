import Mathlib

/-! Numbers as `serde_json` keeps them without arbitrary precision: an unsigned
64-bit integer, a negative 64-bit integer or a finite double. -/

namespace ExomonadHarness.Json

/-- A finite double, identified by the rational it denotes. Equality and order
of finite doubles see nothing else, and the two zeros are equal. -/
structure F64 where
  value : ℚ
  finite : ∃ mantissa exponent : ℤ, |mantissa| < 2 ^ 53 ∧ -1074 ≤ exponent ∧ exponent ≤ 971 ∧
    value = mantissa * 2 ^ exponent
  deriving DecidableEq

/-- The double with an integral value of the given mantissa and exponent. -/
def F64.scaled (mantissa : ℤ) (exponent : ℕ) (small : |mantissa| < 2 ^ 53)
    (bounded : exponent ≤ 971) : F64 where
  value := (mantissa * 2 ^ exponent : ℤ)
  finite := ⟨mantissa, exponent, small, by omega, by omega, by push_cast; rw [zpow_natCast]⟩

/-- `f64::MAX` and `f64::MIN`. -/
def F64.max : F64 := .scaled (2 ^ 53 - 1) 971 (by decide) le_rfl
def F64.min : F64 := .scaled (-(2 ^ 53 - 1)) 971 (by decide) le_rfl

/-- `f32::MAX` and `f32::MIN`, converted to `f64` without loss. -/
def F64.singleMax : F64 := .scaled (2 ^ 24 - 1) 104 (by decide) (by decide)
def F64.singleMin : F64 := .scaled (-(2 ^ 24 - 1)) 104 (by decide) (by decide)

instance instNeZeroWord : NeZero (2 ^ 64) := ⟨by decide⟩

inductive Number where
  | posInt (value : Fin (2 ^ 64))
  | negInt (value : {value : ℤ // -2 ^ 63 ≤ value ∧ value < 0})
  | float (value : F64)
  deriving DecidableEq

namespace Number

def asU64 : Number → Option ℕ
  | posInt value => some value
  | _ => none

def asI64 : Number → Option ℤ
  | posInt value => if value.val < 2 ^ 63 then some value else none
  | negInt value => some value
  | float _ => none

/-- The exact rational a number denotes. -/
def toRat : Number → ℚ
  | posInt value => (value.val : ℚ)
  | negInt value => (value.val : ℚ)
  | float value => value.value

end Number

end ExomonadHarness.Json
