import ExomonadHarness.Json.Number

/-! The number of bytes `serde_json::to_vec` writes and the nesting of what it
writes, computed from the parts. The text of a double is chosen by the printer,
so its length is a parameter wherever one occurs. -/

namespace ExomonadHarness.Json

namespace Length

/-- One character inside a quoted text. -/
def char (c : Char) : ℕ :=
  if c = '"' ∨ c = '\\' then 2
  else if c.toNat < 32 then
    if c.toNat ∈ [8, 9, 10, 12, 13] then 2 else 6
  else c.utf8Size

def text (value : String) : ℕ :=
  2 + (value.toList.map char).sum

def null : ℕ := 4

def bool (value : Bool) : ℕ :=
  if value then 4 else 5

def nat (value : ℕ) : ℕ :=
  Nat.log 10 value + 1

def int (value : ℤ) : ℕ :=
  if value < 0 then 1 + nat value.natAbs else nat value.natAbs

/-- The parts with a comma between neighbours. -/
def separated (parts : List ℕ) : ℕ :=
  parts.sum + (parts.length - 1)

def array (items : List ℕ) : ℕ :=
  2 + separated items

def object (fields : List (String × ℕ)) : ℕ :=
  2 + separated (fields.map fun field => text field.1 + 1 + field.2)

def option (value : Option ℕ) : ℕ :=
  value.getD null

theorem nat_mono {small large : ℕ} (bounded : small ≤ large) : nat small ≤ nat large :=
  Nat.succ_le_succ (Nat.log_mono_right bounded)

/-- A text of the given number of bytes. -/
def filler (bytes : ℕ) : String :=
  String.ofList (List.replicate bytes 'a')

theorem text_filler (bytes : ℕ) : text (filler bytes) = 2 + bytes := by
  have plain : char 'a' = 1 := by decide
  simp [text, filler, plain]

end Length

/-- The deepest nesting `serde_json::from_str` reads. -/
def maxNesting : ℕ := 127

/-- The nesting of an array or object around its parts. -/
def nest (parts : List ℕ) : ℕ :=
  parts.foldr max 0 + 1

end ExomonadHarness.Json
