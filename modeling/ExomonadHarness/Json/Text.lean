import ExomonadHarness.Json.Value

/-! The compact text `serde_json` writes for a document, and the depth of the document.
The text of a double is chosen by its printer. -/

namespace ExomonadHarness.Json

/-- One character inside a quoted text. -/
def escapeChar (c : Char) : String :=
  if c = '"' then "\\\""
  else if c = '\\' then "\\\\"
  else if c.toNat = 8 then "\\b"
  else if c.toNat = 9 then "\\t"
  else if c.toNat = 10 then "\\n"
  else if c.toNat = 12 then "\\f"
  else if c.toNat = 13 then "\\r"
  else if c.toNat < 32 then
    "\\u00" ++ String.ofList [(c.toNat / 16).digitChar, (c.toNat % 16).digitChar]
  else String.singleton c

def quote (text : String) : String :=
  "\"" ++ String.join (text.toList.map escapeChar) ++ "\""

def Number.compact (double : F64 → String) : Number → String
  | posInt value => value.val.repr
  | negInt value => "-" ++ value.val.natAbs.repr
  | float value => double value

namespace Value

mutual

def compact (double : F64 → String) : Value → String
  | null => "null"
  | bool true => "true"
  | bool false => "false"
  | number value => value.compact double
  | string value => quote value
  | array items => "[" ++ compactItems double items ++ "]"
  | object entries => "\x7b" ++ compactEntries double entries ++ "\x7d"

def compactItems (double : F64 → String) : List Value → String
  | [] => ""
  | [item] => item.compact double
  | item :: rest => item.compact double ++ "," ++ compactItems double rest

def compactEntries (double : F64 → String) : Map → String
  | [] => ""
  | [(key, value)] => quote key ++ ":" ++ value.compact double
  | (key, value) :: rest =>
    quote key ++ ":" ++ value.compact double ++ "," ++ compactEntries double rest

end

mutual

/-- A document without parts has depth one. -/
def depth : Value → ℕ
  | array items => 1 + depthItems items
  | object entries => 1 + depthEntries entries
  | null | bool _ | number _ | string _ => 1

def depthItems : List Value → ℕ
  | [] => 0
  | item :: rest => max item.depth (depthItems rest)

def depthEntries : Map → ℕ
  | [] => 0
  | (_, value) :: rest => max value.depth (depthEntries rest)

end

theorem depthItems_le {items : List Value} {bound : ℕ} :
    depthItems items ≤ bound ↔ ∀ item ∈ items, item.depth ≤ bound := by
  induction items with
  | nil => simp [depthItems]
  | cons first rest ih => simp [depthItems, ih]

theorem depthEntries_le {entries : Map} {bound : ℕ} :
    depthEntries entries ≤ bound ↔ ∀ entry ∈ entries, entry.2.depth ≤ bound := by
  induction entries with
  | nil => simp [depthEntries]
  | cons first rest ih =>
    obtain ⟨key, value⟩ := first
    simp [depthEntries, ih]

section

variable {double : F64 → String}

theorem number_bytes_pos (printed : ∀ value, double value ≠ "") (value : Number) :
    0 < (value.compact double).utf8ByteSize := by
  refine Nat.pos_of_ne_zero fun empty => ?_
  have none := String.utf8ByteSize_eq_zero_iff.mp empty
  cases value with
  | posInt value => exact Nat.repr_ne_empty none
  | negInt value => simp [Number.compact] at none
  | float value => exact printed value none

mutual

/-- Every node of a document takes a byte of its text. -/
theorem size_le_compact (printed : ∀ value, double value ≠ "") :
    (value : Value) → value.size ≤ (value.compact double).utf8ByteSize
  | null | bool true | bool false => by
    rw [size, compact]
    decide
  | number value => number_bytes_pos printed value
  | string value => by
    have quoted : "\"".utf8ByteSize = 1 := by decide
    simp only [size, compact, quote, String.utf8ByteSize_append]
    omega
  | array items => by
    have inner := size_le_compactItems printed items
    have opened : "[".utf8ByteSize = 1 := by decide
    simp only [size, compact, String.utf8ByteSize_append]
    omega
  | object entries => by
    have inner := size_le_compactEntries printed entries
    have opened : "\x7b".utf8ByteSize = 1 := by decide
    simp only [size, compact, String.utf8ByteSize_append]
    omega

theorem size_le_compactItems (printed : ∀ value, double value ≠ "") : (items : List Value) →
    sizeItems items ≤ (compactItems double items).utf8ByteSize
  | [] => Nat.zero_le _
  | [item] => by
    have first := size_le_compact printed item
    simpa [sizeItems, compactItems] using first
  | item :: next :: rest => by
    have first := size_le_compact printed item
    have others := size_le_compactItems printed (next :: rest)
    rw [sizeItems, compactItems.eq_3 _ _ _ (List.cons_ne_nil _ _)]
    simp only [String.utf8ByteSize_append]
    omega

theorem size_le_compactEntries (printed : ∀ value, double value ≠ "") : (entries : Map) →
    sizeEntries entries ≤ (compactEntries double entries).utf8ByteSize
  | [] => Nat.zero_le _
  | [(key, value)] => by
    have first := size_le_compact printed value
    simp only [sizeEntries, compactEntries, String.utf8ByteSize_append]
    omega
  | (key, value) :: next :: rest => by
    have first := size_le_compact printed value
    have others := size_le_compactEntries printed (next :: rest)
    rw [sizeEntries, compactEntries.eq_3 _ _ _ _ (List.cons_ne_nil _ _)]
    simp only [String.utf8ByteSize_append]
    omega

end

end

end Value
end ExomonadHarness.Json
