import ExomonadHarness.Browser.Commands

/-! The spellings of an operation id: each valid one has a canonical one, which is valid
and its own canonical spelling. -/

namespace ExomonadHarness.Browser

variable {digits : List Char}

theorem filter_grouped (plain : '-' ∉ digits) :
    (grouped digits).filter (· ≠ '-') = digits := by
  have keep (part : List Char) (within : part ⊆ digits) : part.filter (· ≠ '-') = part := by
    rw [List.filter_eq_self]
    intro c member
    simp only [decide_eq_true_eq]
    intro same
    exact plain (same ▸ within member)
  have join (start size : ℕ) :
      (digits.drop start).take size ++ digits.drop (start + size) = digits.drop start := by
    rw [← List.drop_drop, List.take_append_drop]
  have first := keep _ (List.take_subset 8 digits)
  have group (start size : ℕ) := keep ((digits.drop start).take size)
    (List.Subset.trans (List.take_subset size _) (List.drop_subset start digits))
  have last := keep _ (List.drop_subset 20 digits)
  simp only [grouped, List.intercalate, List.intersperse, List.flatten_cons, List.flatten_nil,
    List.filter_append, first, group, last]
  simp [join 16 4, join 12 4, join 8 4]

theorem map_grouped (f : Char → Char) (hyphen : f '-' = '-') (digits : List Char) :
    (grouped digits).map f = grouped (digits.map f) := by
  simp [grouped, List.intercalate, List.intersperse, hyphen, List.map_take, List.map_drop]

theorem isHexDigit_ascii {c : Char} (hex : isHexDigit c = true) : c.toNat < 128 := by
  have bounds : c ≤ 'f' := by
    simp only [isHexDigit, Char.isDigit, Bool.or_eq_true, Bool.and_eq_true, decide_eq_true_eq] at hex
    rcases hex with (digit | lower) | upper
    · exact le_trans (b := '9') digit.2 (by decide)
    · exact lower.2
    · exact upper.2.trans (by decide)
  have small : c.toNat ≤ 'f'.toNat := bounds
  exact lt_of_le_of_lt small (by decide)

theorem isHexDigit_toLower {c : Char} (hex : isHexDigit c = true) :
    isHexDigit c.toLower = true ∧ c.toLower.toLower = c.toLower ∧
      c.toLower ≠ '-' ∧ c.toLower ≠ 'u' ∧ c.toLower ≠ '\x7b' := by
  have each : ∀ n : Fin 128, isHexDigit (Char.ofNat n) = true →
      isHexDigit (Char.ofNat n).toLower = true ∧
      (Char.ofNat n).toLower.toLower = (Char.ofNat n).toLower ∧
      (Char.ofNat n).toLower ≠ '-' ∧ (Char.ofNat n).toLower ≠ 'u' ∧
      (Char.ofNat n).toLower ≠ '\x7b' := by decide
  have found := each ⟨c.toNat, isHexDigit_ascii hex⟩
  simp only [Char.ofNat_toNat] at found
  exact found hex

/-- Thirty-two hexadecimal digits, in lower case. -/
structure Canonical (digits : List Char) : Prop where
  length : digits.length = 32
  hex : ∀ c ∈ digits, isHexDigit c = true
  lower : ∀ c ∈ digits, c.toLower = c
  plain : ∀ c ∈ digits, c ≠ '-' ∧ c ≠ 'u' ∧ c ≠ '\x7b'

theorem Canonical.of_hex (length : digits.length = 32) (hex : ∀ c ∈ digits, isHexDigit c = true) :
    Canonical (digits.map Char.toLower) where
  length := by rw [List.length_map, length]
  hex := List.forall_mem_map.mpr fun c member => (isHexDigit_toLower (hex c member)).1
  lower := List.forall_mem_map.mpr fun c member => (isHexDigit_toLower (hex c member)).2.1
  plain := List.forall_mem_map.mpr fun c member => (isHexDigit_toLower (hex c member)).2.2

theorem Canonical.notMem_hyphen (canonical : Canonical digits) :
    '-' ∉ digits := fun member => (canonical.plain _ member).1 rfl

theorem Canonical.head (canonical : Canonical digits) :
    ∃ first, (grouped digits).head? = some first ∧ digits.head? = some first ∧ first ≠ 'u' ∧
      first ≠ '\x7b' := by
  cases digits with
  | nil => cases canonical.length
  | cons first rest =>
    have plain := (canonical.plain first List.mem_cons_self).2
    exact ⟨first, by simp [grouped, List.intercalate, List.intersperse], rfl, plain⟩

theorem not_urn {text : List Char} {first : Char} (head : text.head? = some first)
    (other : first ≠ 'u') : "urn:uuid:".toList.isPrefixOf text = false := by
  cases text with
  | nil => cases head
  | cons start rest =>
    cases head
    simp [List.isPrefixOf, Ne.symm other]

/-- The canonical spelling of what the lower-case text says. -/
theorem canonicalOperationId_of_digits {value : String} (canonical : Canonical digits)
    (same : value.toList.map Char.toLower = grouped digits ∨
      value.toList.map Char.toLower = digits) :
    canonicalOperationId value = String.ofList (grouped digits) := by
  obtain ⟨first, groupedHead, head, notUrn, notBrace⟩ := canonical.head
  have starts : (value.toList.map Char.toLower).head? = some first := by
    rcases same with same | same <;> rw [same] <;> assumption
  have body : (value.toList.map Char.toLower).filter (· ≠ '-') = digits := by
    rcases same with same | same <;> rw [same]
    · exact filter_grouped canonical.notMem_hyphen
    · rw [List.filter_eq_self]
      intro c member
      simpa using (canonical.plain c member).1
  have noBrace : ¬(value.toList.map Char.toLower).head? = some '\x7b' := by
    rw [starts]
    intro brace
    exact notBrace (Option.some.inj brace)
  simp only [canonicalOperationId, not_urn starts notUrn, Bool.false_eq_true, if_false,
    if_neg noBrace, body]

theorem hyphenated_eq_true {text : List Char} (shape : hyphenated text = true) :
    ∃ digits, Canonical digits ∧ text.map Char.toLower = grouped digits := by
  simp only [hyphenated, Bool.and_eq_true, decide_eq_true_eq, List.all_eq_true] at shape
  obtain ⟨⟨length, hex⟩, same⟩ := shape
  refine ⟨_, .of_hex length hex, ?_⟩
  rw [← map_grouped Char.toLower (by decide), ← same]

theorem exists_canonical {value : String} (valid : isOperationId value = true) :
    ∃ digits, Canonical digits ∧ canonicalOperationId value = String.ofList (grouped digits) := by
  simp only [isOperationId, Bool.or_eq_true, Bool.and_eq_true, decide_eq_true_eq,
    List.all_eq_true] at valid
  rcases valid with ((⟨length, hex⟩ | shape) | ⟨⟨start, -⟩, shape⟩) | ⟨urn, shape⟩
  · have canonical := Canonical.of_hex length hex
    exact ⟨_, canonical, canonicalOperationId_of_digits canonical (.inr rfl)⟩
  · obtain ⟨digits, canonical, same⟩ := hyphenated_eq_true shape
    exact ⟨digits, canonical, canonicalOperationId_of_digits canonical (.inl same)⟩
  · obtain ⟨digits, canonical, same⟩ := hyphenated_eq_true shape
    have head : (value.toList.map Char.toLower).head? = some '\x7b' := by
      rw [List.head?_map, start]
      rfl
    refine ⟨digits, canonical, ?_⟩
    simp only [canonicalOperationId, not_urn head (by decide), Bool.false_eq_true, if_false,
      if_pos head, ← List.map_drop, ← List.map_dropLast, same,
      filter_grouped canonical.notMem_hyphen]
  · obtain ⟨digits, canonical, same⟩ := hyphenated_eq_true shape
    have lower : "urn:uuid:".toList.isPrefixOf (value.toList.map Char.toLower) = true := by
      rw [List.isPrefixOf_iff_prefix] at urn ⊢
      exact urn.map Char.toLower
    refine ⟨digits, canonical, ?_⟩
    simp only [canonicalOperationId, lower, if_true, ← List.map_drop, same,
      filter_grouped canonical.notMem_hyphen]

theorem isOperationId_canonical {value : String} (valid : isOperationId value = true) :
    isOperationId (canonicalOperationId value) = true := by
  obtain ⟨digits, canonical, same⟩ := exists_canonical valid
  have shape : hyphenated (grouped digits) = true := by
    simp only [hyphenated, filter_grouped canonical.notMem_hyphen, canonical.length,
      decide_true, Bool.true_and, Bool.and_true, List.all_eq_true]
    exact canonical.hex
  simp [isOperationId, same, shape]

theorem canonicalOperationId_canonical {value : String} (valid : isOperationId value = true) :
    canonicalOperationId (canonicalOperationId value) = canonicalOperationId value := by
  obtain ⟨digits, canonical, same⟩ := exists_canonical valid
  rw [same]
  apply canonicalOperationId_of_digits canonical
  left
  rw [String.toList_ofList, map_grouped _ (by decide), List.map_congr_left canonical.lower,
    List.map_id']
end ExomonadHarness.Browser
