import ExomonadHarness.Schema.Shape

/-! What the argument decoder does to the fields of an object and to the
alternatives of a union. -/

namespace ExomonadHarness.Schema.ArgumentProjection

open Json Checked OrderedMap

section

variable {fields : List (String × Bool × ArgumentProjection)} {entries result : Map}
  {path name : String} {omitNull : Bool} {projection : ArgumentProjection}

/-- One field before and after decoding: absent, an omission read from null, or
decoded in place. -/
inductive FieldDecoded (path name : String) (omitNull : Bool) (projection : ArgumentProjection) :
    Option Value → Option Value → Prop where
  | absent : FieldDecoded path name omitNull projection none none
  | omitted (omits : omitNull = true) :
      FieldDecoded path name omitNull projection (some .null) none
  | kept {child decoded : Value} (carried : (omitNull && child == .null) = false)
      (passed : projection.decode child s!"{path}.{name}" = .ok decoded) :
      FieldDecoded path name omitNull projection (some child) (some decoded)

theorem decodeFields_ordered (passed : decodeFields fields entries path = .ok result)
    (ordered : Ordered entries) : Ordered result := by
  induction fields generalizing entries with
  | nil =>
    cases passed
    exact ordered
  | cons field rest ih =>
    obtain ⟨name, omitNull, projection⟩ := field
    simp only [decodeFields] at passed
    split at passed
    · exact ih passed ordered
    split at passed
    · exact ih passed (ordered.remove name)
    · obtain ⟨decoded, _, passed⟩ := bind_eq_ok.mp passed
      exact ih passed (ordered.replace name decoded)

theorem decodeFields_ok (passed : decodeFields fields entries path = .ok result)
    (distinct : (keys fields).Nodup) :
    (∀ name ∉ keys fields, result.lookup name = entries.lookup name) ∧
      ∀ name omitNull projection, fields.lookup name = some (omitNull, projection) →
        FieldDecoded path name omitNull projection (entries.lookup name) (result.lookup name) := by
  induction fields generalizing entries with
  | nil =>
    cases passed
    exact ⟨fun _ _ => rfl, by simp⟩
  | cons field rest ih =>
    obtain ⟨first, omitNull, projection⟩ := field
    obtain ⟨fresh, distinct⟩ := List.nodup_cons.mp distinct
    -- The remaining fields leave this one as its own step left it.
    have step {after : Map} (passed : decodeFields rest after path = .ok result)
        (others : ∀ name ≠ first, after.lookup name = entries.lookup name)
        (here : FieldDecoded path first omitNull projection (entries.lookup first)
          (after.lookup first)) :
        (∀ name ∉ keys ((first, omitNull, projection) :: rest),
          result.lookup name = entries.lookup name) ∧
        ∀ name drops inner, ((first, omitNull, projection) :: rest).lookup name = some (drops, inner) →
          FieldDecoded path name drops inner (entries.lookup name) (result.lookup name) := by
      obtain ⟨untouched, decoded⟩ := ih passed distinct
      refine ⟨?_, ?_⟩
      · intro name foreign
        rw [keys, List.map_cons, List.mem_cons, not_or] at foreign
        rw [untouched name foreign.2, others name foreign.1]
      · intro name drops inner found
        by_cases same : name = first
        · subst same
          rw [List.lookup_cons_self] at found
          cases found
          rw [untouched name fresh]
          exact here
        · rw [lookup_cons_of_ne same] at found
          rw [← others name same]
          exact decoded name drops inner found
    simp only [decodeFields] at passed
    split at passed
    · rename_i missing
      refine step passed (fun _ _ => rfl) ?_
      rw [missing]
      exact .absent
    · rename_i child present
      split at passed
      · rename_i dropped
        simp only [Bool.and_eq_true, beq_iff_eq] at dropped
        refine step passed (fun name other => by rw [lookup_remove, if_neg other]) ?_
        rw [present, lookup_remove, if_pos rfl, dropped.2]
        exact .omitted dropped.1
      · rename_i carried
        obtain ⟨decoded, inner, passed⟩ := bind_eq_ok.mp passed
        refine step passed (fun name other => by rw [lookup_replace, if_neg other]) ?_
        rw [present, lookup_replace, if_pos rfl, present]
        exact .kept (by simpa using carried) inner

theorem decodeFields_error {failure : SchemaError}
    (failed : decodeFields fields entries path = .error failure) (distinct : (keys fields).Nodup) :
    ∃ name omitNull projection child, fields.lookup name = some (omitNull, projection) ∧
      entries.lookup name = some child ∧ (omitNull && child == .null) = false ∧
      projection.decode child s!"{path}.{name}" = .error failure := by
  induction fields generalizing entries with
  | nil => cases failed
  | cons field rest ih =>
    obtain ⟨first, omitNull, projection⟩ := field
    obtain ⟨fresh, distinct⟩ := List.nodup_cons.mp distinct
    have step {after : Map} (failed : decodeFields rest after path = .error failure)
        (others : ∀ name ≠ first, after.lookup name = entries.lookup name) :
        ∃ name drops inner child, ((first, omitNull, projection) :: rest).lookup name =
          some (drops, inner) ∧ entries.lookup name = some child ∧ (drops && child == .null) = false ∧
          inner.decode child s!"{path}.{name}" = .error failure := by
      obtain ⟨name, drops, inner, child, found, present, carried, stopped⟩ := ih failed distinct
      have other : name ≠ first := by
        rintro same
        subst same
        exact fresh (mem_keys_iff.mpr ⟨_, found⟩)
      refine ⟨name, drops, inner, child, ?_, ?_, carried, stopped⟩
      · rw [lookup_cons_of_ne other, found]
      · rw [← others name other, present]
    simp only [decodeFields] at failed
    split at failed
    · exact step failed fun _ _ => rfl
    · rename_i child present
      split at failed
      · exact step failed fun name other => by rw [lookup_remove, if_neg other]
      · rename_i carried
        rcases bind_eq_error.mp failed with stopped | ⟨decoded, _, failed⟩
        · exact ⟨first, omitNull, projection, child, List.lookup_cons_self, present,
            by simpa using carried, stopped⟩
        · exact step failed fun name other => by rw [lookup_replace, if_neg other]

end

section

variable {variants : List (Value × ArgumentProjection)} {value : Value} {path : String}
  {before : Option Value}

/-- Every alternative that matches decodes to the one result. -/
theorem decodeVariants_ok {after : Option Value}
    (passed : decodeVariants variants value path before = .ok after) :
    (∀ decoded, before = some decoded → after = some decoded) ∧
      ∀ variant ∈ variants, fits value variant.1 = true →
        ∃ decoded, variant.2.decode value path = .ok decoded ∧ after = some decoded := by
  induction variants generalizing before with
  | nil =>
    cases passed
    exact ⟨fun _ same => same, by simp⟩
  | cons variant rest ih =>
    obtain ⟨schema, projection⟩ := variant
    simp only [decodeVariants, validateValue_isOk] at passed
    split at passed
    · obtain ⟨candidate, decoded, passed⟩ := bind_eq_ok.mp passed
      split at passed
      · cases passed
      · rename_i agrees
        obtain ⟨settled, others⟩ := ih passed
        have result := settled candidate rfl
        refine ⟨?_, List.forall_mem_cons.mpr ⟨fun _ => ⟨candidate, decoded, result⟩, others⟩⟩
        intro earlier same
        subst same
        have equal : earlier = candidate := by simpa using agrees
        rw [result, equal]
    · rename_i mismatch
      obtain ⟨settled, others⟩ := ih passed
      exact ⟨settled, List.forall_mem_cons.mpr ⟨fun fitting => absurd fitting mismatch, others⟩⟩

theorem decodeVariants_error {failure : SchemaError}
    (failed : decodeVariants variants value path before = .error failure) :
    failure = .ambiguousArguments path ∨ ∃ variant ∈ variants, fits value variant.1 = true ∧
      variant.2.decode value path = .error failure := by
  induction variants generalizing before with
  | nil => cases failed
  | cons variant rest ih =>
    obtain ⟨schema, projection⟩ := variant
    simp only [decodeVariants, validateValue_isOk] at failed
    split at failed
    · rename_i fitting
      rcases bind_eq_error.mp failed with stopped | ⟨candidate, _, failed⟩
      · exact .inr ⟨_, List.mem_cons_self, fitting, stopped⟩
      · split at failed
        · exact .inl (Except.error.inj failed).symm
        · refine (ih failed).imp_right ?_
          rintro ⟨variant, member, rest⟩
          exact ⟨variant, List.mem_cons_of_mem _ member, rest⟩
    · refine (ih failed).imp_right ?_
      rintro ⟨variant, member, rest⟩
      exact ⟨variant, List.mem_cons_of_mem _ member, rest⟩

end

end ExomonadHarness.Schema.ArgumentProjection
